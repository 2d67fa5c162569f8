/-
# `HartMonitor.Document.Lexeme` — the pieces of a JSON text

Blanks, literal names, numbers and strings, each read off the head of a list of
characters.  A piece that ends too early is told apart from one that is wrong: the
first problem from left to right decides what is reported.

Every reader here gives back less than it was given (`length_…_lt`); the readers of
whole values end because of that.
-/
import HartMonitor.Binary64
import HartMonitor.Text.Numeral

namespace HartMonitor.Document

/-- Why a text is not a document of the expected form. -/
inductive DocumentError where
  /-- The text is not well-formed. -/
  | malformed
  /-- The text is well-formed so far, and a value is not of the expected type or range. -/
  | mismatch
  /-- The text ends too early. -/
  | truncated
deriving DecidableEq, Repr

open DocumentError Text

/-! ## Blanks and literal names -/

/-- Whether a character may stand between the pieces of a text. -/
def isSpace (c : Char) : Bool :=
  c == ' ' || c == '\n' || c == '\t' || c == '\r'

def skipSpace (cs : List Char) : List Char :=
  cs.dropWhile isSpace

theorem length_skipSpace_le (cs : List Char) : (skipSpace cs).length ≤ cs.length :=
  (List.dropWhile_sublist isSpace).length_le

def spell : List Char → List Char → Except DocumentError (List Char)
  | [], cs => .ok cs
  | _ :: _, [] => .error truncated
  | e :: expected, c :: cs => if c = e then spell expected cs else .error malformed

theorem length_spell_le {expected cs rest : List Char} (h : spell expected cs = .ok rest) :
    rest.length ≤ cs.length := by
  induction expected generalizing cs with
  | nil => simp_all [spell]
  | cons e expected ih =>
    cases cs with
    | nil => simp [spell] at h
    | cons c cs =>
      simp only [spell] at h
      split at h
      · have := ih h
        simp only [List.length_cons]
        omega
      · cases h

/-! ## Strings -/

def hexQuad? (a b c d : Char) : Option Nat :=
  match digitValue? a, digitValue? b, digitValue? c, digitValue? d with
  | some w, some x, some y, some z => some (((w * 16 + x) * 16 + y) * 16 + z)
  | _, _, _, _ => none

def byteCount (cs : List Char) : Nat :=
  cs.foldr (fun c n => c.utf8Size + n) 0

/-- The number that four digits at the head of a text spell, and what follows them.  Four bytes have
to be left. -/
def hexEscape : List Char → Except DocumentError (Nat × List Char)
  | a :: b :: c :: d :: rest =>
    match hexQuad? a b c d with
    | some n => .ok (n, rest)
    | none => .error malformed
  | short => .error (if 4 ≤ byteCount short then malformed else truncated)

theorem length_hexEscape_lt {cs rest : List Char} {n : Nat} (h : hexEscape cs = .ok (n, rest)) :
    rest.length < cs.length := by
  unfold hexEscape at h
  split at h
  · split at h
    · cases h
      simp only [List.length_cons]
      omega
    · cases h
  · cases h

/-- Whether a number is the first half of a surrogate pair. -/
def isLeading (n : Nat) : Bool := 0xd800 ≤ n && n ≤ 0xdbff

/-- Whether a number is the second half of a surrogate pair. -/
def isTrailing (n : Nat) : Bool := 0xdc00 ≤ n && n ≤ 0xdfff

def pairChar (leading trailing : Nat) : Char :=
  Char.ofNat (0x10000 + (leading - 0xd800) * 0x400 + (trailing - 0xdc00))

/-- The second half of a surrogate pair, which has to be escaped too, and what follows it. -/
def trailingEscape : List Char → Except DocumentError (Nat × List Char)
  | [] => .error truncated
  | '\x5c' :: [] => .error truncated
  | '\x5c' :: 'u' :: rest =>
    match hexEscape rest with
    | .error e => .error e
    | .ok (n, rest) => if isTrailing n then .ok (n, rest) else .error malformed
  | _ => .error malformed

theorem length_trailingEscape_lt {cs rest : List Char} {n : Nat}
    (h : trailingEscape cs = .ok (n, rest)) : rest.length < cs.length := by
  unfold trailingEscape at h
  split at h
  · cases h
  · cases h
  · split at h
    · cases h
    · next hx =>
      split at h
      · cases h
        have := length_hexEscape_lt hx
        simp only [List.length_cons]
        omega
      · cases h
  · cases h

/-- The character of an escape by number, and what follows it.  Whether halves of surrogate pairs
pair is only looked at where `strict` says so. -/
def numericEscape (strict : Bool) (cs : List Char) : Except DocumentError (Char × List Char) :=
  match hexEscape cs with
  | .error e => .error e
  | .ok (n, rest) =>
    if !strict then .ok (Char.ofNat n, rest)
    else if isTrailing n then .error malformed
    else if isLeading n then
      match trailingEscape rest with
      | .error e => .error e
      | .ok (m, rest) => .ok (pairChar n m, rest)
    else .ok (Char.ofNat n, rest)

theorem length_numericEscape_lt {strict : Bool} {cs rest : List Char} {c : Char}
    (h : numericEscape strict cs = .ok (c, rest)) : rest.length < cs.length := by
  unfold numericEscape at h
  split at h
  · cases h
  · next hx =>
    have first := length_hexEscape_lt hx
    split at h
    · simp only [Except.ok.injEq, Prod.mk.injEq] at h
      exact h.2 ▸ first
    · split at h
      · cases h
      · split at h
        · split at h
          · cases h
          · next hy =>
            simp only [Except.ok.injEq, Prod.mk.injEq] at h
            have := length_trailingEscape_lt hy
            exact h.2 ▸ Nat.lt_trans this first
        · simp only [Except.ok.injEq, Prod.mk.injEq] at h
          exact h.2 ▸ first

/-- The character that an escape of one letter stands for. -/
def shortEscape? : Char → Option Char
  | '\x22' => some '\x22'
  | '\x5c' => some '\x5c'
  | '/' => some '/'
  | 'b' => some '\x08'
  | 'f' => some '\x0c'
  | 'n' => some '\n'
  | 'r' => some '\r'
  | 't' => some '\t'
  | _ => none

/-- The character of an escape, and what follows it. -/
def escape (strict : Bool) : List Char → Except DocumentError (Char × List Char)
  | [] => .error truncated
  | c :: rest =>
    match shortEscape? c with
    | some d => .ok (d, rest)
    | none => if c = 'u' then numericEscape strict rest else .error malformed

theorem length_escape_lt {strict : Bool} {cs rest : List Char} {d : Char}
    (h : escape strict cs = .ok (d, rest)) : rest.length < cs.length := by
  unfold escape at h
  split at h
  · cases h
  · split at h
    · cases h
      simp
    · split at h
      · have := length_numericEscape_lt h
        simp only [List.length_cons]
        omega
      · cases h

set_option linter.unusedVariables false in
/-- The characters of a string whose opening quote is behind, and what follows its closing one. -/
def quoted (strict : Bool) (cs : List Char) : Except DocumentError (List Char × List Char) :=
  match cs with
  | [] => .error truncated
  | c :: rest =>
    if c = '\x22' then .ok ([], rest)
    else if c = '\x5c' then
      match h : escape strict rest with
      | .error e => .error e
      | .ok (d, rest) => (quoted strict rest).map fun (ds, rest) => (d :: ds, rest)
    else if c.toNat < 0x20 then .error malformed
    else (quoted strict rest).map fun (ds, rest) => (c :: ds, rest)
termination_by cs.length
decreasing_by
  · have := length_escape_lt h
    simp only [List.length_cons]
    omega
  · simp

theorem length_quoted_lt {strict : Bool} {cs ds rest : List Char}
    (h : quoted strict cs = .ok (ds, rest)) : rest.length < cs.length := by
  fun_induction quoted strict cs generalizing ds with
  | case1 => cases h
  | case2 => cases h; simp
  | case3 => cases h
  | case4 rest' d rest'' hx _ ih =>
    simp only [Except.map] at h
    split at h
    · cases h
    · next hy =>
      cases h
      have := ih hy
      have := length_escape_lt hx
      simp only [List.length_cons]
      omega
  | case5 => cases h
  | case6 c rest' _ _ _ ih =>
    simp only [Except.map] at h
    split at h
    · cases h
    · next hy =>
      cases h
      have := ih hy
      simp only [List.length_cons]
      omega

/-! ## Numbers -/

/-- The parts of a number: sign, digits before and after the point, sign and digits of the
exponent. -/
structure NumberText where
  negative : Bool
  whole : List Char
  fraction : Option (List Char)
  exponent : Option (Bool × List Char)
deriving DecidableEq, Repr

/-- A nonempty run of digits, and what follows it; `atEnd` is reported where the text ends
instead. -/
def digitRun (atEnd : DocumentError) : List Char → Except DocumentError (List Char × List Char)
  | [] => .error atEnd
  | c :: rest =>
    if c.isDigit then .ok (c :: rest.takeWhile Char.isDigit, rest.dropWhile Char.isDigit)
    else .error malformed

theorem length_digitRun_lt {atEnd : DocumentError} {cs ds rest : List Char}
    (h : digitRun atEnd cs = .ok (ds, rest)) : rest.length < cs.length := by
  unfold digitRun at h
  split at h
  · cases h
  · next c more =>
    split at h
    · cases h
      have := (List.dropWhile_sublist (l := more) Char.isDigit).length_le
      simp only [List.length_cons]
      omega
    · cases h

/-- The digits before the point, without a superfluous zero in front, and what follows them. -/
def wholeDigits (atEnd : DocumentError) (cs : List Char) :
    Except DocumentError (List Char × List Char) :=
  match digitRun atEnd cs with
  | .error e => .error e
  | .ok (ds, rest) => if ds.head? = some '0' && 1 < ds.length then .error malformed else .ok (ds, rest)

theorem length_wholeDigits_lt {atEnd : DocumentError} {cs ds rest : List Char}
    (h : wholeDigits atEnd cs = .ok (ds, rest)) : rest.length < cs.length := by
  unfold wholeDigits at h
  split at h
  · cases h
  · next hx =>
    split at h
    · cases h
    · cases h
      exact length_digitRun_lt hx

/-- The point and the digits after it, if they are there, and what follows them. -/
def fractionDigits (atEnd : DocumentError) :
    List Char → Except DocumentError (Option (List Char) × List Char)
  | '.' :: rest => (digitRun atEnd rest).map fun (ds, rest) => (some ds, rest)
  | cs => .ok (none, cs)

theorem length_fractionDigits_le {atEnd : DocumentError} {cs rest : List Char}
    {ds : Option (List Char)} (h : fractionDigits atEnd cs = .ok (ds, rest)) :
    rest.length ≤ cs.length := by
  unfold fractionDigits at h
  split at h
  · simp only [Except.map] at h
    split at h
    · cases h
    · next hx =>
      cases h
      have := length_digitRun_lt hx
      simp only [List.length_cons]
      omega
  · cases h
    exact Nat.le_refl _

/-- A sign and what follows it; no sign is a plus. -/
def signOf : List Char → Bool × List Char
  | '-' :: rest => (true, rest)
  | '+' :: rest => (false, rest)
  | cs => (false, cs)

theorem length_signOf_le (cs : List Char) : (signOf cs).2.length ≤ cs.length := by
  unfold signOf
  split <;> simp

/-- The exponent, if it is there, and what follows it. -/
def exponentDigits (atEnd : DocumentError) :
    List Char → Except DocumentError (Option (Bool × List Char) × List Char)
  | [] => .ok (none, [])
  | c :: rest =>
    if c = 'e' || c = 'E' then
      (digitRun atEnd (signOf rest).2).map fun (ds, more) => (some ((signOf rest).1, ds), more)
    else .ok (none, c :: rest)

theorem length_exponentDigits_le {atEnd : DocumentError} {cs rest : List Char}
    {e : Option (Bool × List Char)} (h : exponentDigits atEnd cs = .ok (e, rest)) :
    rest.length ≤ cs.length := by
  unfold exponentDigits at h
  split at h
  · cases h
    exact Nat.le_refl _
  · next c more =>
    split at h
    · simp only [Except.map] at h
      split at h
      · cases h
      · next hx =>
        cases h
        have := length_digitRun_lt hx
        have := length_signOf_le more
        simp only [List.length_cons]
        omega
    · cases h
      exact Nat.le_refl _

/-- The number after its sign, and what follows it. -/
def unsignedNumber (atEnd : DocumentError) (negative : Bool) (cs : List Char) :
    Except DocumentError (NumberText × List Char) :=
  match wholeDigits atEnd cs with
  | .error e => .error e
  | .ok (whole, rest) =>
    match fractionDigits atEnd rest with
    | .error e => .error e
    | .ok (fraction, rest) =>
      match exponentDigits atEnd rest with
      | .error e => .error e
      | .ok (exponent, rest) => .ok (⟨negative, whole, fraction, exponent⟩, rest)

theorem length_unsignedNumber_lt {atEnd : DocumentError} {negative : Bool} {cs rest : List Char}
    {n : NumberText} (h : unsignedNumber atEnd negative cs = .ok (n, rest)) :
    rest.length < cs.length := by
  unfold unsignedNumber at h
  split at h
  · cases h
  · next hx =>
    split at h
    · cases h
    · next hy =>
      split at h
      · cases h
      · next hz =>
        cases h
        have := length_wholeDigits_lt hx
        have := length_fractionDigits_le hy
        have := length_exponentDigits_le hz
        omega

/-- The number at the head of a text, and what follows it; `atEnd` is reported where the text ends
inside it. -/
def number (atEnd : DocumentError) : List Char → Except DocumentError (NumberText × List Char)
  | '-' :: rest => unsignedNumber atEnd true rest
  | cs => unsignedNumber atEnd false cs

theorem length_number_lt {atEnd : DocumentError} {cs rest : List Char} {n : NumberText}
    (h : number atEnd cs = .ok (n, rest)) : rest.length < cs.length := by
  unfold number at h
  split at h
  · have := length_unsignedNumber_lt h
    simp only [List.length_cons]
    omega
  · exact length_unsignedNumber_lt h

namespace NumberText

def digitsValue (ds : List Char) : Nat :=
  ds.foldl (fun n c => n * 10 + (c.toNat - '0'.toNat)) 0

def natural? (n : NumberText) : Option Nat :=
  if n.negative || n.fraction.isSome || n.exponent.isSome then none else some (digitsValue n.whole)

/-- The leading digits of a run that, behind `high`, make a number below `2 ^ 64`, and how many
digits are left. -/
def leadingDigits (high : Nat) : List Char → Nat × Nat
  | [] => (high, 0)
  | c :: rest =>
    let next := high * 10 + (c.toNat - '0'.toNat)
    if next < 1 <<< 64 then leadingDigits next rest else (high, rest.length + 1)

def exponentValue : Option (Bool × List Char) → Int
  | none => 0
  | some (true, ds) => -(digitsValue ds : Int)
  | some (false, ds) => (digitsValue ds : Int)

/-- Whether a number is too large for double precision: its leading digits times a power of ten,
each rounded first, reach past the largest finite value. -/
def isTooLarge (n : NumberText) : Bool :=
  let (high, dropped) := leadingDigits 0 n.whole
  let digits := n.fraction.getD []
  let (significand, ignored) := leadingDigits high digits
  let power : Int := dropped - ((digits.length - ignored : Nat) : Int) + exponentValue n.exponent
  significand != 0 && 0 ≤ power
    && (308 < power
      || Binary64.exceedsRange
          (Binary64.roundWhole significand * Binary64.roundWhole (Nat.pow 10 power.toNat)))

end NumberText

end HartMonitor.Document
