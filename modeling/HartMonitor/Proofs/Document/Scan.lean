/-
# `HartMonitor.Proofs.Document.Scan` — what the readers of pieces find

The texts of `Json` are read piece by piece: blanks, strings, numbers, names of values.  A string
is read strictly, where half of a surrogate pair is an error, or not; a number is read to its end
where the text does not go on with it.  With these, any value is passed over (`passedOver`),
by induction on how it is written.
-/
import HartMonitor.Document.Skip
import HartMonitor.Proofs.Document.Json
import Mathlib.Data.List.TakeWhile

namespace HartMonitor.Document

open DocumentError

variable {s t cs rest : List Char} {c : Char}

/-! ## Blanks and literal names -/

theorem Blank.append {s' : List Char} (blank : Blank s) (blank' : Blank s') : Blank (s ++ s') :=
  fun c hc => (List.mem_append.mp hc).elim (blank c) (blank' c)

theorem skipSpace_append (blank : Blank s) (cs : List Char) : skipSpace (s ++ cs) = skipSpace cs := by
  rw [skipSpace, List.dropWhile_append_of_pos blank, skipSpace]

theorem skipSpace_cons (solid : isSpace c = false) (cs : List Char) : skipSpace (c :: cs) = c :: cs :=
  List.dropWhile_cons_of_neg (by simp [solid])

theorem isEmpty_skipSpace : (skipSpace cs).isEmpty = true ↔ Blank cs := by
  rw [List.isEmpty_iff, skipSpace, List.dropWhile_eq_nil_iff, Blank]

theorem spell_append (name rest : List Char) : spell name (name ++ rest) = .ok rest := by
  induction name with
  | nil => rfl
  | cons c name ih =>
      rw [List.cons_append, spell, if_pos rfl]
      exact ih

/-! ## Strings -/

theorem Name.inQuotes_append (n : Name) (cs rest : List Char) :
    n.inQuotes cs ++ rest = n.inQuotes (cs ++ rest) := by
  simp only [Name.inQuotes, List.cons_append, List.append_assoc]

theorem quoted_cons {strict : Bool} (clear : c ≠ '\x22' ∧ c ≠ '\x5c' ∧ 0x20 ≤ c.toNat)
    (cs : List Char) :
    quoted strict (c :: cs) = (quoted strict cs).map fun (ds, rest) => (c :: ds, rest) := by
  rw [quoted, if_neg clear.1, if_neg clear.2.1, if_neg (by omega)]

theorem quoted_close {strict : Bool} (cs : List Char) : quoted strict ('\x22' :: cs) = .ok ([], cs) := by
  rw [quoted, if_pos rfl]

theorem quoted_escape {strict : Bool} (read : escape strict cs = .ok (c, rest)) :
    quoted strict ('\x5c' :: cs) = (quoted strict rest).map fun (ds, rest) => (c :: ds, rest) := by
  rw [quoted, if_neg (by decide), if_pos rfl]
  split <;> simp_all

theorem quoted_escape_error {strict : Bool} {e : DocumentError} (fails : escape strict cs = .error e) :
    quoted strict ('\x5c' :: cs) = .error e := by
  rw [quoted, if_neg (by decide), if_pos rfl]
  split <;> simp_all

theorem escape_short {strict : Bool} {letter : Char} (known : shortEscape? letter = some c)
    (cs : List Char) : escape strict (letter :: cs) = .ok (c, cs) := by
  rw [escape, known]

theorem escape_code {strict : Bool} (cs : List Char) :
    escape strict ('u' :: cs) = numericEscape strict cs := by
  have unknown : shortEscape? 'u' = none := rfl
  rw [escape, unknown]
  exact if_pos rfl

theorem hexEscape_cons {a b c d : Char} {n : Nat} (spelled : hexQuad? a b c d = some n)
    (cs : List Char) : hexEscape (a :: b :: c :: d :: cs) = .ok (n, cs) := by
  rw [hexEscape, spelled]

/-- An escape by number, by the halves of surrogate pairs. -/
theorem escape_strict {a b c d : Char} {n : Nat} (spelled : hexQuad? a b c d = some n)
    (cs : List Char) :
    escape true ('u' :: a :: b :: c :: d :: cs) =
      if isTrailing n then .error malformed
      else if isLeading n then (trailingEscape cs).map fun (m, rest) => (pairChar n m, rest)
      else .ok (Char.ofNat n, cs) := by
  rw [escape_code, numericEscape, hexEscape_cons spelled]
  show (if isTrailing n then _ else if isLeading n then _ else _) = _
  cases trailingEscape cs <;> rfl

/-- Behind the first half of a surrogate pair, only the second one is read. -/
theorem trailingEscape_text (s : Name) (rest : List Char) :
    trailingEscape (s.text ++ '\x22' :: rest) =
      match s with
      | .code _ _ _ _ m _ :: more =>
        if isTrailing m then .ok (m, Name.text more ++ '\x22' :: rest) else .error malformed
      | _ => .error malformed := by
  cases s with
  | nil => rfl
  | cons p more =>
      cases p with
      | plain c clear =>
          show trailingEscape (c :: _) = _
          unfold trailingEscape
          split <;> simp_all
      | short letter c known =>
          have other : letter ≠ 'u' := by
            rintro rfl
            cases known
          show trailingEscape ('\x5c' :: letter :: _) = _
          unfold trailingEscape
          split <;> simp_all
      | code a b c d m spelled =>
          show trailingEscape ('\x5c' :: 'u' :: a :: b :: c :: d :: (Name.text more ++ _)) = _
          rw [trailingEscape, hexEscape_cons spelled]

/-- A string that is read strictly is the characters that it stands for. -/
theorem quoted_strict (s : Name) (rest : List Char) :
    quoted true (s.text ++ '\x22' :: rest) =
      match s.decode? with
      | some cs => .ok (cs, rest)
      | none => .error malformed := by
  fun_induction Name.decode? s with
  | case1 => exact quoted_close rest
  | case2 c clear more ih =>
      show quoted true (c :: (Name.text more ++ _)) = _
      rw [quoted_cons clear, ih]
      cases Name.decode? more <;> rfl
  | case3 letter c known more ih =>
      show quoted true ('\x5c' :: letter :: (Name.text more ++ _)) = _
      rw [quoted_escape (escape_short known _), ih]
      cases Name.decode? more <;> rfl
  | case4 a b c d n spelled more trailing =>
      refine quoted_escape_error (?_ : escape true ('u' :: a :: b :: c :: d :: _) = _)
      rw [escape_strict spelled, if_pos trailing]
  | case5 a b c d n spelled single leading a' b' c' d' m spelled' more trailing ih =>
      have escaped : escape true ('u' :: a :: b :: c :: d ::
          (Name.text (.code a' b' c' d' m spelled' :: more) ++ '\x22' :: rest)) =
            .ok (pairChar n m, Name.text more ++ '\x22' :: rest) := by
        rw [escape_strict spelled, if_neg single, if_pos leading, trailingEscape_text]
        simp only [if_pos trailing]
        rfl
      refine (quoted_escape escaped).trans ?_
      rw [ih]
      cases Name.decode? more <;> rfl
  | case6 a b c d n spelled single leading a' b' c' d' m spelled' more single' =>
      refine quoted_escape_error (?_ : escape true ('u' :: a :: b :: c :: d ::
        (Name.text (.code a' b' c' d' m spelled' :: more) ++ _)) = _)
      rw [escape_strict spelled, if_neg single, if_pos leading, trailingEscape_text]
      simp only [if_neg single']
      rfl
  | case7 a b c d n spelled more single leading other =>
      refine quoted_escape_error (?_ : escape true ('u' :: a :: b :: c :: d ::
        (Name.text more ++ _)) = _)
      rw [escape_strict spelled, if_neg single, if_pos leading, trailingEscape_text]
      split
      · exact absurd rfl (other _ _ _ _ _ _ _)
      · rfl
  | case8 a b c d n spelled more single plain ih =>
      have escaped : escape true ('u' :: a :: b :: c :: d :: (Name.text more ++ '\x22' :: rest)) =
          .ok (Char.ofNat n, Name.text more ++ '\x22' :: rest) := by
        rw [escape_strict spelled, if_neg single, if_neg plain]
      refine (quoted_escape escaped).trans ?_
      rw [ih]
      cases Name.decode? more <;> rfl

theorem quoted_lenient (s : Name) (rest : List Char) :
    ∃ cs, quoted false (s.text ++ '\x22' :: rest) = .ok (cs, rest) := by
  induction s with
  | nil => exact ⟨[], quoted_close rest⟩
  | cons p more ih =>
      obtain ⟨cs, read⟩ := ih
      cases p with
      | plain c clear =>
          refine ⟨c :: cs, ?_⟩
          show quoted false (c :: (Name.text more ++ _)) = _
          rw [quoted_cons clear, read]
          rfl
      | short letter c known =>
          refine ⟨c :: cs, ?_⟩
          show quoted false ('\x5c' :: letter :: (Name.text more ++ _)) = _
          rw [quoted_escape (escape_short known _), read]
          rfl
      | code a b c d n spelled =>
          refine ⟨Char.ofNat n :: cs, ?_⟩
          show quoted false ('\x5c' :: 'u' :: a :: b :: c :: d :: (Name.text more ++ _)) = _
          have escaped : escape false ('u' :: a :: b :: c :: d :: (Name.text more ++ '\x22' :: rest)) =
              .ok (Char.ofNat n, Name.text more ++ '\x22' :: rest) := by
            rw [escape_code, numericEscape, hexEscape_cons spelled]
            rfl
          rw [quoted_escape escaped, read]
          rfl

/-! ## Numbers -/

namespace NumberText

variable {n : NumberText} {ds ft et : List Char} {fraction : Option (List Char)}
  {exponent : Option (Bool × List Char)} {atEnd : DocumentError}

theorem IsDigits.exists_cons (digits : IsDigits ds) : ∃ c more, ds = c :: more ∧ c.isDigit = true := by
  obtain ⟨c, more, rfl⟩ := List.exists_cons_of_ne_nil digits.1
  exact ⟨c, more, rfl, digits.2 c List.mem_cons_self⟩

theorem digitRun_append (digits : IsDigits ds) (stop : ∀ c ∈ rest.head?, c.isDigit = false) :
    digitRun atEnd (ds ++ rest) = .ok (ds, rest) := by
  obtain ⟨c, more, rfl, digit⟩ := digits.exists_cons
  have run : ∀ d ∈ more, d.isDigit = true := fun d hd => digits.2 d (List.mem_cons_of_mem c hd)
  have behind : rest.takeWhile Char.isDigit = [] ∧ rest.dropWhile Char.isDigit = rest := by
    cases rest with
    | nil => exact ⟨rfl, rfl⟩
    | cons d rest =>
        have last : ¬ d.isDigit = true := by simp [stop d rfl]
        exact ⟨List.takeWhile_cons_of_neg last, List.dropWhile_cons_of_neg last⟩
  rw [List.cons_append, digitRun, if_pos digit, List.takeWhile_append_of_pos run,
    List.dropWhile_append_of_pos run, behind.1, behind.2, List.append_nil]

theorem wholeDigits_append (digits : IsDigits ds) (plain : ds.head? = some '0' → ds.length ≤ 1)
    (stop : ∀ c ∈ rest.head?, c.isDigit = false) :
    wholeDigits atEnd (ds ++ rest) = .ok (ds, rest) := by
  rw [wholeDigits, digitRun_append digits stop]
  refine if_neg ?_
  simp only [Bool.and_eq_true, decide_eq_true_eq, not_and]
  intro zero
  have := plain zero
  omega

theorem fractionDigits_append (atPoint : Fraction fraction ft)
    (stop : ∀ c ∈ rest.head?, c.isDigit = false ∧ c ≠ '.') :
    fractionDigits atEnd (ft ++ rest) = .ok (fraction, rest) := by
  cases atPoint with
  | absent =>
      cases rest with
      | nil => rfl
      | cons c rest =>
          have other := (stop c rfl).2
          show fractionDigits atEnd (c :: rest) = _
          unfold fractionDigits
          split
          · simp_all
          · rfl
  | present digits =>
      rw [List.cons_append, fractionDigits, digitRun_append digits fun c hc => (stop c hc).1]
      rfl

theorem signOf_digits (digits : IsDigits ds) : signOf (ds ++ rest) = (false, ds ++ rest) := by
  obtain ⟨c, more, rfl, digit⟩ := digits.exists_cons
  rw [List.cons_append]
  unfold signOf
  split
  · simp_all
  · simp_all
  · rfl

theorem exponentDigits_append (atMark : Exponent exponent et) (stop : Ends rest) :
    exponentDigits atEnd (et ++ rest) = .ok (exponent, rest) := by
  cases atMark with
  | absent =>
      cases rest with
      | nil => rfl
      | cons c rest =>
          obtain ⟨-, -, small, large⟩ := stop c rfl
          rw [List.nil_append, exponentDigits, if_neg (by simp [small, large])]
  | @present mark sign ds negative marked signed digits =>
      have sign : signOf (sign ++ (ds ++ rest)) = (negative, ds ++ rest) := by
        obtain ⟨minus, rfl⟩ | ⟨plus | none, rfl⟩ := signed
        · rw [minus]
          rfl
        · rw [plus]
          rfl
        · rw [none, List.nil_append]
          exact signOf_digits digits
      rw [List.cons_append, List.append_assoc, exponentDigits, if_pos (by simpa using marked), sign,
        digitRun_append digits fun c hc => (stop c hc).1]
      rfl

theorem Exponent.stop (atMark : Exponent exponent et) (stop : Ends rest) :
    ∀ c ∈ (et ++ rest).head?, c.isDigit = false ∧ c ≠ '.' := by
  cases atMark with
  | absent => exact fun c hc => ⟨(stop c hc).1, (stop c hc).2.1⟩
  | present marked =>
      rintro c ⟨⟩
      obtain rfl | rfl := marked <;> decide

theorem Fraction.stop (atPoint : Fraction fraction ft)
    (stop : ∀ c ∈ rest.head?, c.isDigit = false ∧ c ≠ '.') :
    ∀ c ∈ (ft ++ rest).head?, c.isDigit = false := by
  cases atPoint with
  | absent => exact fun c hc => (stop c hc).1
  | present =>
      rintro c ⟨⟩
      rfl

theorem number_append (spelled : n.Spelled t) (ends : Ends rest) :
    number atEnd (t ++ rest) = .ok (n, rest) := by
  obtain ⟨digits, plain, atPoint, atMark⟩ := spelled
  rename_i negative whole ft et fraction exponent
  have behind := atMark.stop ends
  have unsigned : ∀ negative, unsignedNumber atEnd negative (whole ++ (ft ++ (et ++ rest))) =
      .ok (⟨negative, whole, fraction, exponent⟩, rest) := by
    intro negative
    rw [unsignedNumber, wholeDigits_append digits plain (atPoint.stop behind)]
    simp only
    rw [fractionDigits_append atPoint behind]
    simp only
    rw [exponentDigits_append atMark ends]
  cases negative with
  | true => simpa [number] using unsigned true
  | false =>
      obtain ⟨c, more, rfl, digit⟩ := digits.exists_cons
      have other : c ≠ '-' := by
        rintro rfl
        cases digit
      simpa [number, other] using unsigned false

theorem Spelled.exists_cons (spelled : n.Spelled t) : ∃ c more, t = c :: more ∧ startsNumber c = true := by
  obtain ⟨digits, plain, atPoint, atMark⟩ := spelled
  rename_i negative whole ft et fraction exponent
  cases negative with
  | true => exact ⟨'-', _, rfl, rfl⟩
  | false =>
      obtain ⟨c, more, rfl, digit⟩ := digits.exists_cons
      exact ⟨c, _, rfl, by simp [startsNumber, digit]⟩

end NumberText

/-! ## Passing over a value -/

theorem skipValue_eq (around : List Bracket) (cs : List Char) :
    skipValue around cs =
      match skipSpace cs with
      | [] => .error truncated
      | c :: rest =>
        match opening? c with
        | some b =>
          match skipSpace rest with
          | [] => .error truncated
          | d :: more =>
            if d = b.closing then skipClosed around more
            else nextItem b (d :: more) >>= skipValue (b :: around)
        | none => skipScalar (c :: rest) >>= skipClosed around := by
  rw [skipValue]
  split
  · next empty => rw [empty]
  · next c rest solid =>
      rw [solid]
      simp only
      split
      · next b opens =>
          split
          · next empty => simp only [*]
          · next d more inside =>
              simp only [*]
              by_cases closes : d = b.closing
              · rw [if_pos closes]
                exact (if_pos closes).symm
              · rw [if_neg closes]
                refine Eq.trans ?_ (if_neg closes).symm
                split <;> rename_i found <;> rw [found] <;> rfl
      · next none => split <;> simp only [*] <;> rfl

theorem skipClosed_cons (b : Bracket) (outer : List Bracket) (cs : List Char) :
    skipClosed (b :: outer) cs =
      match skipSpace cs with
      | [] => .error truncated
      | c :: rest =>
        if c = b.closing then skipClosed outer rest
        else if c = ',' then nextItem b rest >>= skipValue (b :: outer)
        else .error malformed := by
  rw [skipClosed]
  split
  · next empty => rw [empty]
  · next c rest solid =>
      rw [solid]
      simp only
      congr 2
      split <;> rename_i found <;> rw [found] <;> rfl

theorem ends_append (blank : Blank s) (ends : Ends rest) : Ends (s ++ rest) := by
  cases s with
  | nil => exact ends
  | cons c s =>
      rintro d ⟨⟩
      have space : isSpace c = true := blank c List.mem_cons_self
      simp only [isSpace, Bool.or_eq_true, beq_iff_eq] at space
      obtain ((rfl | rfl) | rfl) | rfl := space <;> decide

theorem ends_cons (other : c.isDigit = false ∧ c ≠ '.' ∧ c ≠ 'e' ∧ c ≠ 'E') (rest : List Char) :
    Ends (c :: rest) := by
  rintro d ⟨⟩
  exact other

theorem next_append {first : Bool} {s' more : List Char} :
    next first s s' more ++ rest = next first s s' (more ++ rest) := by
  simp only [next, List.append_assoc]

theorem Written.ends_items {vs : List Json} (later : Written (.items false vs) t) (ends : Ends rest) :
    Ends (t ++ rest) := by
  cases later with
  | noItems blank => exact ends_append blank ends
  | item blank =>
      rw [next_append]
      exact ends_append blank (ends_cons (by decide) _)

theorem Written.ends_members {ms : List Member} (later : Written (.members false ms) t)
    (ends : Ends rest) : Ends (t ++ rest) := by
  cases later with
  | noMembers blank => exact ends_append blank ends
  | member blank =>
      rw [next_append]
      exact ends_append blank (ends_cons (by decide) _)

theorem startsNumber_ne {d : Char} (other : startsNumber d = false) (starts : startsNumber c = true) :
    c ≠ d := by
  rintro rfl
  rw [starts] at other
  cases other

theorem startsNumber_solid (starts : startsNumber c = true) : isSpace c = false := by
  by_contra space
  simp only [isSpace, Bool.not_eq_false, Bool.or_eq_true, beq_iff_eq] at space
  obtain ((rfl | rfl) | rfl) | rfl := space <;> cases starts

theorem Json.Parted.of_ends (ends : Ends rest) : ∀ v : Json, v.Parted rest
  | .number _ => ends
  | .null | .flag _ | .string _ | .list _ | .record _ => trivial

theorem Written.exists_cons {v : Json} (w : Written (.value v) t) :
    ∃ c more, t = c :: more ∧ isSpace c = false ∧ c ≠ ']' ∧ c ≠ '\x7d' ∧
      (v.IsScalar → opening? c = none) := by
  cases w with
  | null => exact ⟨_, _, rfl, by decide, by decide, by decide, fun _ => rfl⟩
  | yes => exact ⟨_, _, rfl, by decide, by decide, by decide, fun _ => rfl⟩
  | no => exact ⟨_, _, rfl, by decide, by decide, by decide, fun _ => rfl⟩
  | string => exact ⟨_, _, rfl, by decide, by decide, by decide, fun _ => rfl⟩
  | list => exact ⟨_, _, rfl, by decide, by decide, by decide, False.elim⟩
  | record => exact ⟨_, _, rfl, by decide, by decide, by decide, False.elim⟩
  | number spelled =>
      obtain ⟨c, more, rfl, starts⟩ := spelled.exists_cons
      refine ⟨c, more, rfl, startsNumber_solid starts, startsNumber_ne rfl starts,
        startsNumber_ne rfl starts, fun _ => ?_⟩
      rw [opening?, if_neg (startsNumber_ne rfl starts), if_neg (startsNumber_ne rfl starts)]

theorem skipScalar_written {v : Json} (w : Written (.value v) t) (scalar : v.IsScalar)
    (parted : v.Parted rest) : skipScalar (t ++ rest) = .ok rest := by
  cases w with
  | null => exact spell_append ['u', 'l', 'l'] rest
  | yes => exact spell_append ['r', 'u', 'e'] rest
  | no => exact spell_append ['a', 'l', 's', 'e'] rest
  | string s =>
      obtain ⟨cs, read⟩ := quoted_lenient s rest
      have read : quoted false (s.text ++ ['\x22'] ++ rest) = .ok (cs, rest) := by simpa using read
      show (quoted false (s.text ++ ['\x22'] ++ rest)).map Prod.snd = _
      rw [read]
      rfl
  | number spelled =>
      have read : number malformed _ = _ := NumberText.number_append spelled parted
      obtain ⟨c, more, rfl, starts⟩ := spelled.exists_cons
      rw [List.cons_append] at read ⊢
      rw [skipScalar, if_neg (startsNumber_ne rfl starts), if_neg (startsNumber_ne rfl starts),
        if_neg (startsNumber_ne rfl starts), if_neg (startsNumber_ne rfl starts), if_pos starts, read]
      rfl
  | list => exact scalar.elim
  | record => exact scalar.elim

section Skip
variable {b : Bracket} {around outer : List Bracket} {d : Char} {more item : List Char}

theorem skipValue_append (blank : Blank s) (cs : List Char) :
    skipValue around (s ++ cs) = skipValue around cs := by
  rw [skipValue_eq, skipSpace_append blank, ← skipValue_eq]

theorem isSpace_closing : isSpace b.closing = false := by cases b <;> rfl

theorem opening?_solid (opens : opening? c = some b) : isSpace c = false := by
  rw [opening?] at opens
  split at opens
  · simp_all [isSpace]
  · split at opens
    · simp_all [isSpace]
    · cases opens

theorem skipValue_empty (opens : opening? c = some b) (blank : Blank s) :
    skipValue around (c :: (s ++ b.closing :: rest)) = skipClosed around rest := by
  rw [skipValue_eq, skipSpace_cons (opening?_solid opens)]
  simp only [opens]
  rw [skipSpace_append blank, skipSpace_cons isSpace_closing]
  exact if_pos rfl

theorem skipValue_first (opens : opening? c = some b) (blank : Blank s) (solid : isSpace d = false)
    (other : d ≠ b.closing) (found : nextItem b (d :: more) = .ok item) :
    skipValue around (c :: (s ++ d :: more)) = skipValue (b :: around) item := by
  rw [skipValue_eq, skipSpace_cons (opening?_solid opens)]
  simp only [opens]
  rw [skipSpace_append blank, skipSpace_cons solid]
  exact (if_neg other).trans (by rw [found]; rfl)

theorem skipClosed_close (blank : Blank s) :
    skipClosed (b :: outer) (s ++ b.closing :: rest) = skipClosed outer rest := by
  rw [skipClosed_cons, skipSpace_append blank, skipSpace_cons isSpace_closing]
  exact if_pos rfl

theorem skipClosed_comma (blank : Blank s) (found : nextItem b rest = .ok item) :
    skipClosed (b :: outer) (s ++ ',' :: rest) = skipValue (b :: outer) item := by
  have other : ',' ≠ b.closing := by cases b <;> decide
  rw [skipClosed_cons, skipSpace_append blank, skipSpace_cons (by decide)]
  exact (if_neg other).trans ((if_pos rfl).trans (by rw [found]; rfl))

theorem colon_append (blank : Blank s) (rest : List Char) : colon (s ++ ':' :: rest) = .ok rest := by
  rw [colon, skipSpace_append blank, skipSpace_cons (by decide)]
  exact if_pos rfl

theorem skipName_append (blank : Blank s) (n : Name) (rest : List Char) :
    skipName (n.inQuotes (s ++ ':' :: rest)) = .ok rest := by
  obtain ⟨cs, read⟩ := quoted_lenient n (s ++ ':' :: rest)
  have named : memberName false (n.inQuotes (s ++ ':' :: rest)) = .ok (cs, s ++ ':' :: rest) := by
    rw [memberName, Name.inQuotes, skipSpace_cons (by decide)]
    exact (if_pos rfl).trans read
  rw [skipName, named]
  exact colon_append blank rest

theorem skipName_blank (blank : Blank s) (cs : List Char) : skipName (s ++ cs) = skipName cs := by
  rw [skipName, memberName, skipSpace_append blank, ← memberName, ← skipName]

/-- What is passed over of a part: a value, or the items up to their bracket. -/
def Part.PassedOver : Part → List Char → Prop
  | .value v, t => ∀ around rest, v.Parted rest →
      skipValue around (t ++ rest) = skipClosed around rest
  | .items first _, t => ∀ around rest,
      (if first then skipValue around ('[' :: (t ++ ']' :: rest))
        else skipClosed (.list :: around) (t ++ ']' :: rest)) = skipClosed around rest
  | .members first _, t => ∀ around rest,
      (if first then skipValue around ('\x7b' :: (t ++ '\x7d' :: rest))
        else skipClosed (.record :: around) (t ++ '\x7d' :: rest)) = skipClosed around rest

theorem skipValue_scalar {v : Json} (w : Written (.value v) t) (scalar : v.IsScalar)
    (around : List Bracket) (parted : v.Parted rest) :
    skipValue around (t ++ rest) = skipClosed around rest := by
  have read := skipScalar_written w scalar parted
  obtain ⟨c, more, rfl, solid, -, -, opens⟩ := w.exists_cons
  rw [List.cons_append] at read ⊢
  rw [skipValue_eq, skipSpace_cons solid]
  simp only [opens scalar]
  rw [read]
  rfl

theorem passedOver {p : Part} (w : Written p t) : p.PassedOver t := by
  induction w with
  | null => exact fun around rest => skipValue_scalar .null trivial around
  | yes => exact fun around rest => skipValue_scalar .yes trivial around
  | no => exact fun around rest => skipValue_scalar .no trivial around
  | number spelled => exact fun around rest => skipValue_scalar (.number spelled) trivial around
  | string s => exact fun around rest => skipValue_scalar (.string s) trivial around
  | list _ ih =>
      intro around rest _
      rw [List.cons_append, List.append_assoc]
      exact ih around rest
  | record _ ih =>
      intro around rest _
      rw [List.cons_append, List.append_assoc]
      exact ih around rest
  | @noItems first s blank =>
      intro around rest
      cases first with
      | true => exact skipValue_empty (b := .list) rfl blank
      | false => exact skipClosed_close (b := .list) blank
  | @noMembers first s blank =>
      intro around rest
      cases first with
      | true => exact skipValue_empty (b := .record) rfl blank
      | false => exact skipClosed_close (b := .record) blank
  | @item first v vs s s' t more blank blank' value later ih ih' =>
      intro around rest
      have ends : Ends (more ++ ']' :: rest) := later.ends_items (ends_cons (by decide) rest)
      have passed : skipValue (.list :: around) (t ++ (more ++ ']' :: rest)) = skipClosed around rest :=
        (ih _ _ (.of_ends ends v)).trans (ih' around rest)
      rw [next_append, List.append_assoc]
      cases first with
      | true =>
          obtain ⟨c, t, rfl, solid, other, -⟩ := value.exists_cons
          refine Eq.trans ?_ passed
          show skipValue around ('[' :: (s ++ (s' ++ _))) = _
          rw [← List.append_assoc]
          exact skipValue_first rfl (blank.append blank') solid other rfl
      | false =>
          refine (skipClosed_comma blank rfl).trans ?_
          exact (skipValue_append blank' _).trans passed
  | @member first n v ms s s' s₁ s₂ t more blank blank' blank₁ blank₂ value later ih ih' =>
      intro around rest
      have ends : Ends (more ++ '\x7d' :: rest) := later.ends_members (ends_cons (by decide) rest)
      have passed : skipValue (.record :: around) (s₂ ++ (t ++ (more ++ '\x7d' :: rest))) =
          skipClosed around rest :=
        (skipValue_append blank₂ _).trans ((ih _ _ (.of_ends ends v)).trans (ih' around rest))
      have named : skipName (n.inQuotes (s₁ ++ ':' :: (s₂ ++ (t ++ (more ++ '\x7d' :: rest))))) =
          .ok (s₂ ++ (t ++ (more ++ '\x7d' :: rest))) := skipName_append blank₁ n _
      rw [next_append, Name.inQuotes_append]
      simp only [List.append_assoc, List.cons_append]
      cases first with
      | true =>
          refine Eq.trans ?_ passed
          show skipValue around ('\x7b' :: (s ++ (s' ++ _))) = _
          rw [← List.append_assoc]
          exact skipValue_first rfl (blank.append blank') rfl (by decide) named
      | false =>
          refine (skipClosed_comma blank ?_).trans passed
          exact (skipName_blank blank' _).trans named

end Skip

end HartMonitor.Document
