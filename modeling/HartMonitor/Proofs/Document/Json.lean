/-
# `HartMonitor.Proofs.Document.Json` — JSON values and their texts

What a JSON text is, told without a reader: a value is a tree, and `Written` relates it to all of
its texts.  These differ in the blanks between the pieces, in how a character of a string is given,
and in the mark and the sign of an exponent.

The elements of a list, and the members of a record, are written from one on: each has a comma in
front of it unless it is the first, and blanks may stand on both sides of the comma.  The blanks
behind the last one belong to them too.

    { "a" : 1 , "b" : [ ] }
     └ members true [a, b] ┘        └ members false [b] ┘   from the blank in front of the comma on
-/
import HartMonitor.Document.Lexeme

namespace HartMonitor.Document

/-! ## Strings -/

/-- A piece of a string between its quotes. -/
inductive Piece where
  /-- A character that stands for itself. -/
  | plain (c : Char) (clear : c ≠ '\x22' ∧ c ≠ '\x5c' ∧ 0x20 ≤ c.toNat)
  /-- An escape of one letter. -/
  | short (letter c : Char) (known : shortEscape? letter = some c)
  /-- An escape by number. -/
  | code (a b c d : Char) (n : Nat) (spelled : hexQuad? a b c d = some n)

def Piece.text : Piece → List Char
  | plain c _ => [c]
  | short letter _ _ => ['\x5c', letter]
  | code a b c d _ _ => ['\x5c', 'u', a, b, c, d]

/-- A string as it is written. -/
abbrev Name := List Piece

namespace Name

def text (s : Name) : List Char := s.flatMap Piece.text

/-- The characters that a string stands for; none where it has half of a surrogate pair. -/
def decode? : Name → Option (List Char)
  | [] => some []
  | .plain c _ :: more => (decode? more).map (c :: ·)
  | .short _ c _ :: more => (decode? more).map (c :: ·)
  | .code _ _ _ _ n _ :: more =>
    if isTrailing n then none
    else if isLeading n then
      match more with
      | .code _ _ _ _ m _ :: more =>
        if isTrailing m then (decode? more).map (pairChar n m :: ·) else none
      | _ => none
    else (decode? more).map (Char.ofNat n :: ·)

def ofClear (cs : List Char)
    (clear : cs.all (fun c => c ≠ '\x22' && c ≠ '\x5c' && 0x20 ≤ c.toNat) = true) : Name :=
  cs.pmap Piece.plain fun c hc => by simpa [and_assoc] using List.all_eq_true.mp clear c hc

def inQuotes (s : Name) (rest : List Char) : List Char := '\x22' :: (s.text ++ '\x22' :: rest)

end Name

/-! ## Numbers -/

namespace NumberText

/-- A nonempty run of digits. -/
def IsDigits (ds : List Char) : Prop := ds ≠ [] ∧ ∀ c ∈ ds, c.isDigit = true

/-- The texts of a fraction. -/
inductive Fraction : Option (List Char) → List Char → Prop
  | absent : Fraction none []
  | present {ds : List Char} (digits : IsDigits ds) : Fraction (some ds) ('.' :: ds)

/-- The texts of an exponent. -/
inductive Exponent : Option (Bool × List Char) → List Char → Prop
  | absent : Exponent none []
  | present {mark : Char} {sign ds : List Char} {negative : Bool} (marked : mark = 'e' ∨ mark = 'E')
      (signed : sign = ['-'] ∧ negative = true ∨ (sign = ['+'] ∨ sign = []) ∧ negative = false)
      (digits : IsDigits ds) : Exponent (some (negative, ds)) (mark :: (sign ++ ds))

/-- The texts of a number.  The digits in front of the point have no superfluous zero. -/
inductive Spelled : NumberText → List Char → Prop
  | mk {negative : Bool} {whole fractionText exponentText : List Char}
      {fraction : Option (List Char)} {exponent : Option (Bool × List Char)}
      (digits : IsDigits whole) (plain : whole.head? = some '0' → whole.length ≤ 1)
      (atPoint : Fraction fraction fractionText) (atMark : Exponent exponent exponentText) :
      Spelled ⟨negative, whole, fraction, exponent⟩
        ((if negative then ['-'] else []) ++ (whole ++ (fractionText ++ exponentText)))

end NumberText

/-! ## Values -/

/-- A JSON value, its numbers and strings as they are written. -/
inductive Json where
  | null
  | flag (b : Bool)
  | number (n : NumberText)
  | string (s : Name)
  | list (items : List Json)
  | record (members : List (Name × Json))

def Json.IsScalar : Json → Prop
  | list _ => False
  | record _ => False
  | _ => True

/-- A member of a record. -/
abbrev Member := Name × Json

/-- Only blanks. -/
def Blank (s : List Char) : Prop := ∀ c ∈ s, isSpace c = true

instance (s : List Char) : Decidable (Blank s) :=
  decidable_of_iff (s.all isSpace = true) List.all_eq_true

theorem Blank.nil : Blank [] := fun _ hc => absurd hc List.not_mem_nil

/-- The comma in front of an item, which the first one does not have. -/
def comma (first : Bool) : List Char := if first then [] else [',']

/-- What follows an item: blanks, the comma, blanks, and the text of the next one. -/
def next (first : Bool) (s s' rest : List Char) : List Char := s ++ (comma first ++ (s' ++ rest))

/-- A part of a text: a value, or what is left of the items between two brackets. -/
inductive Part where
  | value (v : Json)
  | items (first : Bool) (vs : List Json)
  | members (first : Bool) (ms : List Member)

/-- The texts of a part. -/
inductive Written : Part → List Char → Prop
  | null : Written (.value .null) ['n', 'u', 'l', 'l']
  | yes : Written (.value (.flag true)) ['t', 'r', 'u', 'e']
  | no : Written (.value (.flag false)) ['f', 'a', 'l', 's', 'e']
  | number {n : NumberText} {t : List Char} (spelled : n.Spelled t) : Written (.value (.number n)) t
  | string (s : Name) : Written (.value (.string s)) (s.inQuotes [])
  | list {vs : List Json} {t : List Char} (items : Written (.items true vs) t) :
      Written (.value (.list vs)) ('[' :: (t ++ [']']))
  | record {ms : List Member} {t : List Char} (members : Written (.members true ms) t) :
      Written (.value (.record ms)) ('\x7b' :: (t ++ ['\x7d']))
  | noItems {first : Bool} {s : List Char} (blank : Blank s) : Written (.items first []) s
  | item {first : Bool} {v : Json} {vs : List Json} {s s' t more : List Char} (blank : Blank s)
      (blank' : Blank s') (value : Written (.value v) t) (later : Written (.items false vs) more) :
      Written (.items first (v :: vs)) (next first s s' (t ++ more))
  | noMembers {first : Bool} {s : List Char} (blank : Blank s) : Written (.members first []) s
  | member {first : Bool} {n : Name} {v : Json} {ms : List Member} {s s' s₁ s₂ t more : List Char}
      (blank : Blank s) (blank' : Blank s') (blank₁ : Blank s₁) (blank₂ : Blank s₂)
      (value : Written (.value v) t) (later : Written (.members false ms) more) :
      Written (.members first ((n, v) :: ms))
        (next first s s' (n.inQuotes (s₁ ++ ':' :: (s₂ ++ (t ++ more)))))

/-- What follows does not go on with a number. -/
def Ends (rest : List Char) : Prop :=
  ∀ c ∈ rest.head?, c.isDigit = false ∧ c ≠ '.' ∧ c ≠ 'e' ∧ c ≠ 'E'

def Json.Parted : Json → List Char → Prop
  | .number _, rest => Ends rest
  | _, _ => True

end HartMonitor.Document
