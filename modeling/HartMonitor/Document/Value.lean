/-
# `HartMonitor.Document.Value` — typed values out of a JSON text

A value reader takes one value off the head of a text, blanks before it included, and
always takes something.  Here are the readers of a truth value and of a natural number
of a bounded width.  A value of another type is read far enough to see whether it is
well-formed, except that a list or a record in the place of something else is refused
at its bracket.
-/
import HartMonitor.Document.Lexeme

namespace HartMonitor.Document

open DocumentError

/-- A way to take a value off the head of a text. -/
structure ValueReader (α : Type) where
  read : List Char → Except DocumentError (α × List Char)
  shorter : ∀ {cs a rest}, read cs = .ok (a, rest) → rest.length < cs.length

def startsNumber (c : Char) : Bool := c == '-' || c.isDigit

/-- A number that double precision can hold, and what follows it. -/
def finiteNumber (cs : List Char) : Except DocumentError (NumberText × List Char) :=
  match number truncated cs with
  | .error e => .error e
  | .ok (n, rest) => if n.isTooLarge then .error malformed else .ok (n, rest)

theorem length_finiteNumber_lt {cs rest : List Char} {n : NumberText}
    (h : finiteNumber cs = .ok (n, rest)) : rest.length < cs.length := by
  unfold finiteNumber at h
  split at h
  · cases h
  · next hx =>
    split at h
    · cases h
    · cases h
      exact length_number_lt hx

/-- What is wrong with a value of another type than the expected one: nothing but that, where it
reads well. -/
def otherType : List Char → DocumentError
  | [] => truncated
  | c :: rest =>
    let scalar {β : Type} : Except DocumentError β → DocumentError
      | .error e => e
      | .ok _ => mismatch
    if c = 'n' then scalar (spell ['u', 'l', 'l'] rest)
    else if c = 't' then scalar (spell ['r', 'u', 'e'] rest)
    else if c = 'f' then scalar (spell ['a', 'l', 's', 'e'] rest)
    else if c = '\x22' then scalar (quoted true rest)
    else if startsNumber c then scalar (finiteNumber (c :: rest))
    else if c = '[' || c = '\x7b' then mismatch
    else malformed

/-! ## Scalars -/

/-- A truth value at the head of a text. -/
def readFlag (cs : List Char) : Except DocumentError (Bool × List Char) :=
  match skipSpace cs with
  | 't' :: rest => (spell ['r', 'u', 'e'] rest).map fun rest => (true, rest)
  | 'f' :: rest => (spell ['a', 'l', 's', 'e'] rest).map fun rest => (false, rest)
  | other => .error (otherType other)

theorem length_readFlag_lt {cs rest : List Char} {b : Bool} (h : readFlag cs = .ok (b, rest)) :
    rest.length < cs.length := by
  have hs := length_skipSpace_le cs
  unfold readFlag at h
  split at h
  all_goals
    first
    | cases h
    | next hx =>
      rw [hx] at hs
      simp only [Except.map] at h
      split at h
      · cases h
      · next hy =>
        cases h
        have := length_spell_le hy
        simp only [List.length_cons] at hs
        omega

def flag : ValueReader Bool := ⟨readFlag, length_readFlag_lt⟩

/-- A natural number below `2 ^ bits` at the head of a text. -/
def readNatural (bits : Nat) (cs : List Char) : Except DocumentError (Nat × List Char) :=
  match skipSpace cs with
  | [] => .error truncated
  | c :: rest =>
    if startsNumber c then
      match finiteNumber (c :: rest) with
      | .error e => .error e
      | .ok (n, rest) =>
        match n.natural?.filter (· < 1 <<< bits) with
        | some value => .ok (value, rest)
        | none => .error mismatch
    else .error (otherType (c :: rest))

theorem length_readNatural_lt {bits : Nat} {cs rest : List Char} {n : Nat}
    (h : readNatural bits cs = .ok (n, rest)) : rest.length < cs.length := by
  have hs := length_skipSpace_le cs
  unfold readNatural at h
  split at h
  · cases h
  · next hx =>
    rw [hx] at hs
    split at h
    · split at h
      · cases h
      · next hy =>
        have := length_finiteNumber_lt hy
        split at h
        · cases h
          omega
        · cases h
    · cases h

/-- A natural number below `2 ^ bits`, written without sign, point and exponent. -/
def natural (bits : Nat) : ValueReader Nat := ⟨readNatural bits, length_readNatural_lt⟩

end HartMonitor.Document
