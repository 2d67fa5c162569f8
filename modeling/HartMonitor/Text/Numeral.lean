/-
# `HartMonitor.Text.Numeral` — unsigned numerals of a bounded width

A numeral is a nonempty run of digits with at most one `+` in front of it; leading
zeros do not matter, a `-` is never accepted.  It is read in base ten or sixteen
and refused where its value does not fit the given width in bits.
-/

namespace HartMonitor.Text

/-- The value of a digit in base sixteen, either case. -/
def digitValue? (c : Char) : Option Nat :=
  if '0' ≤ c && c ≤ '9' then some (c.toNat - '0'.toNat)
  else if 'a' ≤ c && c ≤ 'f' then some (c.toNat - 'a'.toNat + 10)
  else if 'A' ≤ c && c ≤ 'F' then some (c.toNat - 'A'.toNat + 10)
  else none

/-- The value of a digit that exists in `base`, which is at most sixteen. -/
def digitBelow? (base : Nat) (c : Char) : Option Nat :=
  (digitValue? c).filter (· < base)

/-- The value of a run of digits, continuing the value `high` of the digits before it. -/
def digitsFrom? (base high : Nat) : List Char → Option Nat
  | [] => some high
  | c :: rest => (digitBelow? base c).bind fun d => digitsFrom? base (high * base + d) rest

/-- The digits of a numeral: what stands after an optional `+`. -/
def unsignedDigits : List Char → List Char
  | '+' :: rest => rest
  | cs => cs

/-- The value of a numeral in `base`, if it is below `2 ^ bits`. -/
def numeral? (base bits : Nat) (cs : List Char) : Option Nat :=
  match unsignedDigits cs with
  | [] => none
  | digits => (digitsFrom? base 0 digits).filter (· < 1 <<< bits)

end HartMonitor.Text
