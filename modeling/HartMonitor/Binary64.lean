/-
# `HartMonitor.Binary64` — rounding to fifty-three significant bits

Ratios and whole numbers, rounded to the nearest value with a binary significand of
at most fifty-three bits, ties to the even one: double precision, in exact
arithmetic on natural numbers and away from the ends of its range.

    roundDiv            a quotient, rounded to the nearest whole number
    Dyadic.ofRatio      a ratio, as `mantissa / 2 ^ scale`
    roundWhole          a whole number
    exceedsRange        whether a whole number rounds past the largest finite value
-/

namespace HartMonitor.Binary64

/-- The whole number nearest to `num / den`; halfway between two, the even one. -/
def roundDiv (num den : Nat) : Nat :=
  let q := num / den
  let r := num % den
  if 2 * r < den then q
  else if den < 2 * r then q + 1
  else q + q % 2

/-- The number `mantissa / 2 ^ scale`. -/
structure Dyadic where
  mantissa : Nat
  scale : Nat
deriving DecidableEq, Repr

/-- The number with fifty-three significant bits nearest to `num / den`, for a ratio below
`2 ^ 52`. -/
def Dyadic.ofRatio (num den : Nat) : Dyadic :=
  let s := 52 + den.log2 - num.log2
  let scale := if den <<< 52 ≤ num <<< s then s else s + 1
  ⟨roundDiv (num <<< scale) den, scale⟩

def Dyadic.scaleBy (k : Nat) (d : Dyadic) : Dyadic :=
  .ofRatio (d.mantissa * k) (1 <<< d.scale)

def roundWhole (n : Nat) : Nat :=
  let unit := 1 <<< (n.log2 - 52)
  roundDiv n unit * unit

/-- Whether a whole number is at least halfway from the largest finite value, `2 ^ 1024 - 2 ^ 971`,
to `2 ^ 1024`. -/
def exceedsRange (n : Nat) : Bool :=
  (1 <<< 1024) - (1 <<< 970) ≤ n

end HartMonitor.Binary64
