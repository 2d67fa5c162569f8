/-
# `HartMonitor.Text.Percent` — a share, in hundredths of a percent

A share is computed in double precision — the ratio is rounded, then a hundred times
that is rounded — and printed with two decimals, a half going to the even neighbour.
-/
import HartMonitor.Binary64
import HartMonitor.Text.Hex

namespace HartMonitor.Text

open Binary64

/-- The share of `part` in `whole`, in hundredths of a percent. -/
def hundredths (part whole : Nat) : Nat :=
  let percentage := (Dyadic.ofRatio part whole).scaleBy 100
  roundDiv (percentage.mantissa * 100) (1 <<< percentage.scale)

/-- The share of `part` in `whole` with two decimals, as in `33.33%`. -/
def percent (part whole : Nat) : String :=
  let h := hundredths part whole
  toString (h / 100) ++ "." ++ padLeft 2 '0' (toString (h % 100)) ++ "%"

end HartMonitor.Text
