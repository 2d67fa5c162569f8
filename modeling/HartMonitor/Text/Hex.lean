/-
# `HartMonitor.Text.Hex` — numbers in base sixteen

Lower-case digits, in the three shapes the monitor prints: bare (`hex`), padded
with zeros to a width (`hexPadded`), and with the `0x` mark in front (`marked`
for the shortest form, `address` for the eight digits of a word).
-/
import HartMonitor.Word

namespace HartMonitor.Text

/-- The lower-case base-sixteen digits of a number, without leading zeros; zero is one digit. -/
def hex (n : Nat) : String :=
  String.ofList (Nat.toDigits 16 n)

/-- `text` with copies of `c` in front of it, up to `width` characters. -/
def padLeft (width : Nat) (c : Char) (text : String) : String :=
  String.ofList (List.replicate (width - text.length) c) ++ text

def padRight (width : Nat) (text : String) : String :=
  text ++ String.ofList (List.replicate (width - text.length) ' ')

/-- Base-sixteen digits with zeros in front, at least `width` of them. -/
def hexPadded (width n : Nat) : String :=
  padLeft width '0' (hex n)

/-- The shortest base-sixteen form with its mark, as in `0x1f`. -/
def marked (n : Nat) : String :=
  "0x" ++ hex n

/-- A word as an address: the mark and eight digits, as in `0x80000000`. -/
def address (w : Word) : String :=
  "0x" ++ hexPadded 8 w.toNat

def byteHex (b : Byte) : String :=
  hexPadded 2 b.toNat

end HartMonitor.Text
