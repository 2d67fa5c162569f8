/-
# `HartMonitor.Shell.Dump` — bytes in rows of sixteen

A dump is a header with the columns, then a row for every sixteen bytes: the address
of its first byte in base sixteen, and the bytes, two digits each.
-/
import HartMonitor.Text.Hex

namespace HartMonitor.Dump

open Text

def rowBytes : Nat := 16

/-- The bytes cut into rows; the last one may be shorter. -/
def rows (bytes : List Byte) : List (List Byte) :=
  match bytes with
  | [] => []
  | b :: rest => (b :: rest).take rowBytes :: rows ((b :: rest).drop rowBytes)
termination_by bytes.length
decreasing_by simp only [rowBytes, List.length_drop, List.length_cons]; omega

theorem flatten_rows (bytes : List Byte) : (rows bytes).flatten = bytes := by
  fun_induction rows bytes with
  | case1 => rfl
  | case2 b rest ih => rw [List.flatten_cons, ih, List.take_append_drop]

def header : String :=
  "XXXXXXXX" ++ String.join ((List.range rowBytes).map fun i => " " ++ hexPadded 2 i)

/-- A row of bytes and the address of its first one. -/
def row (addr : Nat) (bytes : List Byte) : String :=
  hex addr ++ String.join (bytes.map fun b => " " ++ byteHex b)

/-- The lines of a dump of the bytes from an address on. -/
def lines (addr : Nat) (bytes : List Byte) : List String :=
  header :: (rows bytes).zipIdx.map fun (bytes, i) => row (addr + i * rowBytes) bytes

/-- A dump of the bytes from an address on, its lines apart by line feeds. -/
def render (addr : Nat) (bytes : List Byte) : String :=
  "\n".intercalate (lines addr bytes)

end HartMonitor.Dump
