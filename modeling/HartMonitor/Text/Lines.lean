/-
# `HartMonitor.Text.Lines` — the lines of a byte stream

A stream of bytes is cut after every line feed; a last piece without one is a line
too if it is not empty.  Each line is decoded as UTF-8 by itself, so that a stream
with a bad line can be followed up to that line.
-/
import HartMonitor.Word

namespace HartMonitor.Text

/-- The bytes up to the first line feed, and what follows it. -/
def cutLine : List Byte → List Byte × List Byte
  | [] => ([], [])
  | b :: rest =>
    if b = 0x0a then ([], rest)
    else
      let (line, more) := cutLine rest
      (b :: line, more)

theorem length_cutLine_le (bytes : List Byte) : (cutLine bytes).2.length ≤ bytes.length := by
  induction bytes with
  | nil => simp [cutLine]
  | cons b rest ih =>
    by_cases h : b = 0x0a
    · simp [cutLine, h]
    · simp only [cutLine, h, if_false, List.length_cons]
      omega

theorem length_cutLine_lt (b : Byte) (rest : List Byte) :
    (cutLine (b :: rest)).2.length < (b :: rest).length := by
  have := length_cutLine_le rest
  by_cases h : b = 0x0a
  · simp [cutLine, h]
  · simp only [cutLine, h, if_false, List.length_cons]
    omega

/-- The lines of a stream, without their line feeds. -/
def byteLines : List Byte → List (List Byte)
  | [] => []
  | b :: rest => (cutLine (b :: rest)).1 :: byteLines (cutLine (b :: rest)).2
termination_by bytes => bytes.length
decreasing_by exact length_cutLine_lt b rest

/-- The text that some bytes spell in UTF-8; `none` where they spell none. -/
def decode? (bytes : List Byte) : Option String :=
  String.fromUTF8? ⟨(bytes.map UInt8.ofBitVec).toArray⟩

/-- The decoded lines of a stream; `none` stands for a line that is not UTF-8. -/
def lines (bytes : List Byte) : List (Option String) :=
  (byteLines bytes).map decode?

end HartMonitor.Text
