/-
# `HartMonitor.Image` — what is loaded into memory before a run

An image is a list of segments, each a slice of bytes for an address, and possibly an
entry address.  Its segments are placed in order, so that a later one overwrites an
earlier one; placing stops at the first that does not fit, the ones before it staying.
-/
import HartMonitor.Memory

namespace HartMonitor

/-- Why an image is not loaded. -/
inductive ImageError where
  /-- A file that cannot be read. -/
  | unreadable (path : String)
  /-- A file that has the mark of an ELF file and is not a well-formed one. -/
  | malformedElf
  /-- A segment beyond the address space. -/
  | beyondAddressSpace (addr : Nat)
  /-- A segment that is not wholly in the window of memory. -/
  | doesNotFit (addr : Word) (len : Nat)
deriving DecidableEq, Repr

/-- The wording of a cause. -/
def ImageError.message : ImageError → String
  | unreadable path => "could not read '" ++ path ++ "'"
  | malformedElf => "invalid ELF image"
  | beyondAddressSpace addr =>
    "segment at " ++ Text.marked addr ++ " is outside the 32-bit address space"
  | doesNotFit addr len =>
    "image segment at " ++ Text.address addr ++ " (" ++ toString len
      ++ " bytes) does not fit in memory"

/-- Bytes for the addresses from `addr` on. -/
structure Segment where
  addr : Word
  data : List Byte
deriving DecidableEq, Repr

/-- Segments in the order in which they are placed, and where execution starts. -/
structure Image where
  segments : List Segment
  entry : Option Word
deriving DecidableEq, Repr

namespace Image

/-- The image of bytes without any structure: one segment, and no entry. -/
def raw (data : List Byte) (base : Word) : Image :=
  ⟨[⟨base, data⟩], none⟩

def ofWords (words : List Word) (base : Word) : Image :=
  raw (words.flatMap fun w => bytesOfWord w 4) base

/-- The program that is run where no image is given: it clears a byte behind its code, reads it into
`a0` and ends with that. -/
def builtinWords : List Word := [
  0x00000297,  -- auipc t0, 0
  0x00028823,  -- sb    $0, 16(t0)
  0x0102c503,  -- lbu   a0, 16(t0)
  0x00100073,  -- ebreak
  0xdeadbeef]

def builtin (base : Word) : Image :=
  ofWords builtinWords base

def size (image : Image) : Nat :=
  image.segments.foldr (fun s n => s.data.length + n) 0

/-- The memory with some segments placed in order, up to the first that does not fit, and whether
all of them did. -/
def placeSegments (m : Memory) : List Segment → Memory × Except ImageError Unit
  | [] => (m, .ok ())
  | s :: rest =>
    match m.load s.addr s.data with
    | .error _ => (m, .error (.doesNotFit s.addr s.data.length))
    | .ok m' => placeSegments m' rest

/-- The memory with an image placed, as far as it fits, and whether it did. -/
def place (image : Image) (m : Memory) : Memory × Except ImageError Unit :=
  placeSegments m image.segments

end Image

end HartMonitor
