/-
# `HartMonitor.Image.Elf` — images from ELF files

Of a 32-bit little-endian ELF file the loader takes the program headers of type
`load`, in order, and the entry address.

    offset  field                       offset  field
    4       class, must be 1            28      program header table
    5       byte order, must be 1       32      section header table
    6       version, must be 1          42, 44  program header size and count
    24      entry                       46, 48  section header size and count
                                        50      index of the section names

    program header: 0 type, 4 file offset, 8 address, 16 size in the file
    section header: 20 size, 24 link, 28 info

Section zero holds the numbers that do not fit the header: the count of program
headers in its info field and the index of the section names in its link field where
the header has `0xffff`, the count of sections in its size field where the header has
zero.  The tables have to lie inside the file, at
multiples of four; so has the range of every loaded header, empty or not.  A file
without the mark of the format is an image without structure.

Of the sections only the numbers in section zero are read here.  A reader of object files
also reads the symbol tables, with their strings, and the sections of relocations, and it
refuses a file where one of these is broken; they are left out, and taken as well formed.
-/
import HartMonitor.Image

namespace HartMonitor.Elf

def magic : List Byte := [0x7f, 0x45, 0x4c, 0x46]

def headerSize : Nat := 52

def programHeaderSize : Nat := 32

def sectionHeaderSize : Nat := 40

def loadType : Nat := 1

def countInSectionZero : Nat := 0xffff

/-- The index of the section names in the header that refers to section zero. -/
def indexInSectionZero : Nat := 0xffff

/-- The little-endian number of the `n` bytes at an offset, what is missing counting as zero. -/
def numberAt (file : List Byte) (offset n : Nat) : Nat :=
  ((file.drop offset).take n).foldr (fun b high => 256 * high + b.toNat) 0

def half (file : List Byte) (offset : Nat) : Nat := numberAt file offset 2

def word (file : List Byte) (offset : Nat) : Nat := numberAt file offset 4

/-- The condition that a file has to meet to be read on. -/
def require (condition : Bool) : Except ImageError Unit :=
  if condition then .ok () else .error .malformedElf

/-- Whether a table of `count` entries lies inside a file, at a multiple of four. -/
def tableFits (file : List Byte) (offset count entrySize : Nat) : Bool :=
  offset % 4 == 0 && offset + count * entrySize ≤ file.length

/-- The offset of section header zero. -/
def sectionZero (file : List Byte) : Except ImageError Nat := do
  let offset := word file 32
  require (offset != 0 && half file 46 == sectionHeaderSize)
  require (tableFits file offset 1 sectionHeaderSize)
  return offset

/-- The number at an offset of the header, or the one in a field of section header zero where the
header has `referral`. -/
def extended (file : List Byte) (offset referral field : Nat) : Except ImageError Nat :=
  if half file offset = referral then do
    let header ← sectionZero file
    return word file (header + field)
  else return half file offset

/-- The offsets of the program headers. -/
def programHeaders (file : List Byte) : Except ImageError (List Nat) := do
  let offset := word file 28
  if offset = 0 then return []
  let count ← extended file 44 countInSectionZero 28
  if count = 0 then return []
  require (half file 42 == programHeaderSize)
  require (tableFits file offset count programHeaderSize)
  return (List.range count).map fun i => offset + i * programHeaderSize

/-- The checks on the section headers, which hold nothing that is loaded. -/
def checkSections (file : List Byte) : Except ImageError Unit := do
  let offset := word file 32
  if offset = 0 then return ()
  let count ← extended file 48 0 20
  if count = 0 then return ()
  require (half file 46 == sectionHeaderSize)
  require (tableFits file offset count sectionHeaderSize)
  let names ← extended file 50 indexInSectionZero 24
  require (names != 0 && names < count)

def address (n : Nat) : Except ImageError Word :=
  if n < 1 <<< 32 then .ok (BitVec.ofNat 32 n) else .error (.beyondAddressSpace n)

/-- The segment of the program header at an offset; `none` for one that is not loaded or has no
bytes. -/
def segment? (file : List Byte) (header : Nat) : Except ImageError (Option Segment) := do
  if word file header ≠ loadType then return none
  let offset := word file (header + 4)
  let size := word file (header + 16)
  require (offset + size ≤ file.length)
  if size = 0 then return none
  let addr ← address (word file (header + 8))
  return some ⟨addr, (file.drop offset).take size⟩

/-- The image of an ELF file. -/
def image (file : List Byte) : Except ImageError Image := do
  require (headerSize ≤ file.length)
  require (numberAt file 4 3 == 0x010101)
  let headers ← programHeaders file
  checkSections file
  let segments ← headers.mapM (segment? file)
  let entry ← address (word file 24)
  return ⟨segments.filterMap id, some entry⟩

end HartMonitor.Elf

namespace HartMonitor.Image

/-- The image of a file: what its headers say where it has the mark of an ELF file, and its bytes at
`base` otherwise. -/
def ofFile (file : List Byte) (base : Word) : Except ImageError Image :=
  if Elf.magic.isPrefixOf file then Elf.image file else .ok (raw file base)

end HartMonitor.Image
