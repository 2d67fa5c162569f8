/-
# `HartMonitor.Proofs.Image.Layout` — program headers laid out in a file

What a well-formed ELF file is, told without a reader: which bytes have to be there, and which
numbers they spell.  A number stands in the header of the file, or, where it does not fit there,
in section header zero, and the header has a value that refers to it:

    the number of …       in the header, at    refers if it is    in section zero, at
    program headers       44                   0xffff             28
    section headers       48                   0                  20
    the section names     50                   0xffff             24

`spells_iff` connects the numbers that are spelled with those that the loader reads, which takes
zeros for what is missing.  Nothing is said of the symbol tables and the sections of relocations,
which are taken as well formed (`LaidOut`).
-/
import HartMonitor.Image.Elf
import HartMonitor.Proofs.Memory.ByteArray

namespace HartMonitor.Elf

/-- The `len` bytes of a file from an offset on are there, and spell a number. -/
def Spells (file : List Byte) (offset len x : Nat) : Prop :=
  littleEndian? (fun i => (file[i]?).map BitVec.toNat) offset len = some x

instance {file : List Byte} {offset len x : Nat} : Decidable (Spells file offset len x) :=
  inferInstanceAs (Decidable (_ = _))

/-- A table lies inside a file, at a multiple of four. -/
def InFile (file : List Byte) (offset count size : Nat) : Prop :=
  4 ∣ offset ∧ offset + count * size ≤ file.length

instance {file : List Byte} {offset count size : Nat} : Decidable (InFile file offset count size) :=
  inferInstanceAs (Decidable (_ ∧ _))

/-- What the header of a file says of its entry and its tables. -/
structure Header where
  entry : Word
  programTable : Nat
  programSize : Nat
  programCount : Nat
  sectionTable : Nat
  sectionSize : Nat
  sectionCount : Nat
  sectionNames : Nat

namespace Header

/-- A file starts with a header. -/
structure Stands (h : Header) (file : List Byte) : Prop where
  mark : magic <+: file
  /-- Thirty-two bits, little-endian, version one. -/
  kind : Spells file 4 1 1 ∧ Spells file 5 1 1 ∧ Spells file 6 1 1
  whole : headerSize ≤ file.length
  entry : Spells file 24 4 h.entry.toNat
  programTable : Spells file 28 4 h.programTable
  sectionTable : Spells file 32 4 h.sectionTable
  programSize : Spells file 42 2 h.programSize
  programCount : Spells file 44 2 h.programCount
  sectionSize : Spells file 46 2 h.sectionSize
  sectionCount : Spells file 48 2 h.sectionCount
  sectionNames : Spells file 50 2 h.sectionNames

/-- Section header zero is there. -/
structure SectionZero (h : Header) (file : List Byte) : Prop where
  table : h.sectionTable ≠ 0
  size : h.sectionSize = 40
  inside : InFile file h.sectionTable 1 40

/-- A number that the header has itself, or that it refers to section header zero for. -/
def Extended (h : Header) (file : List Byte) (own referral field x : Nat) : Prop :=
  (own ≠ referral ∧ x = own) ∨
    (own = referral ∧ h.SectionZero file ∧ Spells file (h.sectionTable + field) 4 x)

end Header

/-- What a program header says of the bytes that it is about. -/
structure ProgramHeader where
  kind : Word
  offset : Word
  addr : Word
  fileSize : Word

namespace ProgramHeader

/-- A program header is at a place in a file. -/
structure Stands (p : ProgramHeader) (file : List Byte) (place : Nat) : Prop where
  kind : Spells file place 4 p.kind.toNat
  offset : Spells file (place + 4) 4 p.offset.toNat
  addr : Spells file (place + 8) 4 p.addr.toNat
  fileSize : Spells file (place + 16) 4 p.fileSize.toNat

/-- The bytes of a program header are in the file. -/
def Inside (p : ProgramHeader) (file : List Byte) : Prop :=
  p.offset.toNat + p.fileSize.toNat ≤ file.length

instance {p : ProgramHeader} {file : List Byte} : Decidable (p.Inside file) :=
  inferInstanceAs (Decidable (_ ≤ _))

/-- It is loaded, and has bytes. -/
def IsLoaded (p : ProgramHeader) : Prop := p.kind = 1 ∧ p.fileSize ≠ 0

instance (p : ProgramHeader) : Decidable p.IsLoaded := inferInstanceAs (Decidable (_ ∧ _))

def segment (p : ProgramHeader) (file : List Byte) : Segment :=
  ⟨p.addr, file.extract p.offset.toNat (p.offset.toNat + p.fileSize.toNat)⟩

end ProgramHeader

/-- A file starts with a header, and has some program headers where that says they are. -/
structure LaidOut (file : List Byte) (h : Header) (programs : List ProgramHeader) : Prop where
  header : h.Stands file
  noTable : h.programTable = 0 → programs = []
  table : h.programTable ≠ 0 →
    h.Extended file h.programCount 0xffff 28 programs.length ∧
      (programs ≠ [] → h.programSize = 32 ∧ InFile file h.programTable programs.length 32 ∧
        ∀ (i : Nat) (hi : i < programs.length),
          programs[i].Stands file (h.programTable + i * 32))
  /-- So are its section headers, one of which is for the names. -/
  sections : h.sectionTable ≠ 0 → ∃ count, h.Extended file h.sectionCount 0 20 count ∧
    (count ≠ 0 → h.sectionSize = 40 ∧ InFile file h.sectionTable count 40 ∧
      ∃ names, h.Extended file h.sectionNames 0xffff 24 names ∧ 0 < names ∧ names < count)
  /-- The bytes of what is loaded are in the file, where there are none too. -/
  inside : ∀ p ∈ programs, p.kind = 1 → p.Inside file

/-- The segments of the program headers that are loaded, in their order. -/
def loaded (file : List Byte) (programs : List ProgramHeader) : List Segment :=
  (programs.filter (·.IsLoaded)).map (·.segment file)

/-! ## Numbers that are read -/

variable {file : List Byte} {offset len x y : Nat}

theorem numberAt_succ (inside : offset < file.length) :
    numberAt file offset (len + 1) = file[offset].toNat + 256 * numberAt file (offset + 1) len := by
  rw [numberAt, List.drop_eq_getElem_cons inside, List.take_succ_cons, List.foldr_cons, numberAt,
    Nat.add_comm]

theorem numberAt_lt (file : List Byte) (offset len : Nat) :
    numberAt file offset len < 256 ^ len := by
  induction len generalizing offset with
  | zero => simp [numberAt]
  | succ len ih =>
      by_cases inside : offset < file.length
      · have low := file[offset].isLt
        have high := ih (offset + 1)
        rw [numberAt_succ inside, Nat.pow_succ]
        omega
      · rw [numberAt, List.drop_eq_nil_of_le (by omega), List.take_nil, List.foldr_nil]
        exact Nat.pow_pos (by decide)

/-- Where they are there, bytes spell the number that is read in their place. -/
theorem spells_iff (inside : offset + len ≤ file.length) :
    Spells file offset len x ↔ numberAt file offset len = x := by
  rw [Spells]
  induction len generalizing offset x with
  | zero => simp [littleEndian?, numberAt]
  | succ len ih =>
      have here : offset < file.length := by omega
      have high : littleEndian? (fun i => (file[i]?).map BitVec.toNat) (offset + 1) len =
          some (numberAt file (offset + 1) len) := (ih (by omega)).mpr rfl
      rw [littleEndian?, List.getElem?_eq_getElem here, numberAt_succ here]
      simp [high]

end HartMonitor.Elf
