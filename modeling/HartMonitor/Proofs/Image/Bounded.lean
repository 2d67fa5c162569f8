/-
# `HartMonitor.Proofs.Image.Bounded` — the loader reads nothing outside of its file

A number that the loader reads has zeros for the bytes that are missing, and a slice is shorter
where the file ends.  Here the loader is written with reads that have no result unless all of
their bytes are in the file.  It has one on every file, and the same (`image_eq`): each read comes
after the check that covers it.

    read                            covered by
    the header                      the size of the header
    a field of section zero         its table of one entry
    a program header                the table of them all
    the bytes of a segment          its range

`loading_exact` puts this together with what the loader accepts.
-/
import HartMonitor.Proofs.Image.Elf

namespace HartMonitor.Elf

/-- A reading of a file, which has no result where it reads outside of it. -/
abbrev Bounded (α : Type) := ExceptT ImageError Option α

namespace Bounded

def inside {α : Type} (r : Except ImageError α) : Bounded α := ExceptT.mk (some r)

/-! ## The loader, every read inside the file -/

section Loader
variable (file : List Byte)

def number (offset len : Nat) : Bounded Nat :=
  ExceptT.mk ((littleEndian? (fun i => (file[i]?).map BitVec.toNat) offset len).map .ok)

def slice (offset len : Nat) : Bounded (List Byte) :=
  ExceptT.mk (((List.range' offset len).mapM (file[·]?)).map .ok)

/-- The offset of section header zero. -/
def sectionZero : Bounded Nat := do
  let offset ← number file 32 4
  let size ← number file 46 2
  inside (require (offset != 0 && size == sectionHeaderSize))
  inside (require (tableFits file offset 1 sectionHeaderSize))
  return offset

/-- A number of the header, or of section header zero. -/
def extended (offset referral field : Nat) : Bounded Nat := do
  let own ← number file offset 2
  if own = referral then do
    let header ← sectionZero file
    number file (header + field) 4
  else return own

/-- The offsets of the program headers. -/
def programHeaders : Bounded (List Nat) := do
  let offset ← number file 28 4
  if offset = 0 then return []
  let count ← extended file 44 countInSectionZero 28
  if count = 0 then return []
  let size ← number file 42 2
  inside (require (size == programHeaderSize))
  inside (require (tableFits file offset count programHeaderSize))
  return (List.range count).map fun i => offset + i * programHeaderSize

/-- The checks on the section headers. -/
def checkSections : Bounded Unit := do
  let offset ← number file 32 4
  if offset = 0 then return ()
  let count ← extended file 48 0 20
  if count = 0 then return ()
  let size ← number file 46 2
  inside (require (size == sectionHeaderSize))
  inside (require (tableFits file offset count sectionHeaderSize))
  let names ← extended file 50 indexInSectionZero 24
  inside (require (names != 0 && names < count))

/-- The segment of the program header at an offset. -/
def segment? (header : Nat) : Bounded (Option Segment) := do
  let kind ← number file header 4
  if kind ≠ loadType then return none
  let offset ← number file (header + 4) 4
  let size ← number file (header + 16) 4
  inside (require (offset + size ≤ file.length))
  if size = 0 then return none
  let place ← number file (header + 8) 4
  let addr ← inside (address place)
  let data ← slice file offset size
  return some ⟨addr, data⟩

/-- The image of an ELF file. -/
def image : Bounded Image := do
  inside (require (headerSize ≤ file.length))
  let kind ← number file 4 3
  inside (require (kind == 0x010101))
  let headers ← programHeaders file
  checkSections file
  let segments ← headers.mapM (segment? file)
  let start ← number file 24 4
  let entry ← inside (address start)
  return ⟨segments.filterMap id, some entry⟩

end Loader

/-! ## It never leaves the file -/

section Sequence
variable {α β : Type} {x : Bounded α} {f : α → Bounded β} {r : Except ImageError α}
  {g : α → Except ImageError β}

theorem bind_eq_inside (hx : x = inside r) (hf : ∀ a, r = .ok a → f a = inside (g a)) :
    x >>= f = inside (r >>= g) := by
  subst hx
  cases r with
  | error e => rfl
  | ok a => exact hf a rfl

theorem mapM_eq_inside {f : α → Bounded β} {xs : List α} (each : ∀ a ∈ xs, f a = inside (g a)) :
    xs.mapM f = inside (xs.mapM g) := by
  induction xs with
  | nil => rfl
  | cons a rest ih =>
      have first : f a = inside (g a) := each a List.mem_cons_self
      have later := ih fun b hb => each b (List.mem_cons_of_mem a hb)
      rw [List.mapM_cons, List.mapM_cons]
      exact bind_eq_inside first fun _ _ => bind_eq_inside later fun _ _ => rfl

end Sequence

variable {file : List Byte}

theorem number_eq {offset len : Nat} (there : offset + len ≤ file.length) :
    number file offset len = inside (.ok (numberAt file offset len)) := by
  have spelled : Spells file offset len (numberAt file offset len) := (spells_iff there).mpr rfl
  rw [Spells] at spelled
  rw [number, spelled]
  rfl

theorem header_number_eq (whole : headerSize ≤ file.length) {offset len : Nat}
    (small : offset + len ≤ headerSize) :
    number file offset len = inside (.ok (numberAt file offset len)) :=
  number_eq (Nat.le_trans small whole)

theorem slice_eq {offset len : Nat} (there : offset + len ≤ file.length) :
    slice file offset len = inside (.ok ((file.drop offset).take len)) := by
  have read : ∀ len offset, offset + len ≤ file.length →
      (List.range' offset len).mapM (file[·]?) = some ((file.drop offset).take len) := by
    intro len
    induction len with
    | zero => intros; rfl
    | succ len ih =>
        intro offset there
        have here : offset < file.length := by omega
        rw [List.range'_succ, List.mapM_cons, List.getElem?_eq_getElem here,
          List.drop_eq_getElem_cons here, List.take_succ_cons, ih (offset + 1) (by omega)]
        rfl
  rw [slice, read len offset there]
  rfl

theorem sectionZero_eq (whole : headerSize ≤ file.length) :
    sectionZero file = inside (Elf.sectionZero file) := by
  rw [sectionZero, header_number_eq whole (by decide), header_number_eq whole (by decide)]
  exact bind_eq_inside rfl fun _ _ => bind_eq_inside rfl fun _ _ => rfl

theorem extended_eq (whole : headerSize ≤ file.length) {offset referral field : Nat}
    (own : offset + 2 ≤ headerSize) (small : field + 4 ≤ sectionHeaderSize) :
    extended file offset referral field = inside (Elf.extended file offset referral field) := by
  rw [extended, header_number_eq whole own]
  show (if half file offset = referral then _ else _) = _
  rw [Elf.extended]
  by_cases refers : half file offset = referral
  · rw [if_pos refers, if_pos refers]
    refine bind_eq_inside (sectionZero_eq whole) fun header found => ?_
    obtain ⟨zero, rfl⟩ := sectionZero_eq_ok.mp found
    have := zero.inside.2
    exact number_eq (by rw [sectionHeaderSize] at small; omega)
  · rw [if_neg refers, if_neg refers]
    rfl

theorem programHeaders_eq (whole : headerSize ≤ file.length) :
    programHeaders file = inside (Elf.programHeaders file) := by
  rw [programHeaders, header_number_eq whole (by decide), header_number_eq whole (by decide)]
  show (if word file 28 = 0 then _ else _) = _
  rw [Elf.programHeaders]
  by_cases absent : word file 28 = 0
  · rw [if_pos absent, if_pos absent]
    rfl
  · rw [if_neg absent, if_neg absent]
    refine bind_eq_inside (extended_eq whole (by decide) (by decide)) fun count _ => ?_
    by_cases empty : count = 0
    · rw [if_pos empty, if_pos empty]
      rfl
    · rw [if_neg empty, if_neg empty]
      exact bind_eq_inside rfl fun _ _ => bind_eq_inside rfl fun _ _ => rfl

theorem checkSections_eq (whole : headerSize ≤ file.length) :
    checkSections file = inside (Elf.checkSections file) := by
  rw [checkSections, header_number_eq whole (by decide), header_number_eq whole (by decide)]
  show (if word file 32 = 0 then _ else _) = _
  rw [Elf.checkSections]
  by_cases absent : word file 32 = 0
  · rw [if_pos absent, if_pos absent]
    rfl
  · rw [if_neg absent, if_neg absent]
    refine bind_eq_inside (extended_eq whole (by decide) (by decide)) fun count _ => ?_
    by_cases empty : count = 0
    · rw [if_pos empty, if_pos empty]
      rfl
    · rw [if_neg empty, if_neg empty]
      exact bind_eq_inside rfl fun _ _ => bind_eq_inside rfl fun _ _ =>
        bind_eq_inside (extended_eq whole (by decide) (by decide)) fun _ _ => rfl

theorem segment?_eq {place : Nat} (there : place + programHeaderSize ≤ file.length) :
    segment? file place = inside (Elf.segment? file place) := by
  rw [programHeaderSize] at there
  rw [segment?, number_eq (by omega), number_eq (by omega), number_eq (by omega),
    number_eq (by omega)]
  show (if word file place ≠ loadType then _ else _) = _
  rw [Elf.segment?]
  by_cases other : word file place ≠ loadType
  · rw [if_pos other, if_pos other]
    rfl
  · rw [if_neg other, if_neg other]
    show inside (require _) >>= _ = inside (require _ >>= _)
    refine bind_eq_inside rfl fun _ fits => ?_
    have fits := require_eq_ok.mp fits
    show (if word file (place + 16) = 0 then _ else _) = _
    by_cases empty : word file (place + 16) = 0
    · rw [if_pos empty, if_pos empty]
      rfl
    · rw [if_neg empty, if_neg empty]
      show inside (address _) >>= _ = inside (address _ >>= _)
      refine bind_eq_inside rfl fun _ _ => ?_
      exact bind_eq_inside (slice_eq (of_decide_eq_true fits)) fun _ _ => rfl

theorem place_mem {places : List Nat} (found : Elf.programHeaders file = .ok places) {place : Nat}
    (mem : place ∈ places) : place + programHeaderSize ≤ file.length := by
  obtain ⟨none, table⟩ := programHeaders_eq_ok.mp found
  have some : places ≠ [] := List.ne_nil_of_mem mem
  obtain ⟨-, rest⟩ := table fun absent => some (none absent)
  obtain ⟨-, fits, same⟩ := rest some
  rw [same, List.mem_map] at mem
  obtain ⟨i, hi, rfl⟩ := mem
  have := fits.2
  have := List.mem_range.mp hi
  rw [programHeaderSize]
  omega

/-- The loader has a result with reads that stay inside the file, and the same. -/
theorem image_eq (file : List Byte) : image file = inside (Elf.image file) := by
  refine bind_eq_inside rfl fun _ size => ?_
  have whole : headerSize ≤ file.length := of_decide_eq_true (require_eq_ok.mp size)
  rw [header_number_eq whole (by decide)]
  refine bind_eq_inside rfl fun _ _ => bind_eq_inside (programHeaders_eq whole) fun places found =>
    bind_eq_inside (checkSections_eq whole) fun _ _ => bind_eq_inside (mapM_eq_inside ?_) fun _ _ => ?_
  · exact fun place mem => segment?_eq (place_mem found mem)
  · rw [header_number_eq whole (by decide)]
    exact bind_eq_inside rfl fun _ _ => rfl

end Bounded

/-! ## The one error -/

/-- A computation fails in one way only. -/
def OnlyMalformed {α : Type} (x : Except ImageError α) : Prop :=
  ∀ e, x = .error e → e = .malformedElf

namespace OnlyMalformed
variable {α β : Type}

theorem ok (a : α) : OnlyMalformed (.ok a : Except ImageError α) := fun _ fails => nomatch fails

theorem require (condition : Bool) : OnlyMalformed (Elf.require condition) := by
  intro e fails
  cases condition with
  | true => cases fails
  | false => exact (Except.error.inj fails).symm

theorem bind {x : Except ImageError α} {f : α → Except ImageError β} (hx : OnlyMalformed x)
    (hf : ∀ a, OnlyMalformed (f a)) : OnlyMalformed (x >>= f) := by
  cases x with
  | error e => exact fun _ fails => hx _ (congrArg Except.error (Except.error.inj fails))
  | ok a => exact hf a

theorem ite {condition : Prop} [Decidable condition] {x y : Except ImageError α}
    (hx : OnlyMalformed x) (hy : OnlyMalformed y) : OnlyMalformed (if condition then x else y) := by
  by_cases holds : condition
  · rwa [if_pos holds]
  · rwa [if_neg holds]

theorem mapM {f : α → Except ImageError β} (hf : ∀ a, OnlyMalformed (f a)) :
    ∀ xs : List α, OnlyMalformed (xs.mapM f)
  | [] => ok []
  | x :: rest => by
      rw [List.mapM_cons]
      exact (hf x).bind fun _ => (mapM hf rest).bind fun _ => ok _

variable (file : List Byte)

theorem sectionZero : OnlyMalformed (Elf.sectionZero file) :=
  (require _).bind fun _ => (require _).bind fun _ => ok _

theorem extended (offset referral field : Nat) :
    OnlyMalformed (Elf.extended file offset referral field) :=
  ite ((sectionZero file).bind fun _ => ok _) (ok _)

theorem programHeaders : OnlyMalformed (Elf.programHeaders file) :=
  ite (ok _) <| (extended file _ _ _).bind fun _ => ite (ok _) <|
    (require _).bind fun _ => (require _).bind fun _ => ok _

theorem checkSections : OnlyMalformed (Elf.checkSections file) :=
  ite (ok _) <| (extended file _ _ _).bind fun _ => ite (ok _) <|
    (require _).bind fun _ => (require _).bind fun _ => (extended file _ _ _).bind fun _ => require _

theorem address (offset : Nat) : OnlyMalformed (Elf.address (word file offset)) :=
  address_word file offset ▸ ok _

theorem segment? (place : Nat) : OnlyMalformed (Elf.segment? file place) :=
  ite (ok _) <| (require _).bind fun _ => ite (ok _) <| (address file _).bind fun _ => ok _

theorem image : OnlyMalformed (Elf.image file) :=
  (require _).bind fun _ => (require _).bind fun _ => (programHeaders file).bind fun _ =>
    (checkSections file).bind fun _ => (mapM (segment? file) _).bind fun _ =>
      (address file _).bind fun _ => ok _

end OnlyMalformed

/-! ## What is loaded -/

/-- The program headers that are laid out in a file are found there, each that is loaded giving its
bytes in the file for its address, and those only; with the mark of the format the one other end is
the error of a malformed file, and without it the bytes are taken as they are.  No read is outside
of the file. -/
theorem loading_exact (file : List Byte) (base : Word) :
    (∀ h programs, LaidOut file h programs →
      Image.ofFile file base = .ok ⟨loaded file programs, some h.entry⟩) ∧
    (magic <+: file →
      (∃ h programs, LaidOut file h programs ∧
        Image.ofFile file base = .ok ⟨loaded file programs, some h.entry⟩) ∨
      Image.ofFile file base = .error .malformedElf) ∧
    (∀ n, Image.ofFile file base ≠ .error (.beyondAddressSpace n)) ∧
    Bounded.image file = Bounded.inside (Elf.image file) ∧
    (¬ magic <+: file → Image.ofFile file base = .ok ⟨[⟨base, file⟩], none⟩) := by
  have marked : magic <+: file → Image.ofFile file base = Elf.image file := fun mark =>
    if_pos (List.isPrefixOf_iff_prefix.mpr mark)
  have unmarked : ¬ magic <+: file → Image.ofFile file base = .ok ⟨[⟨base, file⟩], none⟩ :=
    fun bare => if_neg (mt List.isPrefixOf_iff_prefix.mp bare)
  refine ⟨?_, ?_, ?_, Bounded.image_eq file, unmarked⟩
  · intro h programs laid
    rw [marked laid.header.mark]
    exact (image_eq_ok_iff laid.header.mark).mpr ⟨h, programs, laid, rfl⟩
  · intro mark
    rw [marked mark]
    cases found : Elf.image file with
    | error e => exact .inr (congrArg _ (OnlyMalformed.image file e found))
    | ok image =>
        obtain ⟨h, programs, laid, rfl⟩ := (image_eq_ok_iff mark).mp found
        exact .inl ⟨h, programs, laid, rfl⟩
  · intro n fails
    by_cases mark : magic <+: file
    · rw [marked mark] at fails
      exact absurd (OnlyMalformed.image file _ fails) (by simp)
    · rw [unmarked mark] at fails
      cases fails

/-- A file with three program headers: of an instruction, of a note with a range beyond the file,
and of nothing. -/
def threeHeaders : List Byte :=
  magic ++ [1, 1, 1, 0, 0, 0, 0, 0, 0, 0, 0, 0] ++ [2, 0, 0xf3, 0, 1, 0, 0, 0] ++
    [4, 0, 0, 0x80] ++ [52, 0, 0, 0] ++ [0, 0, 0, 0] ++ [0, 0, 0, 0, 52, 0] ++
    [32, 0, 3, 0] ++ [0, 0, 0, 0, 0, 0] ++
    [1, 0, 0, 0] ++ [148, 0, 0, 0] ++ [0, 0, 0, 0x80] ++ [0, 0, 0, 0] ++
    [4, 0, 0, 0] ++ [8, 0, 0, 0] ++ [5, 0, 0, 0, 0, 0, 0, 0] ++
    [4, 0, 0, 0] ++ [0, 0, 1, 0] ++ [0, 0, 0, 0] ++ [0, 0, 0, 0] ++
    [16, 0, 0, 0] ++ [16, 0, 0, 0] ++ [0, 0, 0, 0, 0, 0, 0, 0] ++
    [1, 0, 0, 0] ++ [152, 0, 0, 0] ++ [0, 0, 1, 0x80] ++ [0, 0, 0, 0] ++
    [0, 0, 0, 0] ++ [64, 0, 0, 0] ++ [6, 0, 0, 0, 0, 0, 0, 0] ++
    [0x73, 0, 0x10, 0]

theorem threeHeaders_laidOut :
    LaidOut threeHeaders ⟨0x80000004, 52, 32, 3, 0, 0, 0, 0⟩
      [⟨1, 148, 0x80000000, 4⟩, ⟨4, 0x10000, 0, 16⟩, ⟨1, 152, 0x80010000, 0⟩] where
  header := by constructor <;> decide +kernel
  noTable := by decide
  table := by
    refine fun _ => ⟨.inl (by decide), fun _ => ⟨rfl, by decide +kernel, fun i hi => ?_⟩⟩
    match i with
    | 0 => constructor <;> rfl
    | 1 => constructor <;> rfl
    | 2 => constructor <;> rfl
  sections := fun there => absurd rfl there
  inside := by decide +kernel

theorem loading_exact_three :
    Image.ofFile threeHeaders 0 =
        .ok ⟨[⟨0x80000000, [0x73, 0, 0x10, 0]⟩], some 0x80000004⟩ ∧
      Image.ofFile (threeHeaders.take 40) 0 = .error .malformedElf ∧
      Image.ofFile (threeHeaders.drop 1) 0x80000000 =
        .ok ⟨[⟨0x80000000, threeHeaders.drop 1⟩], none⟩ := by
  refine ⟨(loading_exact threeHeaders 0).1 _ _ threeHeaders_laidOut, ?_, ?_⟩
  · obtain ⟨h, programs, laid, -⟩ | fails := (loading_exact (threeHeaders.take 40) 0).2.1 (by decide)
    · exact absurd laid.header.whole (by decide)
    · exact fails
  · exact (loading_exact (threeHeaders.drop 1) 0x80000000).2.2.2.2 (by decide)

end HartMonitor.Elf
