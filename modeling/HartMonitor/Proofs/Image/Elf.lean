/-
# `HartMonitor.Proofs.Image.Elf` — the loader finds the program headers that are laid out

Each step of the loader has a lemma that says when it succeeds, and with what; the lemma about the
whole, `image_eq_ok_iff`, is put together from these:

    header          the numbers that the loader reads are the one header that stands in the file
    tables          a table is found where the header, or section zero, places it
    segments        a program header gives a segment if it is loaded, and is checked if it could be

So the file decides the header and the program headers, and two layouts of one file are the same.
-/
import HartMonitor.Proofs.Expression.Grammar
import HartMonitor.Proofs.Image.Layout

namespace HartMonitor.Elf

variable {file : List Byte} {h : Header} {programs : List ProgramHeader} {α β ε : Type}

/-! ## Steps of the loader -/

theorem bind_eq_ok {x : Except ε α} {f : α → Except ε β} {b : β} :
    x >>= f = .ok b ↔ ∃ a, x = .ok a ∧ f a = .ok b :=
  ⟨exists_of_bind_eq_ok, fun ⟨_, first, second⟩ => by rw [first]; exact second⟩

theorem pure_eq_ok {a b : α} : (pure a : Except ε α) = .ok b ↔ a = b := Except.ok.injEq a b ▸ Iff.rfl

theorem require_eq_ok {condition : Bool} {u : Unit} :
    require condition = .ok u ↔ condition = true := by
  cases condition <;> simp [require]

theorem tableFits_iff {offset count size : Nat} :
    tableFits file offset count size = true ↔ InFile file offset count size := by
  simp [tableFits, InFile, Nat.dvd_iff_mod_eq_zero]

/-! ## The header -/

/-- The header that a file has, if it has one. -/
def headerOf (file : List Byte) : Header where
  entry := BitVec.ofNat 32 (word file 24)
  programTable := word file 28
  sectionTable := word file 32
  programSize := half file 42
  programCount := half file 44
  sectionSize := half file 46
  sectionCount := half file 48
  sectionNames := half file 50

theorem toNat_word (file : List Byte) (offset : Nat) :
    (BitVec.ofNat 32 (word file offset)).toNat = word file offset := by
  have bound : word file offset < 2 ^ 32 := numberAt_lt file offset 4
  rw [BitVec.toNat_ofNat, Nat.mod_eq_of_lt bound]

theorem kind_iff (whole : headerSize ≤ file.length) :
    (Spells file 4 1 1 ∧ Spells file 5 1 1 ∧ Spells file 6 1 1) ↔
      numberAt file 4 3 = 0x010101 := by
  rw [headerSize] at whole
  have low : ∀ i, numberAt file i 1 < 256 := fun i => numberAt_lt file i 1
  have one : ∀ i (hi : i < file.length), numberAt file i 1 = file[i].toNat := by
    intro i hi
    rw [numberAt_succ hi, numberAt, List.take_zero, List.foldr_nil, Nat.mul_zero, Nat.add_zero]
  have three : numberAt file 4 3 =
      numberAt file 4 1 + 256 * (numberAt file 5 1 + 256 * numberAt file 6 1) := by
    rw [one 4 (by omega), one 5 (by omega)]
    exact (numberAt_succ (by omega)).trans (congrArg _ (congrArg _ (numberAt_succ (by omega))))
  rw [spells_iff (by omega), spells_iff (by omega), spells_iff (by omega), three]
  have := low 4
  have := low 5
  omega

theorem stands_headerOf (mark : magic <+: file) (whole : headerSize ≤ file.length)
    (kind : numberAt file 4 3 = 0x010101) : (headerOf file).Stands file := by
  have inside : ∀ {offset len}, offset + len ≤ 52 → offset + len ≤ file.length :=
    fun small => Nat.le_trans small whole
  exact {
    mark := mark
    kind := (kind_iff whole).mpr kind
    whole := whole
    entry := (spells_iff (inside (by decide))).mpr (toNat_word file 24).symm
    programTable := (spells_iff (inside (by decide))).mpr rfl
    sectionTable := (spells_iff (inside (by decide))).mpr rfl
    programSize := (spells_iff (inside (by decide))).mpr rfl
    programCount := (spells_iff (inside (by decide))).mpr rfl
    sectionSize := (spells_iff (inside (by decide))).mpr rfl
    sectionCount := (spells_iff (inside (by decide))).mpr rfl
    sectionNames := (spells_iff (inside (by decide))).mpr rfl }

theorem Header.Stands.eq_headerOf (stands : h.Stands file) : h = headerOf file := by
  have inside : ∀ {offset len}, offset + len ≤ 52 → offset + len ≤ file.length :=
    fun small => Nat.le_trans small stands.whole
  have entry := (spells_iff (inside (by decide))).mp stands.entry
  cases h
  rw [headerOf, Header.mk.injEq]
  exact ⟨BitVec.eq_of_toNat_eq ((toNat_word file 24).trans entry).symm,
    ((spells_iff (inside (by decide))).mp stands.programTable).symm,
    ((spells_iff (inside (by decide))).mp stands.programSize).symm,
    ((spells_iff (inside (by decide))).mp stands.programCount).symm,
    ((spells_iff (inside (by decide))).mp stands.sectionTable).symm,
    ((spells_iff (inside (by decide))).mp stands.sectionSize).symm,
    ((spells_iff (inside (by decide))).mp stands.sectionCount).symm,
    ((spells_iff (inside (by decide))).mp stands.sectionNames).symm⟩

/-! ## The tables -/

theorem sectionZero_eq_ok {offset : Nat} :
    sectionZero file = .ok offset ↔
      (headerOf file).SectionZero file ∧ (headerOf file).sectionTable = offset := by
  simp only [sectionZero, bind_eq_ok, require_eq_ok, pure_eq_ok, tableFits_iff, Bool.and_eq_true,
    bne_iff_ne, beq_iff_eq]
  constructor
  · rintro ⟨-, ⟨there, size⟩, -, inside, same⟩
    exact ⟨⟨there, size, inside⟩, same⟩
  · rintro ⟨⟨there, size, inside⟩, same⟩
    exact ⟨(), ⟨there, size⟩, (), inside, same⟩

theorem extended_eq_ok {offset referral field x : Nat} (small : field + 4 ≤ sectionHeaderSize) :
    extended file offset referral field = .ok x ↔
      (headerOf file).Extended file (half file offset) referral field x := by
  rw [extended, Header.Extended]
  by_cases refers : half file offset = referral
  · rw [if_pos refers]
    simp only [bind_eq_ok, pure_eq_ok, sectionZero_eq_ok, refers, ne_eq, not_true, false_and, false_or,
      true_and]
    constructor
    · rintro ⟨header, ⟨zero, rfl⟩, rfl⟩
      have := zero.inside.2
      exact ⟨zero, (spells_iff (by rw [sectionHeaderSize] at small; omega)).mpr rfl⟩
    · rintro ⟨zero, spelled⟩
      have := zero.inside.2
      exact ⟨_, ⟨zero, rfl⟩, (spells_iff (by rw [sectionHeaderSize] at small; omega)).mp spelled⟩
  · rw [if_neg refers, pure_eq_ok]
    simp [refers, eq_comm]

/-- The places of the program headers. -/
theorem programHeaders_eq_ok {places : List Nat} :
    programHeaders file = .ok places ↔
      ((headerOf file).programTable = 0 → places = []) ∧
      ((headerOf file).programTable ≠ 0 →
        (headerOf file).Extended file (headerOf file).programCount 0xffff 28 places.length ∧
          (places ≠ [] → (headerOf file).programSize = 32 ∧
            InFile file (headerOf file).programTable places.length 32 ∧
            places = (List.range places.length).map fun i =>
              (headerOf file).programTable + i * 32)) := by
  have count : ∀ {n}, extended file 44 countInSectionZero 28 = .ok n ↔
      (headerOf file).Extended file (headerOf file).programCount 0xffff 28 n :=
    extended_eq_ok (by decide)
  rw [programHeaders]
  by_cases absent : word file 28 = 0
  · have table : (headerOf file).programTable = 0 := absent
    rw [if_pos absent, pure_eq_ok]
    simp [table, eq_comm]
  · have table : (headerOf file).programTable ≠ 0 := absent
    rw [if_neg absent, bind_eq_ok]
    simp only [count, table, false_implies, true_and, ne_eq, not_false_eq_true, true_implies]
    constructor
    · rintro ⟨n, counted, rest⟩
      by_cases empty : n = 0
      · rw [if_pos empty, pure_eq_ok] at rest
        subst rest empty
        exact ⟨counted, fun some => absurd rfl some⟩
      · rw [if_neg empty] at rest
        simp only [bind_eq_ok, require_eq_ok, pure_eq_ok, beq_iff_eq, tableFits_iff] at rest
        obtain ⟨-, size, -, inside, rfl⟩ := rest
        simp only [List.length_map, List.length_range]
        exact ⟨counted, fun _ => ⟨size, inside, rfl⟩⟩
    · rintro ⟨counted, table⟩
      refine ⟨_, counted, ?_⟩
      by_cases empty : places = []
      · subst empty
        rfl
      · obtain ⟨size, inside, same⟩ := table empty
        rw [if_neg (by simpa using empty)]
        simp only [bind_eq_ok, require_eq_ok, pure_eq_ok, beq_iff_eq, tableFits_iff]
        exact ⟨(), size, (), inside, same.symm⟩

theorem checkSections_eq_ok {u : Unit} :
    checkSections file = .ok u ↔
      ((headerOf file).sectionTable ≠ 0 → ∃ count,
        (headerOf file).Extended file (headerOf file).sectionCount 0 20 count ∧
        (count ≠ 0 → (headerOf file).sectionSize = 40 ∧
          InFile file (headerOf file).sectionTable count 40 ∧
          ∃ names, (headerOf file).Extended file (headerOf file).sectionNames 0xffff 24 names ∧
            0 < names ∧ names < count)) := by
  have count : ∀ {n}, extended file 48 0 20 = .ok n ↔
      (headerOf file).Extended file (headerOf file).sectionCount 0 20 n :=
    extended_eq_ok (by decide)
  have index : ∀ {n}, extended file 50 indexInSectionZero 24 = .ok n ↔
      (headerOf file).Extended file (headerOf file).sectionNames 0xffff 24 n :=
    extended_eq_ok (by decide)
  rw [checkSections]
  by_cases absent : word file 32 = 0
  · have table : (headerOf file).sectionTable = 0 := absent
    rw [if_pos absent]
    simp [table, pure_eq_ok]
  · have table : (headerOf file).sectionTable ≠ 0 := absent
    rw [if_neg absent, bind_eq_ok]
    simp only [count, table, ne_eq, not_false_eq_true, true_implies]
    refine exists_congr fun n => and_congr_right fun _ => ?_
    by_cases empty : n = 0
    · rw [if_pos empty]
      simp [empty, pure_eq_ok]
    · rw [if_neg empty]
      simp only [bind_eq_ok, require_eq_ok, beq_iff_eq, tableFits_iff, index, Bool.and_eq_true,
        bne_iff_ne, decide_eq_true_eq, empty, not_false_eq_true, true_implies, exists_const,
        Nat.pos_iff_ne_zero]
      rfl

/-! ## The segments -/

/-- The program header that is read at a place. -/
def programAt (file : List Byte) (place : Nat) : ProgramHeader where
  kind := BitVec.ofNat 32 (word file place)
  offset := BitVec.ofNat 32 (word file (place + 4))
  addr := BitVec.ofNat 32 (word file (place + 8))
  fileSize := BitVec.ofNat 32 (word file (place + 16))

theorem stands_iff {p : ProgramHeader} {place : Nat} (inside : place + 32 ≤ file.length) :
    p.Stands file place ↔ p = programAt file place := by
  have number : ∀ {offset} {w : Word}, offset + 4 ≤ file.length →
      (Spells file offset 4 w.toNat ↔ w = BitVec.ofNat 32 (word file offset)) := by
    intro offset w there
    rw [spells_iff there, ← BitVec.toNat_inj, toNat_word, eq_comm]
    rfl
  constructor
  · rintro ⟨kind, offset, addr, fileSize⟩
    cases p
    rw [programAt, ProgramHeader.mk.injEq]
    exact ⟨(number (by omega)).mp kind, (number (by omega)).mp offset,
      (number (by omega)).mp addr, (number (by omega)).mp fileSize⟩
  · rintro rfl
    exact ⟨(number (by omega)).mpr rfl, (number (by omega)).mpr rfl,
      (number (by omega)).mpr rfl, (number (by omega)).mpr rfl⟩

def ProgramHeader.segment? (p : ProgramHeader) (file : List Byte) : Option Segment :=
  if p.IsLoaded then some (p.segment file) else none

theorem address_word (file : List Byte) (offset : Nat) :
    address (word file offset) = .ok (BitVec.ofNat 32 (word file offset)) :=
  if_pos (numberAt_lt file offset 4)

theorem segment?_eq_ok {place : Nat} {s : Option Segment} :
    segment? file place = .ok s ↔
      ((programAt file place).kind = 1 → (programAt file place).Inside file) ∧
        (programAt file place).segment? file = s := by
  have kind : (programAt file place).kind = 1 ↔ word file place = loadType := by
    rw [← BitVec.toNat_inj]
    exact (toNat_word file place).congr_left
  have size : (programAt file place).fileSize = 0 ↔ word file (place + 16) = 0 := by
    rw [← BitVec.toNat_inj]
    exact (toNat_word file (place + 16)).congr_left
  have inside : (programAt file place).Inside file ↔
      word file (place + 4) + word file (place + 16) ≤ file.length := by
    rw [ProgramHeader.Inside, programAt, toNat_word, toNat_word]
  have data : (file.drop (word file (place + 4))).take (word file (place + 16)) =
      file.extract (programAt file place).offset.toNat
        ((programAt file place).offset.toNat + (programAt file place).fileSize.toNat) := by
    rw [List.extract_eq_take_drop, programAt, toNat_word, toNat_word, Nat.add_sub_cancel_left]
  rw [segment?, kind]
  by_cases load : word file place = loadType
  · rw [if_neg (not_not_intro load)]
    simp only [bind_eq_ok, require_eq_ok, decide_eq_true_eq, inside, load, true_implies, exists_const]
    refine and_congr_right fun _ => ?_
    by_cases empty : word file (place + 16) = 0
    · have idle : ¬ (programAt file place).IsLoaded := fun loaded => loaded.2 (size.mpr empty)
      rw [if_pos empty, pure_eq_ok, ProgramHeader.segment?, if_neg idle]
    · have loaded : (programAt file place).IsLoaded := ⟨kind.mpr load, mt size.mp empty⟩
      simp only [if_neg empty, bind_eq_ok, pure_eq_ok, address_word, ProgramHeader.segment?, loaded,
        if_true, Except.ok.injEq, exists_eq_left', data]
      rfl
  · have idle : ¬ (programAt file place).IsLoaded := fun loaded => load (kind.mp loaded.1)
    rw [if_pos load, pure_eq_ok, ProgramHeader.segment?, if_neg idle]
    simp [load]

theorem filterMap_segment? (file : List Byte) (programs : List ProgramHeader) :
    programs.filterMap (·.segment? file) = loaded file programs := by
  rw [loaded]
  induction programs with
  | nil => rfl
  | cons p rest ih =>
      by_cases load : p.IsLoaded
      · simp [ProgramHeader.segment?, load, ← ih]
      · simp [ProgramHeader.segment?, load, ← ih]

theorem mapM_eq_ok {f : α → Except ε β} {P : α → Prop} {g : α → β}
    (each : ∀ x y, f x = .ok y ↔ P x ∧ g x = y) (xs : List α) {ys : List β} :
    xs.mapM f = .ok ys ↔ (∀ x ∈ xs, P x) ∧ xs.map g = ys := by
  induction xs generalizing ys with
  | nil => simp [pure_eq_ok]
  | cons x rest ih =>
      simp only [List.mapM_cons, bind_eq_ok, each, ih, pure_eq_ok, List.forall_mem_cons, List.map_cons]
      constructor
      · rintro ⟨_, ⟨here, rfl⟩, _, ⟨later, rfl⟩, rfl⟩
        exact ⟨⟨here, later⟩, rfl⟩
      · rintro ⟨⟨here, later⟩, rfl⟩
        exact ⟨_, ⟨here, rfl⟩, _, ⟨later, rfl⟩, rfl⟩

theorem image_eq_ok {image : Image} :
    Elf.image file = .ok image ↔
      headerSize ≤ file.length ∧ numberAt file 4 3 = 0x010101 ∧
      ∃ places, programHeaders file = .ok places ∧ checkSections file = .ok () ∧
        (∀ p ∈ places.map (programAt file), p.kind = 1 → p.Inside file) ∧
        image = ⟨loaded file (places.map (programAt file)), some (headerOf file).entry⟩ := by
  have segments := mapM_eq_ok fun place s => @segment?_eq_ok file place s
  simp only [Elf.image, bind_eq_ok, require_eq_ok, pure_eq_ok, decide_eq_true_eq, beq_iff_eq,
    segments, address_word, List.forall_mem_map, ← filterMap_segment?, List.filterMap_map]
  constructor
  · rintro ⟨-, whole, -, kind, places, found, _, checked, _, ⟨inside, rfl⟩, _, entry, rfl⟩
    cases entry
    refine ⟨whole, kind, places, found, checked, inside, ?_⟩
    rw [List.filterMap_map]
    rfl
  · rintro ⟨whole, kind, places, found, checked, inside, rfl⟩
    refine ⟨(), whole, (), kind, places, found, (), checked, _, ⟨inside, rfl⟩, _, rfl, ?_⟩
    rw [List.filterMap_map]
    rfl

/-! ## What is accepted -/

/-- The loader accepts the files in which program headers are laid out, and finds these. -/
theorem image_eq_ok_iff (mark : magic <+: file) {image : Image} :
    Elf.image file = .ok image ↔
      ∃ h programs, LaidOut file h programs ∧ image = ⟨loaded file programs, some h.entry⟩ := by
  rw [image_eq_ok]
  constructor
  · rintro ⟨whole, kind, places, found, checked, inside, rfl⟩
    obtain ⟨none, table⟩ := programHeaders_eq_ok.mp found
    refine ⟨headerOf file, places.map (programAt file), ?_, rfl⟩
    exact {
      header := stands_headerOf mark whole kind
      noTable := fun absent => by rw [none absent, List.map_nil]
      table := by
        intro there
        obtain ⟨counted, rest⟩ := table there
        have length : (places.map (programAt file)).length = places.length := List.length_map _
        refine ⟨length ▸ counted, fun some => ?_⟩
        obtain ⟨size, fits, same⟩ := rest fun empty => some (empty ▸ List.map_nil)
        refine ⟨size, length ▸ fits, fun i hi => ?_⟩
        rw [length] at hi
        have place : places[i] = (headerOf file).programTable + i * 32 := by
          rw [List.getElem_of_eq same hi, List.getElem_map, List.getElem_range]
        have := fits.2
        rw [List.getElem_map, place]
        exact (stands_iff (by omega)).mpr rfl
      sections := checkSections_eq_ok.mp checked
      inside := inside }
  · rintro ⟨h, programs, laid, rfl⟩
    obtain rfl := laid.header.eq_headerOf
    -- the places follow from the header, and the program headers from the places
    have found : programs =
        ((List.range programs.length).map fun i => (headerOf file).programTable + i * 32).map
          (programAt file) := by
      refine List.ext_getElem (by simp) fun i hi _ => ?_
      have there : (headerOf file).programTable ≠ 0 := by
        intro absent
        rw [laid.noTable absent] at hi
        exact absurd hi (Nat.not_lt_zero i)
      obtain ⟨-, rest⟩ := laid.table there
      obtain ⟨-, fits, stand⟩ := rest (List.ne_nil_of_length_pos (Nat.zero_lt_of_lt hi))
      have := fits.2
      rw [List.getElem_map, List.getElem_map, List.getElem_range]
      exact (stands_iff (by omega)).mp (stand i hi)
    refine ⟨laid.header.whole, (kind_iff laid.header.whole).mp laid.header.kind, _, ?_,
      checkSections_eq_ok.mpr laid.sections, found ▸ laid.inside, by rw [← found]⟩
    refine programHeaders_eq_ok.mpr ⟨fun absent => ?_, fun there => ?_⟩
    · rw [laid.noTable absent]
      rfl
    · obtain ⟨counted, rest⟩ := laid.table there
      rw [List.length_map, List.length_range]
      refine ⟨counted, fun some => ?_⟩
      obtain ⟨size, fits, -⟩ := rest fun empty => some (empty ▸ rfl)
      exact ⟨size, fits, rfl⟩

end HartMonitor.Elf
