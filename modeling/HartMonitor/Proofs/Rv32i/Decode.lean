/-
# `HartMonitor.Proofs.Rv32i.Decode` — the decode table is the encoding of the manual

A row of the table fixes the major operation of a word, and `funct3` and `funct7` where
they tell instructions apart (`encodes`).  So a word matches a row exactly where its
fields have the fixed values (`matches_fixed`), and then it decodes to what the row reads
in it.  Conversely every word that decodes to something matches a row.

    decode_of_matches     a word of a row decodes to the reading of the row
    matches_of_decode     a word that decodes is a word of some row
    lookup_table          the row that is found, from what a word decodes to
-/
import HartMonitor.Instruction.Table
import HartMonitor.Proofs.Rv32i.Field

namespace HartMonitor.Rv32i

open Instruction (Row namedRows catchAll table lookup)

/-! ## Words with fixed fields -/

/-- The pattern that fixes the major operation of a word, and `funct3` and `funct7` where they
are given. -/
def fixed (opcode : BitVec 7) (funct3 : Option (BitVec 3)) (funct7 : Option (BitVec 7)) :
    Pattern where
  mask := (funct7.elim 0 fun _ => BitVec.allOnes 7) ++ 0#10
    ++ (funct3.elim 0 fun _ => BitVec.allOnes 3) ++ 0#5 ++ BitVec.allOnes 7
  expected := funct7.getD 0 ++ 0#10 ++ funct3.getD 0 ++ 0#5 ++ opcode

theorem append_eq_append_iff {m n : Nat} {a c : BitVec m} {b d : BitVec n} :
    a ++ b = c ++ d ↔ a = c ∧ b = d := by
  constructor
  · intro h
    have high := congrArg (BitVec.extractLsb' n m) h
    have low := congrArg (BitVec.extractLsb' 0 n) h
    rw [BitVec.extractLsb'_append_eq_left, BitVec.extractLsb'_append_eq_left] at high
    rw [BitVec.extractLsb'_append_eq_right, BitVec.extractLsb'_append_eq_right] at low
    exact ⟨high, low⟩
  · rintro ⟨rfl, rfl⟩; rfl

theorem eq_fields (inst : Word) :
    inst = Instruction.funct7 inst ++ inst.extractLsb' 15 10 ++ Instruction.funct3 inst
      ++ Instruction.rd inst ++ Instruction.opcode inst := by
  have := inst.isLt
  apply BitVec.eq_of_toNat_eq
  simp only [Instruction.funct7, Instruction.funct3, Instruction.rd, Instruction.opcode,
    toNat_append, toNat_extract, field]
  omega

theorem matches_fixed {opcode : BitVec 7} {funct3 : Option (BitVec 3)}
    {funct7 : Option (BitVec 7)} {inst : Word} :
    (fixed opcode funct3 funct7).Matches inst ↔
      Instruction.opcode inst = opcode ∧
      (∀ f, funct3 = some f → Instruction.funct3 inst = f) ∧
      ∀ f, funct7 = some f → Instruction.funct7 inst = f := by
  have part : ∀ {n : Nat} (x : BitVec n) (f : Option (BitVec n)),
      x &&& (f.elim 0 fun _ => BitVec.allOnes n) = f.getD 0 ↔ ∀ c, f = some c → x = c := by
    intro n x f
    cases f <;> simp
  have split : inst &&& (fixed opcode funct3 funct7).mask =
      (Instruction.funct7 inst &&& funct7.elim 0 fun _ => BitVec.allOnes 7)
        ++ (inst.extractLsb' 15 10 &&& 0#10)
        ++ (Instruction.funct3 inst &&& funct3.elim 0 fun _ => BitVec.allOnes 3)
        ++ (Instruction.rd inst &&& 0#5) ++ (Instruction.opcode inst &&& BitVec.allOnes 7) := by
    simp only [← BitVec.and_append]
    conv => lhs; lhs; rw [eq_fields inst]
    rfl
  rw [Pattern.Matches, split]
  change _ = funct7.getD 0 ++ 0#10 ++ funct3.getD 0 ++ 0#5 ++ opcode ↔ _
  simp only [append_eq_append_iff, part, BitVec.and_allOnes, BitVec.and_zero, and_true]
  exact ⟨fun ⟨⟨h₇, h₃⟩, h⟩ => ⟨h, h₃, h₇⟩, fun ⟨h, h₃, h₇⟩ => ⟨⟨h₇, h₃⟩, h⟩⟩

theorem matches_allOnes {expected inst : Word} :
    (Pattern.mk (BitVec.allOnes 32) expected).Matches inst ↔ inst = expected := by
  rw [Pattern.Matches, BitVec.and_allOnes]

theorem opcode_eq (inst : Word) : opcode inst.toNat = (Instruction.opcode inst).toNat :=
  (toNat_extract inst 0 7).symm

theorem funct3_eq (inst : Word) : funct3 inst.toNat = (Instruction.funct3 inst).toNat :=
  (toNat_extract inst 12 3).symm

theorem funct7_eq (inst : Word) : funct7 inst.toNat = (Instruction.funct7 inst).toNat :=
  (toNat_extract inst 25 7).symm

/-! ## Rows -/

/-- What an action reads in a word of a format. -/
def reading (w : Nat) : Action → Format → Option Decoded
  | .lui, .upper => some (.lui (rd w) (immU w))
  | .auipc, .upper => some (.auipc (rd w) (immU w))
  | .jal, .jump => some (.jal (rd w) (immJ w))
  | .jalr, .immediate => some (.jalr (rd w) (rs1 w) (immI w))
  | .branch c, .branch => some (.branch c (rs1 w) (rs2 w) (immB w))
  | .load width sign, .immediate => some (.load width sign (rd w) (rs1 w) (immI w))
  | .store width, .store => some (.store width (rs1 w) (rs2 w) (immS w))
  | .alu op, .immediate =>
    some (.immediate op (rd w) (rs1 w) (if op.unit = .shifter then field w 20 5 else immI w))
  | .alu op, .register => some (.register op (rd w) (rs1 w) (rs2 w))
  | .ebreak, .bare => some .ebreak
  | _, _ => none

/-- Whether a pattern tells the words of an action from all others as the manual does. -/
def encodes (p : Pattern) (action : Action) (format : Format) : Bool :=
  let f₃ := Instruction.funct3 p.expected
  let f₇ := Instruction.funct7 p.expected
  match action, format with
  | .lui, .upper => p = fixed 0b0110111 none none
  | .auipc, .upper => p = fixed 0b0010111 none none
  | .jal, .jump => p = fixed 0b1101111 none none
  | .jalr, .immediate => p = fixed 0b1100111 (some 0) none
  | .branch c, .branch => p = fixed 0b1100011 (some f₃) none ∧ comparison? f₃.toNat = some c
  | .load width sign, .immediate =>
    p = fixed 0b0000011 (some f₃) none ∧ loadWidth? f₃.toNat = some (width, sign)
  | .store width, .store =>
    p = fixed 0b0100011 (some f₃) none ∧ storeWidth? f₃.toNat = some width
  | .alu op, .immediate =>
    if op.unit = .shifter then
      p = fixed 0b0010011 (some f₃) (some f₇) ∧ immediateOp? f₃.toNat = none ∧
        shiftOp? f₇.toNat f₃.toNat = some op
    else p = fixed 0b0010011 (some f₃) none ∧ immediateOp? f₃.toNat = some op
  | .alu op, .register =>
    p = fixed 0b0110011 (some f₃) (some f₇) ∧ registerOp? f₇.toNat f₃.toNat = some op
  | .ebreak, .bare => p = ⟨BitVec.allOnes 32, 0x00100073⟩
  | _, _ => false

/-- The rows of the table by the fields that they fix. -/
def encodings : List Row := [
  ⟨"lui", fixed 0b0110111 none none, .upper, .lui⟩,
  ⟨"auipc", fixed 0b0010111 none none, .upper, .auipc⟩,
  ⟨"jal", fixed 0b1101111 none none, .jump, .jal⟩,
  ⟨"jalr", fixed 0b1100111 (some 0b000) none, .immediate, .jalr⟩,
  ⟨"beq", fixed 0b1100011 (some 0b000) none, .branch, .branch .eq⟩,
  ⟨"bne", fixed 0b1100011 (some 0b001) none, .branch, .branch .ne⟩,
  ⟨"blt", fixed 0b1100011 (some 0b100) none, .branch, .branch .lt⟩,
  ⟨"bge", fixed 0b1100011 (some 0b101) none, .branch, .branch .ge⟩,
  ⟨"bltu", fixed 0b1100011 (some 0b110) none, .branch, .branch .ltu⟩,
  ⟨"bgeu", fixed 0b1100011 (some 0b111) none, .branch, .branch .geu⟩,
  ⟨"lb", fixed 0b0000011 (some 0b000) none, .immediate, .load .byte true⟩,
  ⟨"lh", fixed 0b0000011 (some 0b001) none, .immediate, .load .half true⟩,
  ⟨"lw", fixed 0b0000011 (some 0b010) none, .immediate, .load .word true⟩,
  ⟨"lbu", fixed 0b0000011 (some 0b100) none, .immediate, .load .byte false⟩,
  ⟨"lhu", fixed 0b0000011 (some 0b101) none, .immediate, .load .half false⟩,
  ⟨"sb", fixed 0b0100011 (some 0b000) none, .store, .store .byte⟩,
  ⟨"sh", fixed 0b0100011 (some 0b001) none, .store, .store .half⟩,
  ⟨"sw", fixed 0b0100011 (some 0b010) none, .store, .store .word⟩,
  ⟨"addi", fixed 0b0010011 (some 0b000) none, .immediate, .alu .add⟩,
  ⟨"slti", fixed 0b0010011 (some 0b010) none, .immediate, .alu .slt⟩,
  ⟨"sltiu", fixed 0b0010011 (some 0b011) none, .immediate, .alu .sltu⟩,
  ⟨"xori", fixed 0b0010011 (some 0b100) none, .immediate, .alu .xor⟩,
  ⟨"ori", fixed 0b0010011 (some 0b110) none, .immediate, .alu .or⟩,
  ⟨"andi", fixed 0b0010011 (some 0b111) none, .immediate, .alu .and⟩,
  ⟨"slli", fixed 0b0010011 (some 0b001) (some 0b0000000), .immediate, .alu .sll⟩,
  ⟨"srli", fixed 0b0010011 (some 0b101) (some 0b0000000), .immediate, .alu .srl⟩,
  ⟨"srai", fixed 0b0010011 (some 0b101) (some 0b0100000), .immediate, .alu .sra⟩,
  ⟨"add", fixed 0b0110011 (some 0b000) (some 0b0000000), .register, .alu .add⟩,
  ⟨"sub", fixed 0b0110011 (some 0b000) (some 0b0100000), .register, .alu .sub⟩,
  ⟨"sll", fixed 0b0110011 (some 0b001) (some 0b0000000), .register, .alu .sll⟩,
  ⟨"slt", fixed 0b0110011 (some 0b010) (some 0b0000000), .register, .alu .slt⟩,
  ⟨"sltu", fixed 0b0110011 (some 0b011) (some 0b0000000), .register, .alu .sltu⟩,
  ⟨"xor", fixed 0b0110011 (some 0b100) (some 0b0000000), .register, .alu .xor⟩,
  ⟨"srl", fixed 0b0110011 (some 0b101) (some 0b0000000), .register, .alu .srl⟩,
  ⟨"sra", fixed 0b0110011 (some 0b101) (some 0b0100000), .register, .alu .sra⟩,
  ⟨"or", fixed 0b0110011 (some 0b110) (some 0b0000000), .register, .alu .or⟩,
  ⟨"and", fixed 0b0110011 (some 0b111) (some 0b0000000), .register, .alu .and⟩,
  ⟨"ebreak", ⟨BitVec.allOnes 32, 0x00100073⟩, .bare, .ebreak⟩]

section Spelled
variable {text : String} {ok : (Pattern.compile text).toOption.isSome = true} {cs : List Char}
  {symbols : List BitSymbol} (spelled : text = String.ofList cs)
  (read : Pattern.symbols? cs = some symbols) (wide : Pattern.width symbols = 32)
include spelled read wide

theorem ofText_eq : Pattern.ofText text ok = Pattern.ofSymbols symbols := by
  have compiled : Pattern.compile text = .ok (Pattern.ofSymbols symbols) := by
    rw [Pattern.compile, spelled, String.toList_ofList, read]
    exact if_pos wide
  simp only [Pattern.ofText, compiled]
  rfl

theorem row_eq {name : String} {p : Pattern} {format : Format} {action : Action}
    (same : Pattern.ofSymbols symbols = p) :
    (⟨name, Pattern.ofText text ok, format, action⟩ : Row) = ⟨name, p, format, action⟩ := by
  rw [ofText_eq spelled read wide, same]

end Spelled

/-- The texts of the rows fix these fields.  Row by row, because a literal is given by its characters
as it stands, where `decide` would decode it. -/
theorem namedRows_eq : namedRows = encodings := by
  rw [namedRows, encodings]
  repeat refine congrArg₂ List.cons (row_eq rfl rfl rfl rfl) ?_
  rfl

theorem encodes_row :
    ∀ row ∈ encodings, encodes row.pattern row.action row.format = true := by
  decide +kernel

/-- The fields that a pattern fixes are those of its words. -/
theorem fields_of_matches {p : Pattern} {inst : Word} {op : BitVec 7} {f₃ : Option (BitVec 3)}
    {f₇ : Option (BitVec 7)} (h : p = fixed op f₃ f₇) (fits : p.Matches inst) :
    opcode inst.toNat = op.toNat ∧ (∀ f, f₃ = some f → funct3 inst.toNat = f.toNat) ∧
      ∀ f, f₇ = some f → funct7 inst.toNat = f.toNat := by
  rw [h] at fits
  obtain ⟨ho, h₃, h₇⟩ := matches_fixed.mp fits
  refine ⟨?_, fun f hf => ?_, fun f hf => ?_⟩
  · rw [opcode_eq, ho]
  · rw [funct3_eq, h₃ f hf]
  · rw [funct7_eq, h₇ f hf]

/-- A word of a row decodes to the reading of the row. -/
theorem decode_of_matches {p : Pattern} {action : Action} {format : Format} {inst : Word}
    (h : encodes p action format = true) (fits : p.Matches inst) :
    ∃ i, decode inst.toNat = some i ∧ reading inst.toNat action format = some i := by
  match action, format with
  | .lui, .upper =>
      simp only [encodes, decide_eq_true_eq] at h
      obtain ⟨ho, -, -⟩ := fields_of_matches h fits
      exact ⟨_, by rw [decode, ho]; rfl, rfl⟩
  | .auipc, .upper =>
      simp only [encodes, decide_eq_true_eq] at h
      obtain ⟨ho, -, -⟩ := fields_of_matches h fits
      exact ⟨_, by rw [decode, ho]; rfl, rfl⟩
  | .jal, .jump =>
      simp only [encodes, decide_eq_true_eq] at h
      obtain ⟨ho, -, -⟩ := fields_of_matches h fits
      exact ⟨_, by rw [decode, ho]; rfl, rfl⟩
  | .jalr, .immediate =>
      simp only [encodes, decide_eq_true_eq] at h
      obtain ⟨ho, h₃, -⟩ := fields_of_matches h fits
      exact ⟨_, by rw [decode, ho, h₃ _ rfl]; rfl, rfl⟩
  | .branch c, .branch =>
      simp only [encodes, decide_eq_true_eq] at h
      obtain ⟨ho, h₃, -⟩ := fields_of_matches h.1 fits
      exact ⟨_, by rw [decode, ho, h₃ _ rfl, h.2]; rfl, rfl⟩
  | .load width sign, .immediate =>
      simp only [encodes, decide_eq_true_eq] at h
      obtain ⟨ho, h₃, -⟩ := fields_of_matches h.1 fits
      exact ⟨_, by rw [decode, ho, h₃ _ rfl, h.2]; rfl, rfl⟩
  | .store width, .store =>
      simp only [encodes, decide_eq_true_eq] at h
      obtain ⟨ho, h₃, -⟩ := fields_of_matches h.1 fits
      exact ⟨_, by rw [decode, ho, h₃ _ rfl, h.2]; rfl, rfl⟩
  | .alu op, .immediate =>
      simp only [encodes] at h
      split at h
      · next shift =>
        simp only [decide_eq_true_eq] at h
        obtain ⟨ho, h₃, h₇⟩ := fields_of_matches h.1 fits
        refine ⟨_, by rw [decode, ho, h₃ _ rfl, h₇ _ rfl, h.2.1, h.2.2]; rfl, ?_⟩
        simp only [reading, if_pos shift]
      · next plain =>
        simp only [decide_eq_true_eq] at h
        obtain ⟨ho, h₃, -⟩ := fields_of_matches h.1 fits
        refine ⟨_, by rw [decode, ho, h₃ _ rfl, h.2]; rfl, ?_⟩
        simp only [reading, if_neg plain]
  | .alu op, .register =>
      simp only [encodes, decide_eq_true_eq] at h
      obtain ⟨ho, h₃, h₇⟩ := fields_of_matches h.1 fits
      exact ⟨_, by rw [decode, ho, h₃ _ rfl, h₇ _ rfl, h.2]; rfl, rfl⟩
  | .ebreak, .bare =>
      simp only [encodes, decide_eq_true_eq] at h
      rw [h, matches_allOnes] at fits
      rw [fits]
      exact ⟨_, rfl, rfl⟩

/-! ## Words without a row -/

/-- Some row of the table has a pattern. -/
def HasRow (p : Pattern) : Prop :=
  ∃ row ∈ encodings, row.pattern = p

instance (p : Pattern) : Decidable (HasRow p) :=
  inferInstanceAs (Decidable (∃ row ∈ encodings, row.pattern = p))

theorem hasRow_branch : ∀ f : BitVec 3, (comparison? f.toNat).isSome = true →
    HasRow (fixed 0b1100011 (some f) none) := by
  decide +kernel

theorem hasRow_load : ∀ f : BitVec 3, (loadWidth? f.toNat).isSome = true →
    HasRow (fixed 0b0000011 (some f) none) := by
  decide +kernel

theorem hasRow_store : ∀ f : BitVec 3, (storeWidth? f.toNat).isSome = true →
    HasRow (fixed 0b0100011 (some f) none) := by
  decide +kernel

theorem hasRow_immediate : ∀ f : BitVec 3, (immediateOp? f.toNat).isSome = true →
    HasRow (fixed 0b0010011 (some f) none) := by
  decide +kernel

theorem hasRow_shift : ∀ (g : BitVec 7) (f : BitVec 3), (shiftOp? g.toNat f.toNat).isSome = true →
    HasRow (fixed 0b0010011 (some f) (some g)) := by
  decide +kernel

theorem hasRow_register : ∀ (g : BitVec 7) (f : BitVec 3),
    (registerOp? g.toNat f.toNat).isSome = true →
      HasRow (fixed 0b0110011 (some f) (some g)) := by
  decide +kernel

/-- A word that decodes to something matches a row. -/
theorem matches_of_decode {inst : Word} {i : Decoded} (h : decode inst.toNat = some i) :
    ∃ p, HasRow p ∧ p.Matches inst := by
  have isOpcode : ∀ {op : BitVec 7}, opcode inst.toNat = op.toNat →
      Instruction.opcode inst = op :=
    fun ho => BitVec.eq_of_toNat_eq ((opcode_eq inst).symm.trans ho)
  have isSome : ∀ {α β : Type} {o : Option α} {f : α → β} {b : β}, o.map f = some b →
      o.isSome = true := by
    intro α β o f b ho
    cases o with
    | none => cases ho
    | some a => rfl
  have fits₀ : ∀ {op : BitVec 7}, opcode inst.toNat = op.toNat →
      (fixed op none none).Matches inst :=
    fun ho => matches_fixed.mpr ⟨isOpcode ho, nofun, nofun⟩
  have fits₃ : ∀ {op : BitVec 7}, opcode inst.toNat = op.toNat →
      (fixed op (some (Instruction.funct3 inst)) none).Matches inst :=
    fun ho => matches_fixed.mpr ⟨isOpcode ho, fun _ hf => Option.some.inj hf, nofun⟩
  have fits₇ : ∀ {op : BitVec 7}, opcode inst.toNat = op.toNat →
      (fixed op (some (Instruction.funct3 inst)) (some (Instruction.funct7 inst))).Matches inst :=
    fun ho => matches_fixed.mpr
      ⟨isOpcode ho, fun _ hf => Option.some.inj hf, fun _ hf => Option.some.inj hf⟩
  rw [decode, funct3_eq, funct7_eq] at h
  split at h
  · next ho => exact ⟨_, by decide +kernel, @fits₀ 0b0110111 ho⟩
  · next ho => exact ⟨_, by decide +kernel, @fits₀ 0b0010111 ho⟩
  · next ho => exact ⟨_, by decide +kernel, @fits₀ 0b1101111 ho⟩
  · next ho =>
    split at h
    · next hf =>
      have zero : Instruction.funct3 inst = 0 := BitVec.eq_of_toNat_eq hf
      have fits := @fits₃ 0b1100111 ho
      rw [zero] at fits
      exact ⟨_, by decide +kernel, fits⟩
    · cases h
  · next ho => exact ⟨_, hasRow_branch _ (isSome h), @fits₃ 0b1100011 ho⟩
  · next ho => exact ⟨_, hasRow_load _ (isSome h), @fits₃ 0b0000011 ho⟩
  · next ho => exact ⟨_, hasRow_store _ (isSome h), @fits₃ 0b0100011 ho⟩
  · next ho =>
    split at h
    · next op hop =>
      exact ⟨_, hasRow_immediate _ (by rw [hop]; rfl), @fits₃ 0b0010011 ho⟩
    · exact ⟨_, hasRow_shift _ _ (isSome h), @fits₇ 0b0010011 ho⟩
  · next ho => exact ⟨_, hasRow_register _ _ (isSome h), @fits₇ 0b0110011 ho⟩
  · split at h
    · next hw =>
      have word : inst = 0x00100073 := BitVec.eq_of_toNat_eq hw
      exact ⟨_, by decide +kernel, matches_allOnes.mpr word⟩
    · cases h
  · cases h

/-! ## Looking a word up -/

theorem map_mnemonic_reading (w : Nat) (action : Action) (format : Format) :
    (reading w action format).map Decoded.mnemonic =
      (reading 0 action format).map Decoded.mnemonic := by
  cases action with
  | alu op => cases op <;> cases format <;> rfl
  | branch c => cases c <;> cases format <;> rfl
  | load width sign => cases width <;> cases sign <;> cases format <;> rfl
  | store width => cases width <;> cases format <;> rfl
  | lui | auipc | jal | jalr | ebreak | invalid => cases format <;> rfl

theorem name_of_row : ∀ row ∈ encodings,
    (reading 0 row.action row.format).map Decoded.mnemonic = some row.name := by
  decide +kernel

theorem matches_catchAll (inst : Word) : catchAll.pattern.Matches inst := by
  have free : catchAll.pattern = ⟨0, 0⟩ := by
    rw [catchAll, ofText_eq rfl rfl rfl]
    rfl
  rw [free, Pattern.Matches]
  exact BitVec.and_zero

theorem lookup_concat (rows : List Row) (inst : Word) :
    lookup (rows ++ [catchAll]) inst =
      (rows.find? fun row => decide (row.pattern.Matches inst)).or (some catchAll) := by
  rw [lookup, List.find?_append, List.find?_singleton, if_pos (by simpa using matches_catchAll inst)]

/-- The row that is found for a word: the one that reads in it what it decodes to, or the last
one where it decodes to nothing. -/
theorem lookup_table (inst : Word) :
    match decode inst.toNat with
    | some i => ∃ row, lookup table inst = some row ∧
        reading inst.toNat row.action row.format = some i ∧ row.name = i.mnemonic
    | none => lookup table inst = some catchAll := by
  have found : lookup table inst =
      (encodings.find? fun row => decide (row.pattern.Matches inst)).or (some catchAll) := by
    rw [table, lookup_concat, namedRows_eq]
  cases hrow : encodings.find? fun row => decide (row.pattern.Matches inst) with
  | some row =>
      rw [hrow, Option.some_or] at found
      have mem := List.mem_of_find?_eq_some hrow
      have fits : row.pattern.Matches inst := by simpa using List.find?_some hrow
      obtain ⟨i, hi, hread⟩ := decode_of_matches (encodes_row row mem) fits
      have name := name_of_row row mem
      rw [← map_mnemonic_reading inst.toNat, hread] at name
      rw [hi]
      exact ⟨row, found, hread, (Option.some.inj name).symm⟩
  | none =>
      rw [hrow, Option.none_or] at found
      cases hi : decode inst.toNat with
      | none => exact found
      | some i =>
          obtain ⟨p, ⟨row, mem, rfl⟩, fits⟩ := matches_of_decode hi
          have missed := List.find?_eq_none.mp hrow row mem
          exact absurd fits (by simpa using missed)

end HartMonitor.Rv32i
