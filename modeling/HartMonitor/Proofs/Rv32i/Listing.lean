/-
# `HartMonitor.Proofs.Rv32i.Listing` — the disassembler and the decode table name one instruction

The disassembler goes by the operation fields of a word, and never looks into the decode table.
Still it lists a word as its row would have it: the mnemonic, and the operands that the row reads
there.

    lookup table w = some row      disassemble w = (disassembled row w).listed row
    lookup table w = some catchAll disassemble w = "unknown"

The one word that only the disassembler knows is a call of the environment.

An operand is listed as the executor takes it.  That of a branch or a jump is where it leads to: the
halfwords of the word, doubled without leaving the range of a word, are the bytes added to `pc`.
-/
import HartMonitor.Instruction.Disassembly
import HartMonitor.Proofs.Rv32i.Lookup
import HartMonitor.Proofs.Rv32i.Refinement
import Mathlib.Data.List.TakeWhile

namespace HartMonitor.Instruction

variable {row : Row} {w : Word}

/-! ## Written operands as text -/

def Row.isBased (row : Row) : Bool :=
  match row.action with
  | .load .. | .jalr => true
  | _ => false

def basedText (offset : Int) (r : RegisterNumber) : String :=
  toString offset ++ "(" ++ r.name ++ ")"

/-- The operands of a row in the order in which they are listed. -/
def Written.texts (row : Row) : Written → List String
  | .immediate rd rs1 imm =>
    if row.isBased then [rd.name, basedText imm rs1] else [rd.name, rs1.name, toString imm]
  | .shift rd rs1 amount => [rd.name, rs1.name, toString amount]
  | .store rs1 rs2 imm => [rs2.name, basedText imm rs1]
  | .branch rs1 rs2 offset => [rs1.name, rs2.name, toString offset]
  | .upper rd imm => [rd.name, Text.marked imm]
  | .jump rd offset => [rd.name, toString offset]
  | .register rd rs1 rs2 => [rd.name, rs1.name, rs2.name]
  | .bare => []

/-- An instruction as it is listed; a mnemonic without operands stands alone. -/
def Written.listed (row : Row) (o : Written) : String :=
  match o.texts row with
  | [] => row.name
  | texts => line row.name texts

/-- Where a machine goes that executes a word of a row, wherever its `pc` is: a jump, and a branch
whose comparison holds, leads by the written offset. -/
def Written.Leads (row : Row) (w : Word) : Written → Prop
  | .branch rs1 rs2 offset => ∃ c, row.action = .branch c ∧
      ∀ m : Machine, (m.execute row w).1.pc.toNat =
        if c.holds (m.regs.read rs1) (m.regs.read rs2) then Rv32i.wrap (m.pc.toNat + offset)
        else m.snpc.toNat
  | .jump _ offset => ∀ m : Machine,
      (m.execute row w).1.pc.toNat = Rv32i.wrap (m.pc.toNat + offset)
  | _ => True

/-! ## Words of a row -/

/-- The disassembler has the mnemonic of a row, and the shape of its operands, under the bits that
the row fixes. -/
def knows (row : Row) : Bool :=
  let op := opcode row.pattern.expected
  let f₃ := funct3 row.pattern.expected
  let f₇ := funct7 row.pattern.expected
  match row.format with
  | .immediate =>
    if row.isShift then op = 0x13 ∧ immediateMnemonic? f₃ f₇ = some (row.name, true)
    else if row.isBased then
      (op = 0x03 ∧ loadMnemonic? f₃ = some row.name) ∨ (op = 0x67 ∧ f₃ = 0 ∧ row.name = "jalr")
    else op = 0x13 ∧ ∀ g : BitVec 7, immediateMnemonic? f₃ g = some (row.name, false)
  | .store => op = 0x23 ∧ storeMnemonic? f₃ = some row.name
  | .branch => op = 0x63 ∧ branchMnemonic? f₃ = some row.name
  | .upper => (op = 0x37 ∧ row.name = "lui") ∨ (op = 0x17 ∧ row.name = "auipc")
  | .jump => op = 0x6f ∧ row.name = "jal"
  | .register => op = 0x33 ∧ registerMnemonic? f₃ f₇ = some row.name
  | .bare => row.pattern.expected = 0x00100073 ∧ row.name = "ebreak"

theorem knows_row : ∀ row ∈ Rv32i.encodings, knows row = true := by
  decide +kernel

theorem toInt_mul_two {x : Word} (low : -2 ^ 31 ≤ 2 * x.toInt) (high : 2 * x.toInt < 2 ^ 31) :
    (x * 2).toInt = 2 * x.toInt := by
  rw [BitVec.toInt_mul, Int.mul_comm]
  exact Int.bmod_eq_of_le (by simpa using low) (by simpa using high)

theorem byteOffset_immB (w : Word) : byteOffset (immB w) = toString (2 * (immB w).toInt) := by
  have double := two_mul_toInt_immB w
  have bounds := toInt_bounds (n := 12) (offsetB w)
  rw [byteOffset, toInt_mul_two (by omega) (by omega)]

theorem byteOffset_immJ (w : Word) : byteOffset (immJ w) = toString (2 * (immJ w).toInt) := by
  have double := two_mul_toInt_immJ w
  have bounds := toInt_bounds (n := 20) (offsetJ w)
  rw [byteOffset, toInt_mul_two (by omega) (by omega)]

theorem upperText_eq (w : Word) : upperText w = Text.marked ((immU w).toNat / 2 ^ 12) := by
  rw [upperText, toNat_immU, Nat.mul_div_cancel _ (Nat.two_pow_pos 12)]

theorem disassemble?_of_immediate (mem : row ∈ Rv32i.encodings) (fits : row.pattern.Matches w)
    (h : row.format = .immediate) : disassemble? w = some ((disassembled row w).listed row) := by
  have known := knows_row row mem
  rw [pattern_row row mem, h] at fits
  simp only [knows, h] at known
  cases shift : row.isShift with
  | true =>
      simp only [shift, if_true, decide_eq_true_eq] at known
      rw [shift] at fits
      obtain ⟨hop, h₃, h₇⟩ := matches_operation₇.mp fits
      rw [disassemble?, hop, known.1]
      change (immediateMnemonic? (funct3 w) (funct7 w)).map _ = _
      rw [h₃, h₇, known.2]
      simp only [disassembled, h, shift, toNat_immI_mod]
      rfl
  | false =>
      simp only [shift, Bool.false_eq_true, if_false] at known
      rw [shift] at fits
      obtain ⟨hop, h₃⟩ := matches_operation₃.mp fits
      simp only [disassembled, h, shift, Written.listed, Written.texts]
      cases based : row.isBased with
      | true =>
          simp only [based, if_true, decide_eq_true_eq] at known
          obtain ⟨load, name⟩ | ⟨jalr, zero, name⟩ := known
          · rw [disassemble?, hop, load]
            change (loadMnemonic? (funct3 w)).map _ = _
            rw [h₃, name]
            rfl
          · rw [disassemble?, hop, jalr, name]
            exact if_pos (h₃.trans zero)
      | false =>
          simp only [based, Bool.false_eq_true, if_false, decide_eq_true_eq] at known
          rw [disassemble?, hop, known.1]
          change (immediateMnemonic? (funct3 w) (funct7 w)).map _ = _
          rw [h₃, known.2]
          rfl

theorem disassemble?_of_matches (mem : row ∈ Rv32i.encodings) (fits : row.pattern.Matches w) :
    disassemble? w = some ((disassembled row w).listed row) := by
  have known := knows_row row mem
  have fields := fits
  rw [pattern_row row mem] at fields
  cases h : row.format with
  | immediate => exact disassemble?_of_immediate mem fits h
  | store =>
      simp only [knows, h, decide_eq_true_eq] at known
      rw [h] at fields
      obtain ⟨hop, h₃⟩ := matches_operation₃.mp fields
      rw [disassemble?, hop, known.1]
      change (storeMnemonic? (funct3 w)).map _ = _
      rw [h₃, known.2]
      simp only [disassembled, h]
      rfl
  | branch =>
      simp only [knows, h, decide_eq_true_eq] at known
      rw [h] at fields
      obtain ⟨hop, h₃⟩ := matches_operation₃.mp fields
      rw [disassemble?, hop, known.1]
      change (branchMnemonic? (funct3 w)).map _ = _
      rw [h₃, known.2, byteOffset_immB]
      simp only [disassembled, h]
      rfl
  | upper =>
      simp only [knows, h, decide_eq_true_eq] at known
      rw [h] at fields
      have hop := matches_operation.mp fields
      simp only [disassembled, h, Written.listed, Written.texts, ← upperText_eq]
      obtain ⟨lui, name⟩ | ⟨auipc, name⟩ := known
      · rw [disassemble?, hop, lui, name]; rfl
      · rw [disassemble?, hop, auipc, name]; rfl
  | jump =>
      simp only [knows, h, decide_eq_true_eq] at known
      rw [h] at fields
      have hop := matches_operation.mp fields
      simp only [disassembled, h, Written.listed, Written.texts, ← byteOffset_immJ]
      rw [disassemble?, hop, known.1, known.2]
      rfl
  | register =>
      simp only [knows, h, decide_eq_true_eq] at known
      rw [h] at fields
      obtain ⟨hop, h₃, h₇⟩ := matches_operation₇.mp fields
      rw [disassemble?, hop, known.1]
      change (registerMnemonic? (funct3 w) (funct7 w)).map _ = _
      rw [h₃, h₇, known.2]
      simp only [disassembled, h]
      rfl
  | bare =>
      simp only [knows, h, decide_eq_true_eq] at known
      rw [h] at fields
      rw [Rv32i.matches_allOnes.mp fields, known.1]
      simp only [disassembled, h, Written.listed, Written.texts, known.2]
      rfl

theorem disassemble_of_matches (mem : row ∈ Rv32i.encodings) (fits : row.pattern.Matches w) :
    disassemble w = (disassembled row w).listed row := by
  rw [disassemble, disassemble?_of_matches mem fits, Option.getD_some]

/-! ## Words without a row -/

/-- A word that encodes nothing has no text, a call of the environment aside. -/
theorem disassemble?_of_undecoded (other : w ≠ 0x00000073)
    (undecoded : Rv32i.decode w.toNat = none) : disassemble? w = none := by
  have loads : ∀ f : BitVec 3, Rv32i.loadWidth? f.toNat = none → loadMnemonic? f = none := by
    decide
  have stores : ∀ f : BitVec 3, Rv32i.storeWidth? f.toNat = none → storeMnemonic? f = none := by
    decide
  have branches : ∀ f : BitVec 3, Rv32i.comparison? f.toNat = none → branchMnemonic? f = none := by
    decide
  have registers : ∀ (f : BitVec 3) (g : BitVec 7),
      Rv32i.registerOp? g.toNat f.toNat = none → registerMnemonic? f g = none := by
    decide +kernel
  have immediates : ∀ (f : BitVec 3) (g : BitVec 7), Rv32i.immediateOp? f.toNat = none →
      Rv32i.shiftOp? g.toNat f.toNat = none → immediateMnemonic? f g = none := by
    decide +kernel
  rw [Rv32i.decode, Rv32i.opcode_eq, Rv32i.funct3_eq, Rv32i.funct7_eq] at undecoded
  rw [disassemble?]
  generalize (opcode w).toNat = op at undecoded ⊢
  split
  · rw [registers _ _ (Option.map_eq_none_iff.mp undecoded)]
    rfl
  · simp only at undecoded
    split at undecoded
    · cases undecoded
    · next missed =>
      rw [immediates _ _ missed (Option.map_eq_none_iff.mp undecoded)]
      rfl
  · rw [loads _ (Option.map_eq_none_iff.mp undecoded)]
    rfl
  · rw [stores _ (Option.map_eq_none_iff.mp undecoded)]
    rfl
  · rw [branches _ (Option.map_eq_none_iff.mp undecoded)]
    rfl
  · cases undecoded
  · cases undecoded
  · cases undecoded
  · refine if_neg fun zero => ?_
    simp only [zero] at undecoded
    cases undecoded
  · rw [if_neg other]
    refine if_neg fun ends => ?_
    simp only [ends] at undecoded
    cases undecoded
  · rfl

theorem disassemble_of_missed (other : w ≠ 0x00000073) (found : lookup table w = some catchAll) :
    disassemble w = unknownText := by
  have known := Rv32i.lookup_table w
  cases decoded : Rv32i.decode w.toNat with
  | none => rw [disassemble, disassemble?_of_undecoded other decoded, Option.getD_none]
  | some i =>
      rw [decoded] at known
      obtain ⟨row, same, read, -⟩ := known
      rw [found] at same
      cases same
      cases read

/-! ## The first word of a text -/

def mnemonicOf (text : String) : List Char := text.toList.takeWhile (· ≠ ' ')

theorem blank_notMem_name : ∀ row ∈ Rv32i.encodings, ' ' ∉ row.name.toList := by
  decide

theorem mnemonicOf_listed (mem : row ∈ Rv32i.encodings) (o : Written) :
    mnemonicOf (o.listed row) = row.name.toList := by
  have plain : ∀ c ∈ row.name.toList, decide (c ≠ ' ') = true := fun c there =>
    decide_eq_true fun blank => blank_notMem_name row mem (blank ▸ there)
  rw [mnemonicOf, Written.listed]
  split
  · exact List.takeWhile_eq_self_iff.mpr plain
  · rw [line, String.toList_append, String.toList_append, List.append_assoc,
      List.takeWhile_append_of_pos plain]
    exact List.append_nil _

theorem listed_ne {text : String} (mem : row ∈ Rv32i.encodings) (o : Written)
    (other : mnemonicOf text ∉ Rv32i.encodings.map fun row => row.name.toList) :
    o.listed row ≠ text := by
  rintro rfl
  exact other (mnemonicOf_listed mem o ▸ List.mem_map_of_mem mem)

/-! ## Where jumps lead -/

theorem action_branch (mem : row ∈ Rv32i.encodings) (h : row.format = .branch) :
    ∃ c, row.action = .branch c := by
  have encoded := Rv32i.encodes_row row mem
  rw [h] at encoded
  cases action : row.action with
  | branch c => exact ⟨c, rfl⟩
  | _ => rw [action] at encoded; cases encoded

theorem action_jump (mem : row ∈ Rv32i.encodings) (h : row.format = .jump) :
    row.action = .jal := by
  have encoded := Rv32i.encodes_row row mem
  rw [h] at encoded
  cases action : row.action with
  | jal => rfl
  | _ => rw [action] at encoded; cases encoded

theorem leads_disassembled (mem : row ∈ Rv32i.encodings) (w : Word) :
    (disassembled row w).Leads row w := by
  have bytes : ∀ x : Word, x * 2 = BitVec.ofInt 32 (2 * x.toInt) := by
    intro x
    rw [BitVec.ofInt_mul, BitVec.ofInt_toInt, BitVec.mul_comm]
    rfl
  cases h : row.format with
  | branch =>
      obtain ⟨c, action⟩ := action_branch mem h
      simp only [disassembled, h]
      refine ⟨c, action, fun m => ?_⟩
      have target : (m.relative (immB w)).toNat = Rv32i.wrap (m.pc.toNat + 2 * (immB w).toInt) :=
        Rv32i.toNat_relative (bytes (immB w))
      simp only [Machine.execute, Machine.apply, action, operands, h]
      rw [← target, ← apply_ite BitVec.toNat]
      rfl
  | jump =>
      have action := action_jump mem h
      simp only [disassembled, h]
      intro m
      simp only [Machine.execute, Machine.apply, action, operands, h]
      exact Rv32i.toNat_relative (bytes (immJ w))
  | immediate =>
      simp only [disassembled, h]
      split <;> trivial
  | store | upper | register | bare => simp only [disassembled, h, Written.Leads]

/-- Apart from the call of the environment, a word has no text exactly where the table has no
instruction for it.  Otherwise it is listed by the name of its row, with the operands that a machine
takes from it: the registers by their names, immediates and amounts as they are used, and offsets
as they lead from `pc`. -/
theorem disassembly_agrees_with_table (other : w ≠ 0x00000073) :
    (disassemble w = unknownText ↔ lookup table w = some catchAll) ∧
    ∀ row, lookup table w = some row → row ≠ catchAll →
      ∃ o : Written, o.Fits row ∧ disassemble w = o.listed row ∧
        (∀ regs, o.Gives regs (operands row.format regs w)) ∧ o.Leads row w := by
  obtain ⟨row, mem, fits, found⟩ | ⟨-, found⟩ := lookup_table_cases w
  · have there : row ∈ Rv32i.encodings := Rv32i.namedRows_eq ▸ mem
    have text := disassemble_of_matches there fits
    constructor
    · rw [text, found]
      refine iff_of_false (listed_ne there _ (by decide)) fun same => ?_
      cases same
      exact action_ne_invalid _ mem rfl
    · intro row' found' _
      obtain rfl : row = row' := Option.some.inj (found.symm.trans found')
      exact ⟨disassembled row w, fits_disassembled row w, text,
        fun regs => gives_disassembled regs row w, leads_disassembled there w⟩
  · refine ⟨iff_of_true (disassemble_of_missed other found) found, fun row found' named => ?_⟩
    exact absurd (Option.some.inj (found'.symm.trans found)) named

/-- A branch back by one instruction, and a word that differs from it in one bit and is none. -/
theorem disassembly_agrees_with_table_beq :
    let row : Row := ⟨"beq", Rv32i.fixed 0b1100011 (some 0) none, .branch, .branch .eq⟩
    disassemble 0xfe208ee3 = "beq ra, sp, -4" ∧ lookup table 0xfe208ee3 = some row ∧
      (∃ o : Written, o.Fits row ∧ "beq ra, sp, -4" = o.listed row ∧
        (∀ regs, o.Gives regs (operands row.format regs 0xfe208ee3)) ∧ o.Leads row 0xfe208ee3) ∧
      disassemble 0xfe20aee3 = unknownText ∧ lookup table 0xfe20aee3 = some catchAll := by
  intro row
  have mem : row ∈ namedRows := by rw [Rv32i.namedRows_eq]; decide
  have text : disassemble 0xfe208ee3 = "beq ra, sp, -4" := by decide
  have found : lookup table 0xfe208ee3 = some row := (lookup_eq_some_iff mem).mpr (by decide)
  have unknown : disassemble 0xfe20aee3 = unknownText := by decide
  have listed := (disassembly_agrees_with_table (by decide)).2 row found (by decide)
  rw [text] at listed
  exact ⟨text, found, listed, unknown, (disassembly_agrees_with_table (by decide)).1.mp unknown⟩

end HartMonitor.Instruction
