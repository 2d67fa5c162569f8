/-
# `HartMonitor.Proofs.Rv32i.Encoding` — decoding undoes encoding, and encoding decoding

An instruction is encoded from the bits that its row fixes and from its operands, in the
layouts of the manual (`assemble`).  For every row of the table:

    o.Fits row →                      lookup table (assemble row o) = some row
                                      disassembled row (assemble row o) = o
    lookup table w = some row →       assemble row (disassembled row w) = w

Each layout is undone by the extractors of its fields (`fields_layoutB` and its companions),
and lays out again what they extract from any word (`layoutB_fields`).  The immediate of a
word is a number in the range of its format, and the one that was laid out.  Any two rows
fix some bit differently (`clash_rows`), so a word has one row at most, and that is the one
found for it.

The immediate of a shift is no number of its own: its low five bits are the amount, and
the seven above them belong to the operation, as in the words of two source registers.
-/
import HartMonitor.Proofs.Rv32i.Decode
import Mathlib.Tactic.IntervalCases

namespace HartMonitor.Instruction

open Rv32i (toNat_append toNat_extract field)

/-! ## The layouts

The lemmas of this section go bit by bit: every bit of a field is one bit of the word. -/

def layoutR (funct7 : BitVec 7) (rs2 rs1 : RegisterNumber) (funct3 : BitVec 3)
    (rd : RegisterNumber) (opcode : BitVec 7) : Word :=
  funct7 ++ rs2 ++ rs1 ++ funct3 ++ rd ++ opcode

def layoutI (imm : BitVec 12) (rs1 : RegisterNumber) (funct3 : BitVec 3) (rd : RegisterNumber)
    (opcode : BitVec 7) : Word :=
  imm ++ rs1 ++ funct3 ++ rd ++ opcode

/-- `imm[11:5]`, the registers, `imm[4:0]`. -/
def layoutS (imm : BitVec 12) (rs2 rs1 : RegisterNumber) (funct3 : BitVec 3)
    (opcode : BitVec 7) : Word :=
  imm.extractLsb' 5 7 ++ rs2 ++ rs1 ++ funct3 ++ imm.extractLsb' 0 5 ++ opcode

/-- `imm[12|10:5]`, the registers, `imm[4:1|11]`. -/
def layoutB (imm : BitVec 13) (rs2 rs1 : RegisterNumber) (funct3 : BitVec 3)
    (opcode : BitVec 7) : Word :=
  imm.extractLsb' 12 1 ++ imm.extractLsb' 5 6 ++ rs2 ++ rs1 ++ funct3 ++ imm.extractLsb' 1 4
    ++ imm.extractLsb' 11 1 ++ opcode

def layoutU (imm : BitVec 20) (rd : RegisterNumber) (opcode : BitVec 7) : Word :=
  imm ++ rd ++ opcode

/-- `imm[20|10:1|11|19:12]`. -/
def layoutJ (imm : BitVec 21) (rd : RegisterNumber) (opcode : BitVec 7) : Word :=
  imm.extractLsb' 20 1 ++ imm.extractLsb' 1 10 ++ imm.extractLsb' 11 1 ++ imm.extractLsb' 12 8
    ++ rd ++ opcode

/-- The offset of a branch in bytes, as a word has it. -/
def offsetB (w : Word) : BitVec 13 :=
  w.extractLsb' 31 1 ++ w.extractLsb' 7 1 ++ w.extractLsb' 25 6 ++ w.extractLsb' 8 4 ++ 0#1

/-- The offset of a jump in bytes, as a word has it. -/
def offsetJ (w : Word) : BitVec 21 :=
  w.extractLsb' 31 1 ++ w.extractLsb' 12 8 ++ w.extractLsb' 20 1 ++ w.extractLsb' 21 10 ++ 0#1

section Layout
variable (f₇ : BitVec 7) (f₃ : BitVec 3) (op : BitVec 7) (r₂ r₁ r : RegisterNumber)

theorem fields_layoutR :
    let w := layoutR f₇ r₂ r₁ f₃ r op
    opcode w = op ∧ funct3 w = f₃ ∧ funct7 w = f₇ ∧ rd w = r ∧ rs1 w = r₁ ∧ rs2 w = r₂ := by
  refine ⟨?_, ?_, ?_, ?_, ?_, ?_⟩ <;> refine BitVec.eq_of_getLsbD_eq fun i hi => ?_ <;>
    simp only [opcode, funct3, funct7, rd, rs1, rs2, layoutR, BitVec.getLsbD_append,
      BitVec.getLsbD_extractLsb'] <;> interval_cases i <;> simp

theorem fields_layoutI (imm : BitVec 12) :
    let w := layoutI imm r₁ f₃ r op
    opcode w = op ∧ funct3 w = f₃ ∧ rd w = r ∧ rs1 w = r₁ ∧ w.extractLsb' 20 12 = imm := by
  refine ⟨?_, ?_, ?_, ?_, ?_⟩ <;> refine BitVec.eq_of_getLsbD_eq fun i hi => ?_ <;>
    simp only [opcode, funct3, rd, rs1, layoutI, BitVec.getLsbD_append,
      BitVec.getLsbD_extractLsb'] <;> interval_cases i <;> simp

theorem fields_layoutS (imm : BitVec 12) :
    let w := layoutS imm r₂ r₁ f₃ op
    opcode w = op ∧ funct3 w = f₃ ∧ rs1 w = r₁ ∧ rs2 w = r₂ ∧
      w.extractLsb' 25 7 ++ w.extractLsb' 7 5 = imm := by
  refine ⟨?_, ?_, ?_, ?_, ?_⟩ <;> refine BitVec.eq_of_getLsbD_eq fun i hi => ?_ <;>
    simp only [opcode, funct3, rs1, rs2, layoutS, BitVec.getLsbD_append,
      BitVec.getLsbD_extractLsb'] <;> interval_cases i <;> simp

/-- A branch has no place for bit zero of its offset. -/
theorem fields_layoutB (offset : BitVec 13) (even : offset[0] = false) :
    let w := layoutB offset r₂ r₁ f₃ op
    opcode w = op ∧ funct3 w = f₃ ∧ rs1 w = r₁ ∧ rs2 w = r₂ ∧ offsetB w = offset := by
  refine ⟨?_, ?_, ?_, ?_, ?_⟩ <;> refine BitVec.eq_of_getLsbD_eq fun i hi => ?_ <;>
    simp only [opcode, funct3, rs1, rs2, offsetB, layoutB, BitVec.getLsbD_append,
      BitVec.getLsbD_extractLsb'] <;> interval_cases i <;> simp [even]

theorem fields_layoutU (imm : BitVec 20) :
    let w := layoutU imm r op
    opcode w = op ∧ rd w = r ∧ w.extractLsb' 12 20 = imm := by
  refine ⟨?_, ?_, ?_⟩ <;> refine BitVec.eq_of_getLsbD_eq fun i hi => ?_ <;>
    simp only [opcode, rd, layoutU, BitVec.getLsbD_append,
      BitVec.getLsbD_extractLsb'] <;> interval_cases i <;> simp

/-- A jump has no place for bit zero of its offset. -/
theorem fields_layoutJ (offset : BitVec 21) (even : offset[0] = false) :
    let w := layoutJ offset r op
    opcode w = op ∧ rd w = r ∧ offsetJ w = offset := by
  refine ⟨?_, ?_, ?_⟩ <;> refine BitVec.eq_of_getLsbD_eq fun i hi => ?_ <;>
    simp only [opcode, rd, offsetJ, layoutJ, BitVec.getLsbD_append,
      BitVec.getLsbD_extractLsb'] <;> interval_cases i <;> simp [even]

end Layout

section Fields
variable (w : Word)

theorem layoutR_fields :
    layoutR (funct7 w) (rs2 w) (rs1 w) (funct3 w) (rd w) (opcode w) = w := by
  refine BitVec.eq_of_getLsbD_eq fun i hi => ?_
  simp only [opcode, funct3, funct7, rd, rs1, rs2, layoutR, BitVec.getLsbD_append,
    BitVec.getLsbD_extractLsb']
  interval_cases i <;> simp

theorem layoutI_fields :
    layoutI (w.extractLsb' 20 12) (rs1 w) (funct3 w) (rd w) (opcode w) = w := by
  refine BitVec.eq_of_getLsbD_eq fun i hi => ?_
  simp only [opcode, funct3, rd, rs1, layoutI, BitVec.getLsbD_append, BitVec.getLsbD_extractLsb']
  interval_cases i <;> simp

theorem layoutS_fields :
    layoutS (w.extractLsb' 25 7 ++ w.extractLsb' 7 5) (rs2 w) (rs1 w) (funct3 w) (opcode w) =
      w := by
  refine BitVec.eq_of_getLsbD_eq fun i hi => ?_
  simp only [opcode, funct3, rs1, rs2, layoutS, BitVec.getLsbD_append, BitVec.getLsbD_extractLsb']
  interval_cases i <;> simp

theorem layoutB_fields : layoutB (offsetB w) (rs2 w) (rs1 w) (funct3 w) (opcode w) = w := by
  refine BitVec.eq_of_getLsbD_eq fun i hi => ?_
  simp only [opcode, funct3, rs1, rs2, offsetB, layoutB, BitVec.getLsbD_append,
    BitVec.getLsbD_extractLsb']
  interval_cases i <;> simp

theorem layoutU_fields : layoutU (w.extractLsb' 12 20) (rd w) (opcode w) = w := by
  refine BitVec.eq_of_getLsbD_eq fun i hi => ?_
  simp only [opcode, rd, layoutU, BitVec.getLsbD_append, BitVec.getLsbD_extractLsb']
  interval_cases i <;> simp

theorem layoutJ_fields : layoutJ (offsetJ w) (rd w) (opcode w) = w := by
  refine BitVec.eq_of_getLsbD_eq fun i hi => ?_
  simp only [opcode, rd, offsetJ, layoutJ, BitVec.getLsbD_append, BitVec.getLsbD_extractLsb']
  interval_cases i <;> simp

end Fields

/-! ## Immediates -/

section Immediate
variable (w : Word)

theorem ofInt_even {bits : Nat} {x : Int} (even : x % 2 = 0) :
    (BitVec.ofInt (bits + 1) x)[0] = false := by
  have low : x % 2 ^ (bits + 1) % 2 = x % 2 :=
    Int.emod_emod_of_dvd x (dvd_pow_self 2 (Nat.succ_ne_zero bits))
  rw [BitVec.getElem_eq_testBit_toNat, Nat.testBit_zero, BitVec.toNat_ofInt]
  push_cast
  refine decide_eq_false ?_
  omega

/-- A vector that is doubled is one of twice the number. -/
theorem toInt_append_zero {bits : Nat} (x : BitVec bits) : (x ++ 0#1).toInt = 2 * x.toInt := by
  rw [Rv32i.toInt_eq_signed, Rv32i.toInt_eq_signed, ← Rv32i.signed_double, Rv32i.toNat_append]
  congr 1
  simp [Nat.mul_comm]

theorem toInt_bounds {n : Nat} (x : BitVec (n + 1)) :
    -2 ^ n ≤ x.toInt ∧ x.toInt < 2 ^ n :=
  ⟨x.le_toInt, x.toInt_lt⟩

theorem toInt_immI : (immI w).toInt = (w.extractLsb' 20 12).toInt :=
  BitVec.toInt_signExtend_of_le (by decide)

theorem toInt_immS : (immS w).toInt = (w.extractLsb' 25 7 ++ w.extractLsb' 7 5).toInt :=
  BitVec.toInt_signExtend_of_le (by decide)

theorem two_mul_toInt_immB : 2 * (immB w).toInt = (offsetB w).toInt := by
  rw [immB, BitVec.toInt_signExtend_of_le (by decide), offsetB, toInt_append_zero]

theorem two_mul_toInt_immJ : 2 * (immJ w).toInt = (offsetJ w).toInt := by
  rw [immJ, BitVec.toInt_signExtend_of_le (by decide), offsetJ, toInt_append_zero]

theorem toNat_immU : (immU w).toNat = (w.extractLsb' 12 20).toNat * 2 ^ 12 := by
  rw [immU, Rv32i.toNat_append, BitVec.toNat_ofNat, Nat.zero_mod, Nat.add_zero]

theorem toNat_immI_mod : (immI w).toNat % 32 = (rs2 w).toNat := by
  have low : (immI w).extractLsb' 0 5 = rs2 w := by
    refine BitVec.eq_of_getLsbD_eq fun i hi => ?_
    simp only [immI, rs2, BitVec.getLsbD_extractLsb', BitVec.getLsbD_signExtend]
    interval_cases i <;> simp
  rw [← low, Rv32i.toNat_extract, Rv32i.field, Nat.pow_zero, Nat.div_one]
  rfl

end Immediate

/-! ## Instructions -/

/-- The operands of an instruction as they are written.  Offsets count bytes. -/
inductive Written where
  | immediate (rd rs1 : RegisterNumber) (imm : Int)
  | shift (rd rs1 : RegisterNumber) (amount : Nat)
  | store (rs1 rs2 : RegisterNumber) (imm : Int)
  | branch (rs1 rs2 : RegisterNumber) (offset : Int)
  | upper (rd : RegisterNumber) (imm : Nat)
  | jump (rd : RegisterNumber) (offset : Int)
  | register (rd rs1 rs2 : RegisterNumber)
  | bare
deriving DecidableEq, Repr

def Row.isShift (row : Row) : Bool := ["slli", "srli", "srai"].contains row.name

/-- Operands that an instruction of the row can be written with. -/
inductive Written.Fits (row : Row) : Written → Prop
  | immediate {rd rs1 : RegisterNumber} {imm : Int} : row.format = .immediate →
      row.isShift = false → -2048 ≤ imm → imm ≤ 2047 → Fits row (.immediate rd rs1 imm)
  | shift {rd rs1 : RegisterNumber} {amount : Nat} : row.format = .immediate →
      row.isShift = true → amount ≤ 31 → Fits row (.shift rd rs1 amount)
  | store {rs1 rs2 : RegisterNumber} {imm : Int} : row.format = .store → -2048 ≤ imm →
      imm ≤ 2047 → Fits row (.store rs1 rs2 imm)
  | branch {rs1 rs2 : RegisterNumber} {offset : Int} : row.format = .branch →
      offset % 2 = 0 → -4096 ≤ offset → offset ≤ 4094 → Fits row (.branch rs1 rs2 offset)
  | upper {rd : RegisterNumber} {imm : Nat} : row.format = .upper → imm < 2 ^ 20 →
      Fits row (.upper rd imm)
  | jump {rd : RegisterNumber} {offset : Int} : row.format = .jump → offset % 2 = 0 →
      -2 ^ 20 ≤ offset → offset ≤ 2 ^ 20 - 2 → Fits row (.jump rd offset)
  | register {rd rs1 rs2 : RegisterNumber} : row.format = .register →
      Fits row (.register rd rs1 rs2)
  | bare : row.format = .bare → Fits row .bare

/-- The word of an instruction: the bits that the row fixes and the operands, laid out. -/
def assemble (row : Row) (o : Written) : Word :=
  let fixed := row.pattern.expected
  match o with
  | .immediate rd rs1 imm => layoutI (BitVec.ofInt 12 imm) rs1 (funct3 fixed) rd (opcode fixed)
  | .shift rd rs1 amount =>
    layoutR (funct7 fixed) (BitVec.ofNat 5 amount) rs1 (funct3 fixed) rd (opcode fixed)
  | .store rs1 rs2 imm => layoutS (BitVec.ofInt 12 imm) rs2 rs1 (funct3 fixed) (opcode fixed)
  | .branch rs1 rs2 offset =>
    layoutB (BitVec.ofInt 13 offset) rs2 rs1 (funct3 fixed) (opcode fixed)
  | .upper rd imm => layoutU (BitVec.ofNat 20 imm) rd (opcode fixed)
  | .jump rd offset => layoutJ (BitVec.ofInt 21 offset) rd (opcode fixed)
  | .register rd rs1 rs2 => layoutR (funct7 fixed) rs2 rs1 (funct3 fixed) rd (opcode fixed)
  | .bare => fixed

/-- What the extractors read in a word for a row: immediates with their sign, offsets from
halfwords, the amount of a shift from the low five bits of the immediate. -/
def disassembled (row : Row) (w : Word) : Written :=
  match row.format with
  | .immediate =>
    if row.isShift then .shift (rd w) (rs1 w) ((immI w).toNat % 32)
    else .immediate (rd w) (rs1 w) (immI w).toInt
  | .store => .store (rs1 w) (rs2 w) (immS w).toInt
  | .branch => .branch (rs1 w) (rs2 w) (2 * (immB w).toInt)
  | .upper => .upper (rd w) ((immU w).toNat / 2 ^ 12)
  | .jump => .jump (rd w) (2 * (immJ w).toInt)
  | .register => .register (rd w) (rs1 w) (rs2 w)
  | .bare => .bare

/-- Decoded operands are what the written ones say, the sources having their values in a register
file: immediates are extended by their sign, offsets halved. -/
def Written.Gives (regs : Registers) : Written → Operands → Prop
  | .immediate rd rs1 imm, d => d = ⟨rd, regs.read rs1, 0, BitVec.ofInt 32 imm⟩
  | .shift rd rs1 amount, d =>
    d.rd = rd ∧ d.src1 = regs.read rs1 ∧ d.src2 = 0 ∧ d.imm.toNat % 32 = amount
  | .store rs1 rs2 imm, d =>
    d.src1 = regs.read rs1 ∧ d.src2 = regs.read rs2 ∧ d.imm = BitVec.ofInt 32 imm
  | .branch rs1 rs2 offset, d =>
    d.src1 = regs.read rs1 ∧ d.src2 = regs.read rs2 ∧ d.imm = BitVec.ofInt 32 (offset / 2)
  | .upper rd imm, d => d = ⟨rd, 0, 0, BitVec.ofNat 32 (imm * 2 ^ 12)⟩
  | .jump rd offset, d => d = ⟨rd, 0, 0, BitVec.ofInt 32 (offset / 2)⟩
  | .register rd rs1 rs2, d => d = ⟨rd, regs.read rs1, regs.read rs2, 0⟩
  | .bare, d => d.src1 = 0 ∧ d.src2 = 0 ∧ d.imm = 0

theorem gives_disassembled (regs : Registers) (row : Row) (w : Word) :
    (disassembled row w).Gives regs (operands row.format regs w) := by
  -- offsets are written in bytes, and decoded in halfwords
  have halved : ∀ x : Word, BitVec.ofInt 32 (2 * x.toInt / 2) = x := by
    intro x
    rw [Int.mul_ediv_cancel_left _ (by decide), BitVec.ofInt_toInt]
  cases h : row.format with
  | immediate =>
      cases shift : row.isShift with
      | true =>
          simp only [disassembled, h, shift]
          exact ⟨rfl, rfl, rfl, rfl⟩
      | false =>
          simp only [disassembled, h, shift, Bool.false_eq_true, if_false, Written.Gives,
            BitVec.ofInt_toInt]
          rfl
  | store =>
      simp only [disassembled, h, Written.Gives, BitVec.ofInt_toInt]
      exact ⟨rfl, rfl, rfl⟩
  | branch =>
      simp only [disassembled, h, Written.Gives, halved]
      exact ⟨rfl, rfl, rfl⟩
  | upper =>
      have whole : (immU w).toNat / 2 ^ 12 * 2 ^ 12 = (immU w).toNat := by
        rw [toNat_immU, Nat.mul_div_cancel _ (Nat.two_pow_pos 12)]
      simp only [disassembled, h, Written.Gives, whole, BitVec.ofNat_toNat, BitVec.setWidth_eq]
      rfl
  | jump =>
      simp only [disassembled, h, Written.Gives, halved]
      rfl
  | register => simp only [disassembled, h]; rfl
  | bare => simp only [disassembled, h]; exact ⟨rfl, rfl, rfl⟩

theorem fits_disassembled (row : Row) (w : Word) : (disassembled row w).Fits row := by
  cases h : row.format with
  | immediate =>
      cases shift : row.isShift with
      | true =>
          simp only [disassembled, h, shift, if_true]
          exact .shift h shift (Nat.le_of_lt_succ (Nat.mod_lt _ (by decide)))
      | false =>
          have bounds := toInt_bounds (n := 11) (w.extractLsb' 20 12)
          simp only [disassembled, h, shift, Bool.false_eq_true, if_false, toInt_immI]
          exact .immediate h shift (by omega) (by omega)
  | store =>
      have bounds := toInt_bounds (n := 11) (w.extractLsb' 25 7 ++ w.extractLsb' 7 5)
      simp only [disassembled, h, toInt_immS]
      exact .store h (by omega) (by omega)
  | branch =>
      have bounds := toInt_bounds (n := 12) (offsetB w)
      have double := two_mul_toInt_immB w
      simp only [disassembled, h]
      exact .branch h (by omega) (by omega) (by omega)
  | upper =>
      have bound := (w.extractLsb' 12 20).isLt
      simp only [disassembled, h, toNat_immU]
      exact .upper h (by omega)
  | jump =>
      have bounds := toInt_bounds (n := 20) (offsetJ w)
      have double := two_mul_toInt_immJ w
      simp only [disassembled, h]
      exact .jump h (by omega) (by omega) (by omega)
  | register => simp only [disassembled, h]; exact .register h
  | bare => simp only [disassembled, h]; exact .bare h

theorem disassembled_assemble {row : Row} {o : Written} (fits : o.Fits row) :
    disassembled row (assemble row o) = o := by
  cases fits with
  | @immediate r r₁ imm h plain low high =>
      -- twelve bits hold an immediate of the range, with its sign
      obtain ⟨-, -, hr, hr₁, himm⟩ := fields_layoutI (funct3 row.pattern.expected)
        (opcode row.pattern.expected) r₁ r (BitVec.ofInt 12 imm)
      simp only [disassembled, h, plain, assemble, Bool.false_eq_true, if_false, toInt_immI]
      rw [hr, hr₁, himm, BitVec.toInt_ofInt_eq_self (by decide) (by omega) (by omega)]
  | @shift r r₁ amount h shift high =>
      obtain ⟨-, -, -, hr, hr₁, hr₂⟩ := fields_layoutR (funct7 row.pattern.expected)
        (funct3 row.pattern.expected) (opcode row.pattern.expected) (BitVec.ofNat 5 amount) r₁ r
      simp only [disassembled, h, shift, assemble, if_true, toNat_immI_mod]
      rw [hr, hr₁, hr₂, BitVec.toNat_ofNat, Nat.mod_eq_of_lt (by omega)]
  | @store r₁ r₂ imm h low high =>
      obtain ⟨-, -, hr₁, hr₂, himm⟩ := fields_layoutS (funct3 row.pattern.expected)
        (opcode row.pattern.expected) r₂ r₁ (BitVec.ofInt 12 imm)
      simp only [disassembled, h, assemble, toInt_immS]
      rw [hr₁, hr₂, himm, BitVec.toInt_ofInt_eq_self (by decide) (by omega) (by omega)]
  | @branch r₁ r₂ offset h even low high =>
      obtain ⟨-, -, hr₁, hr₂, hoffset⟩ := fields_layoutB (funct3 row.pattern.expected)
        (opcode row.pattern.expected) r₂ r₁ (BitVec.ofInt 13 offset) (ofInt_even even)
      simp only [disassembled, h, assemble, two_mul_toInt_immB]
      rw [hr₁, hr₂, hoffset, BitVec.toInt_ofInt_eq_self (by decide) (by omega) (by omega)]
  | @upper r imm h high =>
      obtain ⟨-, hr, himm⟩ := fields_layoutU (opcode row.pattern.expected) r (BitVec.ofNat 20 imm)
      simp only [disassembled, h, assemble, toNat_immU]
      rw [hr, himm, Nat.mul_div_cancel _ (Nat.two_pow_pos 12), BitVec.toNat_ofNat,
        Nat.mod_eq_of_lt high]
  | @jump r offset h even low high =>
      obtain ⟨-, hr, hoffset⟩ := fields_layoutJ (opcode row.pattern.expected) r
        (BitVec.ofInt 21 offset) (ofInt_even even)
      simp only [disassembled, h, assemble, two_mul_toInt_immJ]
      rw [hr, hoffset, BitVec.toInt_ofInt_eq_self (by decide) (by omega) (by omega)]
  | @register r r₁ r₂ h =>
      obtain ⟨-, -, -, hr, hr₁, hr₂⟩ := fields_layoutR (funct7 row.pattern.expected)
        (funct3 row.pattern.expected) (opcode row.pattern.expected) r₂ r₁ r
      simp only [disassembled, h, assemble]
      rw [hr, hr₁, hr₂]
  | bare h => simp only [disassembled, h]

/-! ## The rows -/

/-- What a pattern fixes in words of a format; the second flag is whether they are shifts. -/
def shape (fixed : Word) : Format → Bool → Pattern
  | .upper, _ | .jump, _ => Rv32i.fixed (opcode fixed) none none
  | .store, _ | .branch, _ | .immediate, false =>
    Rv32i.fixed (opcode fixed) (some (funct3 fixed)) none
  | .register, _ | .immediate, true =>
    Rv32i.fixed (opcode fixed) (some (funct3 fixed)) (some (funct7 fixed))
  | .bare, _ => ⟨BitVec.allOnes 32, fixed⟩

section Operation
variable {op : BitVec 7} {f₃ : BitVec 3} {f₇ : BitVec 7} {w : Word}

theorem matches_operation : (Rv32i.fixed op none none).Matches w ↔ opcode w = op := by
  simp [Rv32i.matches_fixed]

theorem matches_operation₃ :
    (Rv32i.fixed op (some f₃) none).Matches w ↔ opcode w = op ∧ funct3 w = f₃ := by
  simp [Rv32i.matches_fixed]

theorem matches_operation₇ : (Rv32i.fixed op (some f₃) (some f₇)).Matches w ↔
    opcode w = op ∧ funct3 w = f₃ ∧ funct7 w = f₇ := by
  simp [Rv32i.matches_fixed]

end Operation

theorem pattern_row : ∀ row ∈ Rv32i.encodings,
    row.pattern = shape row.pattern.expected row.format row.isShift := by
  decide +kernel

theorem matches_assemble {row : Row} {o : Written} (mem : row ∈ Rv32i.encodings)
    (fits : o.Fits row) : row.pattern.Matches (assemble row o) := by
  rw [pattern_row row mem]
  cases fits with
  | immediate h plain _ _ =>
      obtain ⟨hop, h₃, -⟩ := fields_layoutI (funct3 row.pattern.expected)
        (opcode row.pattern.expected) _ _ _
      rw [h, plain]
      exact matches_operation₃.mpr ⟨hop, h₃⟩
  | shift h shift _ =>
      obtain ⟨hop, h₃, h₇, -⟩ := fields_layoutR (funct7 row.pattern.expected)
        (funct3 row.pattern.expected) (opcode row.pattern.expected) _ _ _
      rw [h, shift]
      exact matches_operation₇.mpr ⟨hop, h₃, h₇⟩
  | store h _ _ =>
      obtain ⟨hop, h₃, -⟩ := fields_layoutS (funct3 row.pattern.expected)
        (opcode row.pattern.expected) _ _ _
      rw [h]
      exact matches_operation₃.mpr ⟨hop, h₃⟩
  | branch h even _ _ =>
      obtain ⟨hop, h₃, -⟩ := fields_layoutB (funct3 row.pattern.expected)
        (opcode row.pattern.expected) _ _ _ (ofInt_even even)
      rw [h]
      exact matches_operation₃.mpr ⟨hop, h₃⟩
  | upper h _ =>
      obtain ⟨hop, -⟩ := fields_layoutU (opcode row.pattern.expected) _ _
      rw [h]
      exact matches_operation.mpr hop
  | jump h even _ _ =>
      obtain ⟨hop, -⟩ := fields_layoutJ (opcode row.pattern.expected) _ _ (ofInt_even even)
      rw [h]
      exact matches_operation.mpr hop
  | register h =>
      obtain ⟨hop, h₃, h₇, -⟩ := fields_layoutR (funct7 row.pattern.expected)
        (funct3 row.pattern.expected) (opcode row.pattern.expected) _ _ _
      rw [h]
      exact matches_operation₇.mpr ⟨hop, h₃, h₇⟩
  | bare h =>
      rw [h]
      exact BitVec.and_allOnes

theorem assemble_disassembled {row : Row} {w : Word} (mem : row ∈ Rv32i.encodings)
    (fits : row.pattern.Matches w) : assemble row (disassembled row w) = w := by
  rw [pattern_row row mem] at fits
  cases h : row.format with
  | immediate =>
      cases shift : row.isShift with
      | true =>
          rw [h, shift] at fits
          obtain ⟨hop, h₃, h₇⟩ := matches_operation₇.mp fits
          simp only [disassembled, h, shift, if_true, assemble, toNat_immI_mod, BitVec.ofNat_toNat,
            BitVec.setWidth_eq]
          rw [← hop, ← h₃, ← h₇, layoutR_fields]
      | false =>
          rw [h, shift] at fits
          obtain ⟨hop, h₃⟩ := matches_operation₃.mp fits
          simp only [disassembled, h, shift, Bool.false_eq_true, if_false, assemble, toInt_immI,
            BitVec.ofInt_toInt]
          rw [← hop, ← h₃, layoutI_fields]
  | store =>
      rw [h] at fits
      obtain ⟨hop, h₃⟩ := matches_operation₃.mp fits
      simp only [disassembled, h, assemble, toInt_immS, BitVec.ofInt_toInt]
      rw [← hop, ← h₃, layoutS_fields]
  | branch =>
      rw [h] at fits
      obtain ⟨hop, h₃⟩ := matches_operation₃.mp fits
      simp only [disassembled, h, assemble, two_mul_toInt_immB, BitVec.ofInt_toInt]
      rw [← hop, ← h₃, layoutB_fields]
  | upper =>
      rw [h] at fits
      simp only [disassembled, h, assemble, toNat_immU, Nat.mul_div_cancel _ (Nat.two_pow_pos 12),
        BitVec.ofNat_toNat, BitVec.setWidth_eq]
      rw [← matches_operation.mp fits, layoutU_fields]
  | jump =>
      rw [h] at fits
      simp only [disassembled, h, assemble, two_mul_toInt_immJ, BitVec.ofInt_toInt]
      rw [← matches_operation.mp fits, layoutJ_fields]
  | register =>
      rw [h] at fits
      obtain ⟨hop, h₃, h₇⟩ := matches_operation₇.mp fits
      simp only [disassembled, h, assemble]
      rw [← hop, ← h₃, ← h₇, layoutR_fields]
  | bare =>
      rw [h] at fits
      simp only [disassembled, h, assemble]
      exact (Rv32i.matches_allOnes.mp fits).symm

/-- Two patterns fix some bit differently. -/
def Clash (p q : Pattern) : Prop := p.expected &&& q.mask ≠ q.expected &&& p.mask

instance (p q : Pattern) : Decidable (Clash p q) :=
  inferInstanceAs (Decidable (_ ≠ _))

theorem Clash.not_matches {p q : Pattern} {w : Word} (clash : Clash p q) (hp : p.Matches w) :
    ¬ q.Matches w := by
  intro hq
  apply clash
  rw [← hp, ← hq, BitVec.and_assoc, BitVec.and_assoc, BitVec.and_comm p.mask]

/-- Any two rows of the table fix some bit differently. -/
theorem clash_rows : Rv32i.encodings.Pairwise fun a b => Clash a.pattern b.pattern := by
  decide +kernel

theorem lookup_eq_some_iff {row : Row} {w : Word} (mem : row ∈ namedRows) :
    lookup table w = some row ↔ row.pattern.Matches w := by
  constructor
  · intro h
    simpa using List.find?_some h
  · intro fits
    obtain ⟨before, after, split⟩ := List.append_of_mem mem
    have clash := clash_rows
    rw [← Rv32i.namedRows_eq, split, List.pairwise_append] at clash
    have missed : ∀ a ∈ before, ¬ a.pattern.Matches w := fun a ha hw =>
      (clash.2.2 a ha row List.mem_cons_self).not_matches hw fits
    -- the last row of the table stands behind all the others
    refine List.find?_eq_some_iff_append.mpr ⟨by simpa using fits, before, after ++ [catchAll],
      by rw [table, split, List.append_assoc, List.cons_append], fun a ha => ?_⟩
    simpa using missed a ha

/-- Words and instructions correspond: what is assembled for a row is found to be of that row,
and read back; and a word that is found to be of a row is assembled from what is read in it. -/
theorem decode_assemble_bijective :
    (∀ row ∈ namedRows, ∀ o : Written, o.Fits row →
      lookup table (assemble row o) = some row ∧
      disassembled row (assemble row o) = o ∧
      ∀ regs, o.Gives regs (operands row.format regs (assemble row o))) ∧
    ∀ w, ∀ row ∈ namedRows, lookup table w = some row →
      (disassembled row w).Fits row ∧ assemble row (disassembled row w) = w := by
  constructor
  · intro row mem o fits
    have there : row ∈ Rv32i.encodings := Rv32i.namedRows_eq ▸ mem
    have back := disassembled_assemble fits
    refine ⟨(lookup_eq_some_iff mem).mpr (matches_assemble there fits), back, fun regs => ?_⟩
    have gives := gives_disassembled regs row (assemble row o)
    rwa [back] at gives
  · intro w row mem found
    have there : row ∈ Rv32i.encodings := Rv32i.namedRows_eq ▸ mem
    exact ⟨fits_disassembled row w,
      assemble_disassembled there ((lookup_eq_some_iff mem).mp found)⟩

/-- A comparison of `x1` and `x2` that branches back by one instruction. -/
theorem decode_assemble_beq :
    let row : Row := ⟨"beq", Rv32i.fixed 0b1100011 (some 0) none, .branch, .branch .eq⟩
    let o : Written := .branch 1 2 (-4)
    row ∈ namedRows ∧ o.Fits row ∧ assemble row o = 0xfe208ee3#32 ∧
      (lookup table (assemble row o) = some row ∧ disassembled row (assemble row o) = o ∧
        ∀ regs, o.Gives regs (operands row.format regs (assemble row o))) ∧
      (disassembled row (assemble row o)).Fits row ∧
      assemble row (disassembled row (assemble row o)) = assemble row o := by
  intro row o
  have mem : row ∈ namedRows := by rw [Rv32i.namedRows_eq]; decide
  have fits : o.Fits row := .branch rfl (by decide) (by decide) (by decide)
  have there := decode_assemble_bijective.1 row mem o fits
  exact ⟨mem, fits, by decide +kernel, there,
    decode_assemble_bijective.2 (assemble row o) row mem there.1⟩

end HartMonitor.Instruction
