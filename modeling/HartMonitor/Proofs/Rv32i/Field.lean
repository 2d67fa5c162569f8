/-
# `HartMonitor.Proofs.Rv32i.Field` — fields and immediates as numbers

A field of a word is a quotient and a remainder of its number (`toNat_extract`).  An
immediate is extended to a word as the integer that its bits are in two's complement
(`immI_eq` and its companions); the offset of a branch or a jump, which the word holds
in halfwords, is half of the one in bytes.
-/
import HartMonitor.Instruction.Field
import HartMonitor.Proofs.Rv32i.Hart

namespace HartMonitor.Rv32i

/-! ## Words and integers -/

theorem toNat_extract {width : Nat} (x : BitVec width) (low bits : Nat) :
    (x.extractLsb' low bits).toNat = field x.toNat low bits := by
  rw [BitVec.extractLsb'_toNat, Nat.shiftRight_eq_div_pow, field]

theorem toInt_eq_signed {bits : Nat} (x : BitVec bits) : x.toInt = signed bits x.toNat := by
  rw [BitVec.toInt_eq_toNat_cond, signed]
  push_cast
  rfl

theorem toNat_ofInt (x : Int) : (BitVec.ofInt 32 x).toNat = wrap x := by
  rw [BitVec.toNat_ofInt, wrap]
  rfl

theorem toNat_add_ofInt (a : Word) (x : Int) :
    (a + BitVec.ofInt 32 x).toNat = wrap (a.toNat + x) := by
  have whole : BitVec.ofInt 32 (a.toNat + x) = a + BitVec.ofInt 32 x := by
    rw [BitVec.ofInt_add, BitVec.ofInt_natCast, BitVec.ofNat_toNat, BitVec.setWidth_eq]
  rw [← whole, toNat_ofInt]

theorem signExtend_eq {bits : Nat} (x : BitVec bits) :
    x.signExtend 32 = BitVec.ofInt 32 (signed bits x.toNat) := by
  rw [BitVec.signExtend, toInt_eq_signed]

theorem toNat_append {high low : Nat} (x : BitVec high) (y : BitVec low) :
    (x ++ y).toNat = x.toNat * 2 ^ low + y.toNat := by
  rw [BitVec.toNat_append, ← Nat.shiftLeft_add_eq_or_of_lt y.isLt, Nat.shiftLeft_eq]

theorem signed_double (bits x : Nat) : signed (bits + 1) (2 * x) = 2 * signed bits x := by
  have pow : 2 ^ (bits + 1) = 2 * 2 ^ bits := Nat.pow_succ'
  simp only [signed, pow]
  split
  · next h => rw [if_pos (by omega)]; push_cast; rfl
  · next h => rw [if_neg (by omega)]; push_cast [pow]; omega

/-! ## Registers -/

def index (r : RegisterNumber) : Fin 32 := r.toFin

theorem index_rd (inst : Word) : index (Instruction.rd inst) = rd inst.toNat :=
  Fin.ext (toNat_extract inst 7 5)

theorem index_rs1 (inst : Word) : index (Instruction.rs1 inst) = rs1 inst.toNat :=
  Fin.ext (toNat_extract inst 15 5)

theorem index_rs2 (inst : Word) : index (Instruction.rs2 inst) = rs2 inst.toNat :=
  Fin.ext (toNat_extract inst 20 5)

/-! ## Immediates -/

theorem immI_eq (inst : Word) : Instruction.immI inst = BitVec.ofInt 32 (immI inst.toNat) := by
  rw [Instruction.immI, signExtend_eq, toNat_extract, immI]

theorem immS_eq (inst : Word) : Instruction.immS inst = BitVec.ofInt 32 (immS inst.toNat) := by
  rw [Instruction.immS, signExtend_eq, toNat_append, toNat_extract, toNat_extract, immS]

theorem immU_eq (inst : Word) : Instruction.immU inst = BitVec.ofInt 32 (immU inst.toNat) := by
  have small : field inst.toNat 12 20 < 2 ^ 20 := Nat.mod_lt _ (Nat.two_pow_pos 20)
  apply BitVec.eq_of_toNat_eq
  rw [Instruction.immU, toNat_append, toNat_extract, toNat_ofInt, immU, wrap, BitVec.toNat_ofNat]
  omega

theorem signExtend_mul_two {bits : Nat} (x : BitVec bits) :
    x.signExtend 32 * 2 = BitVec.ofInt 32 (signed (bits + 1) (2 * x.toNat)) := by
  rw [signExtend_eq, signed_double, Int.mul_comm, BitVec.ofInt_mul]
  rfl

theorem immB_eq (inst : Word) :
    Instruction.immB inst * 2 = BitVec.ofInt 32 (immB inst.toNat) := by
  rw [Instruction.immB, signExtend_mul_two, immB]
  simp only [toNat_append, toNat_extract]
  congr 2
  omega

theorem immJ_eq (inst : Word) :
    Instruction.immJ inst * 2 = BitVec.ofInt 32 (immJ inst.toNat) := by
  rw [Instruction.immJ, signExtend_mul_two, immJ]
  simp only [toNat_append, toNat_extract]
  congr 2
  omega

end HartMonitor.Rv32i
