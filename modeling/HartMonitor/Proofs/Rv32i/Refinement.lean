/-
# `HartMonitor.Proofs.Rv32i.Refinement` — the machine executes the base instruction set

What the machine computes on words is what the hart computes on numbers, operation by
operation (`toNat_eval`, `holds_eq`), action by action (`apply_toHart`), and so for a
whole instruction: fetch, decode, execute (`step_refines`).
-/
import HartMonitor.Machine.Step
import HartMonitor.Proofs.Rv32i.Decode
import HartMonitor.Proofs.Rv32i.View

namespace HartMonitor.Rv32i

/-! ## Arithmetic -/

theorem toNat_wordOfBool {b : Bool} {P : Prop} [Decidable P] (h : b = true ↔ P) :
    (wordOfBool b).toNat = if P then 1 else 0 := by
  by_cases hP : P
  · rw [if_pos hP, h.mpr hP]; rfl
  · rw [if_neg hP, Bool.eq_false_iff.mpr (mt h.mp hP)]; rfl

theorem toNat_eq_wrap (w : Word) : w.toNat = wrap w.toInt := by
  rw [← toNat_ofInt, BitVec.ofInt_toInt]

theorem slt_iff (a b : Word) : a.slt b = true ↔ signed 32 a.toNat < signed 32 b.toNat := by
  rw [BitVec.slt, decide_eq_true_eq, toInt_eq_signed, toInt_eq_signed]

/-- An operation on words is the one on their numbers. -/
theorem toNat_eval (op : ArithmeticOp) (a b : Word) :
    (op.eval a b).toNat = compute op a.toNat b.toNat := by
  cases op with
  | add => exact BitVec.toNat_add a b
  | sub =>
      have ha := a.isLt
      have hb := b.isLt
      show (a - b).toNat = wrap (a.toNat - b.toNat)
      rw [BitVec.toNat_sub, wrap]
      omega
  | sll =>
      show (a <<< (b.toNat % 32)).toNat = _
      rw [BitVec.toNat_shiftLeft, Nat.shiftLeft_eq]
      rfl
  | slt => exact toNat_wordOfBool (slt_iff a b)
  | sltu => exact toNat_wordOfBool BitVec.ult_iff_lt
  | xor => exact BitVec.toNat_xor a b
  | srl =>
      show (a >>> (b.toNat % 32)).toNat = _
      rw [BitVec.toNat_ushiftRight, Nat.shiftRight_eq_div_pow]
      rfl
  | sra =>
      show (a.sshiftRight (b.toNat % 32)).toNat = _
      rw [toNat_eq_wrap, BitVec.toInt_sshiftRight, Int.shiftRight_eq_div_pow, toInt_eq_signed]
      rfl
  | or => exact BitVec.toNat_or a b
  | and => exact BitVec.toNat_and a b

/-- A comparison of words is the one of their numbers. -/
theorem holds_eq (c : Comparison) (a b : Word) : c.holds a b = compare c a.toNat b.toNat := by
  rw [Bool.eq_iff_iff]
  have slt := slt_iff a b
  have ult : a.ult b = true ↔ a.toNat < b.toNat := BitVec.ult_iff_lt
  cases c with
  | eq => simp [Comparison.holds, compare, BitVec.toNat_inj]
  | ne => simp [Comparison.holds, compare, BitVec.toNat_inj]
  | lt => simpa [Comparison.holds, compare] using slt
  | ge =>
      rw [Comparison.holds, compare, Bool.not_eq_true', ← Bool.not_eq_true, slt, Int.not_lt,
        decide_eq_true_eq]
  | ltu => simpa [Comparison.holds, compare] using ult
  | geu =>
      rw [Comparison.holds, compare, Bool.not_eq_true', ← Bool.not_eq_true, ult, Nat.not_lt,
        decide_eq_true_eq]

theorem toNat_signExtendFrom (width : Width) {w : Word} (small : w.toNat < 256 ^ width.bytes) :
    (signExtendFrom width.bits w).toNat = wrap (signed width.bits w.toNat) := by
  have low : (w.setWidth width.bits).toNat = w.toNat := by
    rw [BitVec.toNat_setWidth, Width.bits, Nat.pow_mul]
    exact Nat.mod_eq_of_lt small
  rw [signExtendFrom, signExtend_eq, low, toNat_ofInt]

theorem compute_shift {op : ArithmeticOp} (shift : op.unit = .shifter) (a : Nat) {b b' : Nat}
    (h : b % 32 = b' % 32) : compute op a b = compute op a b' := by
  cases op with
  | sll | srl | sra => simp only [compute, h]
  | add | sub | slt | sltu | xor | or | and => cases shift

theorem immI_mod (w : Nat) : wrap (immI w) % 32 = wrap (field w 20 5) % 32 := by
  by_cases upper : 2 * field w 20 12 < 2 ^ 12
  · rw [immI, signed, if_pos upper]
    simp only [field, wrap]
    omega
  · rw [immI, signed, if_neg upper]
    simp only [field, wrap]
    omega

theorem ofNat_toNat (w : Word) : BitVec.ofNat 32 w.toNat = w := by
  rw [BitVec.ofNat_toNat, BitVec.setWidth_eq]

/-! ## Actions -/

section Actions
variable {m : Machine} {inst : Word}

theorem snpc_toHart (m : Machine) : m.snpc.toNat = m.toHart.next :=
  toNat_add_ofInt m.pc 4

theorem reg_rs1 : m.toHart.reg (rs1 inst.toNat) = (m.regs.read (Instruction.rs1 inst)).toNat := by
  rw [← index_rs1, Machine.reg_toHart]

theorem reg_rs2 : m.toHart.reg (rs2 inst.toNat) = (m.regs.read (Instruction.rs2 inst)).toNat := by
  rw [← index_rs2, Machine.reg_toHart]

theorem toNat_address {imm : Word} {x : Int} (h : imm = BitVec.ofInt 32 x) :
    (m.regs.read (Instruction.rs1 inst) + imm).toNat =
      wrap (m.toHart.reg (rs1 inst.toNat) + x) := by
  rw [h, toNat_add_ofInt, reg_rs1]

theorem toNat_relative {imm : Word} {x : Int} (h : imm * 2 = BitVec.ofInt 32 x) :
    (m.relative imm).toNat = wrap (m.toHart.pc + x) := by
  rw [Machine.relative, h, toNat_add_ofInt]
  rfl

variable (zero : m.regs.read 0 = 0)
include zero

theorem retire_rd (w dnpc : Word) :
    (m.retire (Instruction.rd inst) w dnpc).resetZero.toHart =
      (m.toHart.set (rd inst.toNat) w.toNat).jump dnpc.toNat := by
  rw [Machine.retire_toHart zero, index_rd]

/-- A load from the address of a number. -/
theorem load_toHart (width : Width) (sign : Bool) {addr : Word} {a : Nat} (ha : addr.toNat = a) :
    ((m.memory.loadWord addr width sign).map fun w =>
        (m.retire (Instruction.rd inst) w m.snpc).resetZero.toHart) =
      match m.toHart.number? a width.bytes with
      | none => .error (.loadFault (BitVec.ofNat 32 a) width.bytes)
      | some x =>
        .ok ((m.toHart.set (rd inst.toNat)
          (if sign then wrap (signed width.bits x) else x)).jump m.toHart.next) := by
  subst ha
  have read := m.readFor_toHart .read addr width.bytes_pos width.bytes_le_four
  rw [Memory.loadWord, Memory.read, ofNat_toNat]
  cases hx : m.toHart.number? addr.toNat width.bytes with
  | none =>
      rw [hx] at read
      rw [read]
      rfl
  | some x =>
      rw [hx] at read
      obtain ⟨bound, w, found, rfl⟩ := read
      rw [found]
      refine congrArg Except.ok ((retire_rd zero _ _).trans ?_)
      rw [snpc_toHart]
      cases sign with
      | true =>
          simp only [if_true]
          rw [toNat_signExtendFrom width bound]
      | false => simp only [Bool.false_eq_true, if_false]

/-- A store to the address of a number. -/
theorem store_toHart (width : Width) {addr w : Word} {a x : Nat} (ha : addr.toNat = a)
    (hx : w.toNat = x) :
    ((m.memory.storeWord addr width w).map fun memory =>
        ({ m with memory := memory, pc := m.snpc } : Machine).resetZero.toHart) =
      match m.toHart.store? a width.bytes x with
      | none => .error (.storeFault (BitVec.ofNat 32 a) width.bytes)
      | some h => .ok (h.jump m.toHart.next) := by
  subst ha hx
  have write := m.storeWord_toHart addr width w
  rw [ofNat_toNat]
  cases stored : m.toHart.store? addr.toNat width.bytes w.toNat with
  | none =>
      rw [stored] at write
      rw [write]
      rfl
  | some h =>
      rw [stored] at write
      obtain ⟨memory, written, rfl⟩ := write
      rw [written]
      refine congrArg Except.ok ?_
      rw [← snpc_toHart]
      exact Machine.move_toHart (m := { m with memory := memory }) zero m.snpc

/-- What an action does to a machine is what its reading does to the hart. -/
theorem apply_toHart {row : Instruction.Row} {i : Decoded}
    (h : reading inst.toNat row.action row.format = some i) :
    (m.apply row inst (Instruction.operands row.format m.regs inst)).map
        (fun m' => m'.resetZero.toHart) = m.toHart.execute i := by
  obtain ⟨name, pattern, format, action⟩ := row
  match action, format with
  | .lui, .upper =>
      cases h
      refine congrArg Except.ok ((retire_rd zero _ _).trans ?_)
      dsimp only [Instruction.operands]
      rw [immU_eq, toNat_ofInt, snpc_toHart]
  | .auipc, .upper =>
      cases h
      refine congrArg Except.ok ((retire_rd zero _ _).trans ?_)
      dsimp only [Instruction.operands]
      rw [immU_eq, toNat_add_ofInt, snpc_toHart]
      rfl
  | .jal, .jump =>
      cases h
      refine congrArg Except.ok ((retire_rd zero _ _).trans ?_)
      dsimp only [Instruction.operands]
      rw [toNat_relative (immJ_eq inst), snpc_toHart]
  | .jalr, .immediate =>
      cases h
      refine congrArg Except.ok ((retire_rd zero _ _).trans ?_)
      dsimp only [Instruction.operands]
      rw [toNat_address (immI_eq inst), snpc_toHart]
  | .branch c, .branch =>
      cases h
      refine congrArg Except.ok ((Machine.move_toHart zero _).trans ?_)
      dsimp only [Instruction.operands]
      simp only [holds_eq, ← reg_rs1, ← reg_rs2, apply_ite BitVec.toNat,
        toNat_relative (immB_eq inst), snpc_toHart]
  | .load width sign, .immediate =>
      cases h
      exact (Functor.map_map _ _ (m.memory.loadWord _ width sign)).trans
        (load_toHart zero width sign (toNat_address (immI_eq inst)))
  | .store width, .store =>
      cases h
      exact (Functor.map_map _ _ (m.memory.storeWord _ width _)).trans
        (store_toHart zero width (toNat_address (immS_eq inst)) reg_rs2.symm)
  | .alu op, .immediate =>
      cases h
      refine congrArg Except.ok ((retire_rd zero _ _).trans ?_)
      dsimp only [Instruction.operands, Machine.aluOperand]
      rw [toNat_eval, if_neg nofun, immI_eq, toNat_ofInt, snpc_toHart, reg_rs1]
      by_cases shift : op.unit = .shifter
      · rw [if_pos shift, compute_shift shift _ (immI_mod inst.toNat)]
      · rw [if_neg shift]
  | .alu op, .register =>
      cases h
      refine congrArg Except.ok ((retire_rd zero _ _).trans ?_)
      dsimp only [Instruction.operands, Machine.aluOperand]
      rw [toNat_eval, if_pos rfl, snpc_toHart, reg_rs1, reg_rs2]
  | .ebreak, .bare =>
      cases h
      show Except.error (Trap.breakpoint m.pc (m.regs.read .a0)) =
        .error (.breakpoint (BitVec.ofNat 32 m.pc.toNat)
          (BitVec.ofNat 32 (m.regs.read .a0).toNat))
      rw [ofNat_toNat, ofNat_toNat]

theorem execute_catchAll :
    ((m.execute Instruction.catchAll inst).1.toHart, (m.execute Instruction.catchAll inst).2) =
      (m.toHart, .error (.illegalInstruction m.pc inst)) := by
  show (m.resetZero.toHart, _) = _
  rw [Machine.resetZero_of_zero zero]
  rfl

/-- An instruction, with its record or the trap it ended in. -/
theorem execute_toHart {row : Instruction.Row} {i : Decoded}
    (h : reading inst.toNat row.action row.format = some i) (name : row.name = i.mnemonic) :
    ((m.execute row inst).1.toHart, (m.execute row inst).2) =
      match m.toHart.execute i with
      | .error t => (m.toHart, .error t)
      | .ok h' =>
        (h', .ok {
          pc := m.pc, snpc := m.snpc, dnpc := BitVec.ofNat 32 h'.pc, inst := inst
          name := i.mnemonic }) := by
  rw [← apply_toHart zero h, Machine.execute]
  cases m.apply row inst (Instruction.operands row.format m.regs inst) with
  | error t =>
      show (m.resetZero.toHart, _) = _
      rw [Machine.resetZero_of_zero zero]
      rfl
  | ok next =>
      show (next.resetZero.toHart, _) = (next.resetZero.toHart, _)
      rw [name, show next.resetZero.toHart.pc = next.pc.toNat from rfl, ofNat_toNat]

end Actions

/-! ## Steps -/

/-- One step of a machine with register zero at zero is the step of its hart. -/
theorem step_toHart {m : Machine} (zero : m.regs.read 0 = 0) :
    (m.step.1.toHart, m.step.2) = m.toHart.step := by
  have fetched := @m.readFor_toHart .fetch m.pc 4 (by decide) (by decide)
  have pc : BitVec.ofNat 32 m.toHart.pc = m.pc := ofNat_toNat m.pc
  have next : BitVec.ofNat 32 m.toHart.next = m.snpc := by rw [← snpc_toHart, ofNat_toNat]
  have at_pc : m.toHart.number? m.pc.toNat 4 = m.toHart.number? m.toHart.pc 4 := rfl
  rw [Hart.step, Machine.step, Memory.fetch, pc, next, ← at_pc]
  cases hw : m.toHart.number? m.pc.toNat 4 with
  | none =>
      rw [hw] at fetched
      rw [show instructionBytes = 4 from rfl, fetched]
      rfl
  | some w =>
      rw [hw] at fetched
      obtain ⟨-, inst, found, rfl⟩ := fetched
      rw [show instructionBytes = 4 from rfl, found]
      have row := lookup_table inst
      cases hi : decode inst.toNat with
      | none =>
          rw [hi] at row
          simp only [row, hi, ofNat_toNat]
          exact execute_catchAll zero
      | some i =>
          rw [hi] at row
          obtain ⟨row, looked, reads, name⟩ := row
          simp only [looked, hi, ofNat_toNat]
          exact execute_toHart zero reads name

/-- A machine with register zero at zero keeps it there, and goes where its hart goes, with the
same record or the same trap. -/
theorem step_refines (m : Machine) (zero : m.regs.read 0 = 0) :
    m.step.1.regs.read 0 = 0 ∧ (m.step.1.toHart, m.step.2) = m.toHart.step :=
  ⟨Machine.read_zero_step zero, step_toHart zero⟩

/-- A jump by the register that it links in: the target is odd, and stays so. -/
theorem step_refines_jalr :
    let m : Machine := {
      regs := Registers.zeros.write 5 0x80000007
      pc := 0x80000000
      memory := ⟨0x80000000, (Store.zeros 16).put 0 (bytesOfWord 0x004282e7 4), by decide⟩ }
    let record : Step := ⟨0x80000000, 0x80000004, 0x8000000b, 0x004282e7, "jalr"⟩
    m.regs.read 0 = 0 ∧ m.step.1.regs.read 5 = 0x80000004 ∧
      m.toHart.step = (m.step.1.toHart, .ok record) := by
  intro m record
  have zero : m.regs.read 0 = 0 := by decide +kernel
  have ran : m.step.2 = .ok record := by decide +kernel
  refine ⟨zero, by decide +kernel, ?_⟩
  rw [← (step_refines m zero).2, ran]

/-- The machine and its hart stay together for any number of steps, traps among them. -/
theorem iterate_step_toHart (n : Nat) {m : Machine} (zero : m.regs.read 0 = 0) :
    ((fun m => m.step.1)^[n] m).toHart = (fun h => h.step.1)^[n] m.toHart := by
  induction n generalizing m with
  | zero => rfl
  | succ n ih =>
      rw [Function.iterate_succ_apply, Function.iterate_succ_apply,
        ih (Machine.read_zero_step zero), ← step_toHart zero]

end HartMonitor.Rv32i
