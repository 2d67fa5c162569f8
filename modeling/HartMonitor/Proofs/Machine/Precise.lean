/-
# `HartMonitor.Proofs.Machine.Precise` — register zero, and machines that trap

An instruction comes out in one of four ways (`Executed`):

    unfetched       its bytes are not all in the window of memory
    undescribed     no row of the table matches its word
    trapped         its row matches, and what the row does traps
    completed       what the row does is done

What a row does traps in four ways (`Raised`): the faults of loads and stores, the breakpoint,
and the trap of the row of no instruction.

An instruction leaves register zero at zero, whatever it does (`read_zero_of_step`).
Where it was at zero before, a machine that traps is the machine it was
(`eq_of_step_error`).  In any case `pc` stays on an instruction that traps, and goes to
the next one where it does not.
-/
import HartMonitor.Machine.Step

namespace HartMonitor

theorem Registers.resetZero_of_zero {regs : Registers} (h : regs.read 0 = 0) :
    regs.resetZero = regs := by
  refine Registers.ext_read fun r => ?_
  by_cases hr : 0 = r
  · rw [← hr, Registers.read_zero_resetZero, h]
  · exact Registers.read_write_of_ne regs 0 hr

namespace Memory

variable {m : Memory} {addr : Word} {width : Width} {t : Trap}

theorem fault_of_orFault {α : Type} {kind : Access} {len : Nat} {o : Option α}
    (h : orFault kind addr len o = .error t) : t = kind.fault addr len := by
  cases o with
  | some a => cases h
  | none => cases h; rfl

theorem fault_of_loadWord {signed : Bool} (h : m.loadWord addr width signed = .error t) :
    t = .loadFault addr width.bytes := by
  simp only [loadWord] at h
  cases missing : m.read addr width.bytes with
  | error t' => rw [missing] at h; cases h; exact fault_of_orFault missing
  | ok raw => rw [missing] at h; cases h

end Memory

namespace Machine

open Instruction (Row lookup table operands)

/-- How the instruction at `pc` comes out, with the machine after it. -/
inductive Executed (m : Machine) : Machine × Except Trap Step → Prop
  | unfetched {t : Trap} : m.memory.fetch m.pc instructionBytes = .error t →
      Executed m (m, .error t)
  | undescribed {inst : Word} : m.memory.fetch m.pc instructionBytes = .ok inst →
      lookup table inst = none → Executed m (m, .error (.unimplementedFormat m.pc inst))
  | trapped {inst : Word} {row : Row} {t : Trap} :
      m.memory.fetch m.pc instructionBytes = .ok inst → lookup table inst = some row →
      m.apply row inst (operands row.format m.regs inst) = .error t →
      Executed m (m.resetZero, .error t)
  | completed {inst : Word} {row : Row} {next : Machine} :
      m.memory.fetch m.pc instructionBytes = .ok inst → lookup table inst = some row →
      m.apply row inst (operands row.format m.regs inst) = .ok next →
      Executed m (next.resetZero,
        .ok { pc := m.pc, snpc := m.snpc, dnpc := next.pc, inst := inst, name := row.name })

/-- An instruction comes out in one of the four ways. -/
theorem executed_step (m : Machine) : Executed m m.step := by
  simp only [step]
  split
  · next t fetched => exact .unfetched fetched
  · next inst fetched =>
    split
    · next missed => exact .undescribed fetched missed
    · next row found =>
      simp only [execute]
      split
      · next t failed => exact .trapped fetched found failed
      · next next done => exact .completed fetched found done

theorem step_of_found {m : Machine} {inst : Word} {row : Row}
    (fetched : m.memory.fetch m.pc instructionBytes = .ok inst)
    (found : lookup table inst = some row) : m.step = m.execute row inst := by
  simp only [step, fetched, found]

/-- The traps that what a row does ends in. -/
inductive Raised (m : Machine) (row : Row) (inst : Word) : Trap → Prop
  | load {width : Width} {signed : Bool} {addr : Word} : row.action = .load width signed →
      Raised m row inst (.loadFault addr width.bytes)
  | store {width : Width} {addr : Word} : row.action = .store width →
      Raised m row inst (.storeFault addr width.bytes)
  | ebreak : row.action = .ebreak → Raised m row inst (.breakpoint m.pc (m.regs.read .a0))
  | invalid : row.action = .invalid → Raised m row inst (.illegalInstruction m.pc inst)

theorem raised_of_apply {m : Machine} {row : Row} {inst : Word} {o : Instruction.Operands}
    {t : Trap} (h : m.apply row inst o = .error t) : Raised m row inst t := by
  simp only [apply] at h
  split at h
  · cases h
  · cases h
  · cases h
  · cases h
  · cases h
  · next width signed action =>
    cases loaded : m.memory.loadWord (o.src1 + o.imm) width signed with
    | error fault =>
        rw [loaded] at h
        cases h
        rw [Memory.fault_of_loadWord loaded]
        exact .load action
    | ok w => rw [loaded] at h; cases h
  · next width action =>
    cases stored : m.memory.storeWord (o.src1 + o.imm) width o.src2 with
    | error fault =>
        rw [stored] at h
        cases h
        rw [Memory.fault_of_orFault stored]
        exact .store action
    | ok memory => rw [stored] at h; cases h
  · cases h
  · next action => cases h; exact .ebreak action
  · next action => cases h; exact .invalid action

theorem resetZero_of_zero {m : Machine} (h : m.regs.read 0 = 0) : m.resetZero = m := by
  rw [resetZero, Registers.resetZero_of_zero h]

section Step
variable {m m' : Machine} {t : Trap} {step : Step}

/-- A machine that traps stays as it was. -/
theorem eq_of_step_error (zero : m.regs.read 0 = 0) (h : m.step = (m', .error t)) : m' = m := by
  have executed := m.executed_step
  rw [h] at executed
  cases executed with
  | unfetched | undescribed => rfl
  | trapped => exact resetZero_of_zero zero

theorem pc_of_step_error (h : m.step = (m', .error t)) : m'.pc = m.pc := by
  have executed := m.executed_step
  rw [h] at executed
  cases executed with
  | unfetched | undescribed | trapped => rfl

theorem pc_of_step (h : m.step = (m', .ok step)) : step.pc = m.pc ∧ m'.pc = step.dnpc := by
  have executed := m.executed_step
  rw [h] at executed
  cases executed with
  | completed => exact ⟨rfl, rfl⟩

/-- A machine that completes an instruction has register zero at zero. -/
theorem read_zero_of_step (h : m.step = (m', .ok step)) : m'.regs.read 0 = 0 := by
  have executed := m.executed_step
  rw [h] at executed
  cases executed with
  | completed => exact Registers.read_zero_resetZero _

theorem read_zero_step (zero : m.regs.read 0 = 0) : m.step.1.regs.read 0 = 0 := by
  cases h : m.step with
  | mk m' outcome =>
      cases outcome with
      | error t => rw [eq_of_step_error zero h]; exact zero
      | ok step => exact read_zero_of_step h

end Step

end Machine

end HartMonitor
