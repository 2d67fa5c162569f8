/-
# `HartMonitor.Proofs.Simulator.Ending` — where the program of a guest ends

One trap is not fatal, the breakpoint, and one word has it: accesses to memory fault, and a
single row of the table ends the program (`breakpoint_of_step`).  The instruction writes
nothing, so a run that has ended still stands on it, with the exit code in `a0`
(`AtBreakpoint`).

    turn ⟶ run ⟶ step        Taken.atBreakpoint, atBreakpoint_of_run, atBreakpoint_of_step
-/
import HartMonitor.Proofs.Machine.Precise
import HartMonitor.Proofs.Rv32i.Decode
import HartMonitor.Proofs.Simulator.Split

namespace HartMonitor

open Instruction (Row lookup table)

def breakpointWord : Word := 0x00100073

/-- The next instruction of a machine is the breakpoint, at `pc` and with `code` in `a0`. -/
structure AtBreakpoint (m : Machine) (pc code : Word) : Prop where
  pc : m.pc = pc
  word : m.memory.fetch m.pc instructionBytes = .ok breakpointWord
  code : m.regs.read .a0 = code

/-! ## The trap of one word -/

namespace Machine

variable {m m' : Machine} {row : Row} {inst pc code : Word} {t : Trap}

theorem ebreak_of_apply {o : Instruction.Operands} (h : m.apply row inst o = .error t)
    (mild : t.isFatal = false) :
    row.action = .ebreak ∧ t = .breakpoint m.pc (m.regs.read .a0) := by
  cases raised_of_apply h with
  | ebreak action => exact ⟨action, rfl⟩
  | load | store | invalid => cases mild

theorem pattern_of_ebreak : ∀ row ∈ table, row.action = .ebreak →
    row.pattern = ⟨BitVec.allOnes 32, breakpointWord⟩ := by
  decide +kernel

theorem eq_breakpointWord_of_lookup (found : lookup table inst = some row)
    (action : row.action = .ebreak) : inst = breakpointWord := by
  have fits : row.pattern.Matches inst := by simpa using List.find?_some found
  rw [pattern_of_ebreak row (List.mem_of_find?_eq_some found) action] at fits
  exact Rv32i.matches_allOnes.mp fits

/-- A machine that traps at the breakpoint stood on it, and still does. -/
theorem breakpoint_of_step (h : m.step = (m', .error (.breakpoint pc code))) :
    AtBreakpoint m pc code ∧ AtBreakpoint m' pc code := by
  have executed := m.executed_step
  rw [h] at executed
  cases executed with
  | unfetched missing => cases Memory.fault_of_orFault missing
  | trapped fetched found failed =>
      obtain ⟨action, same⟩ := ebreak_of_apply failed rfl
      cases same
      rw [eq_breakpointWord_of_lookup found action] at fetched
      have other : (0 : RegisterNumber) ≠ .a0 := by decide
      exact ⟨⟨rfl, fetched, rfl⟩, rfl, fetched, Registers.read_write_of_ne m.regs 0 other⟩

theorem lookup_of_ebreak (h : Rv32i.decode inst.toNat = some .ebreak) :
    ∃ row, lookup table inst = some row ∧ row.action = .ebreak := by
  have described := Rv32i.lookup_table inst
  rw [h] at described
  obtain ⟨⟨name, pattern, format, action⟩, found, reads, -⟩ := described
  refine ⟨_, found, ?_⟩
  cases action <;> cases format <;> first | rfl | cases reads

theorem step_of_ebreak (fetched : m.memory.fetch m.pc instructionBytes = .ok inst)
    (found : lookup table inst = some row) (action : row.action = .ebreak) :
    m.step = (m.resetZero, .error (.breakpoint m.pc (m.regs.read .a0))) := by
  simp only [step, fetched, found, execute, apply, action]

theorem step_of_atBreakpoint (h : AtBreakpoint m pc code) :
    m.step = (m.resetZero, .error (.breakpoint pc code)) := by
  obtain ⟨row, found, action⟩ := @lookup_of_ebreak breakpointWord (by decide +kernel)
  rw [step_of_ebreak h.word found action, h.pc, h.code]

end Machine

/-! ## Runs that end -/

/-- A turn that ends the run leaves the machine on the breakpoint. -/
theorem Taken.atBreakpoint {s s' : Simulator} {t : Turn} {pc code : Word} (h : Taken s (s', t))
    (running : s.state = .running) (ended : s'.state = .ended pc code) :
    AtBreakpoint s'.machine pc code := by
  cases h with
  | went => cases running.symm.trans ended
  | fired | lost | trapped => cases ended
  | ended hs => cases ended; exact (Machine.breakpoint_of_step hs).2

namespace Simulator

theorem atBreakpoint_of_run {keep : Bool} {n : Nat} {pc code : Word} :
    ∀ {s : Simulator} {report : RunReport}, s.state = .running →
      (run keep n s report).1.state = .ended pc code →
      AtBreakpoint (run keep n s report).1.machine pc code := by
  induction n with
  | zero => intro s report running ended; cases running.symm.trans ended
  | succ n ih =>
      intro s report running
      have taken := s.taken_turn
      simp only [run]
      generalize s.turn = out at taken
      obtain ⟨s', step | ⟨step, events⟩ | _ | e⟩ := out
      · cases taken with
        | went => exact ih running
      · exact taken.atBreakpoint running
      · exact taken.atBreakpoint running
      · exact taken.atBreakpoint running

theorem state_step_of_atBreakpoint {s : Simulator} {n : Nat} {pc code : Word} (positive : 0 < n)
    (unfinished : s.state.isFinished = false) (h : AtBreakpoint s.machine pc code) :
    (s.step n).1.state = .ended pc code := by
  obtain ⟨n, rfl⟩ := Nat.exists_eq_succ_of_ne_zero positive.ne'
  simp only [step_of_unfinished unfinished, keptFor, close, run, turn,
    Machine.step_of_atBreakpoint h]
  rfl

/-- A call of `step` that ends the program does so at the breakpoint. -/
theorem atBreakpoint_of_step {s : Simulator} {n : Nat} {pc code : Word}
    (unfinished : s.state.isFinished = false) (ended : (s.step n).1.state = .ended pc code) :
    AtBreakpoint (s.step n).1.machine pc code := by
  rw [(step_frame unfinished n).1]
  rw [step_of_unfinished unfinished] at ended
  simp only [keptFor, close, settle] at ended
  split at ended
  · cases ended
  · exact atBreakpoint_of_run rfl ended

end Simulator

end HartMonitor
