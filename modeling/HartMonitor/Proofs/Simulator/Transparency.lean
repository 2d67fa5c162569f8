/-
# `HartMonitor.Proofs.Simulator.Transparency` — a program does not see that it is watched

Two simulators that run the same program, one with watched expressions and one without
any sweeps, are compared turn by turn.  They share the machine and the counts of
instructions (`SameProgram`); pools, events and states differ:

    with sweeps     without      what both have done
    went            went         the instruction
    fired           went         the instruction, and the watched run stops
    lost            went         the instruction, and the watched run is aborted
    ended           ended        the breakpoint
    trapped         —            nothing: the machine is the one before the trap

So the run without sweeps is given as many turns as the watched one retired
instructions; all of them are taken, and the two end alike.
-/
import HartMonitor.Proofs.Simulator.Status

namespace HartMonitor

namespace Statistics

def unwatched (s : Statistics) : Statistics := { s with hits := 0 }

theorem unwatched_recordClass (s : Statistics) (c : InstructionClass) :
    (s.recordClass c).unwatched = s.unwatched.recordClass c := by
  cases c <;> rfl

theorem retired_recordClass (s : Statistics) (c : InstructionClass) :
    (s.recordClass c).retired = s.retired + 1 := by
  cases c <;> rfl

end Statistics

/-- Two simulators are at the same place in the same program: the machines are the same, and so
are the counts of instructions. -/
structure SameProgram (s t : Simulator) : Prop where
  machine : t.machine = s.machine
  counts : t.statistics.unwatched = s.statistics.unwatched

namespace SameProgram

variable {s s' t t' : Simulator}

/-- Both come to the same machine and count an instruction of the same class. -/
theorem record {machine : Machine} {c : InstructionClass} (h : SameProgram s t)
    (hs : s'.machine = machine ∧ s'.statistics.unwatched = (s.statistics.recordClass c).unwatched)
    (ht : t'.machine = machine ∧ t'.statistics = t.statistics.recordClass c) :
    SameProgram s' t' where
  machine := ht.1.trans hs.1.symm
  counts := by
    rw [ht.2, hs.2, Statistics.unwatched_recordClass, h.counts, Statistics.unwatched_recordClass]

end SameProgram

/-! ## Turns without sweeps -/

/-- Where nothing is swept a turn is an instruction. -/
theorem turn_of_step_ok {t : Simulator} (off : t.watches.enabled = false) {machine : Machine}
    {step : Step} (hs : t.machine.step = (machine, .ok step)) :
    t.turn = ({ t with machine := machine, statistics := t.statistics.record step.inst },
      .went step) := by
  have quiet : t.watches.checkIn machine = (t.watches, .ok []) := by
    rw [WatchPool.checkIn, WatchPool.check, WatchPool.sweep, if_neg (by simp [off])]
  simp only [Simulator.turn, hs, Simulator.observe, quiet]

theorem turn_of_breakpoint {t : Simulator} {machine : Machine} {pc code : Word}
    (hs : t.machine.step = (machine, .error (.breakpoint pc code))) :
    t.turn = ({ t with
        machine := machine
        statistics := t.statistics.recordBreakpoint
        state := .ended pc code },
      .ended) := by
  simp only [Simulator.turn, hs]

/-- `Follows k s t`: with `k` turns, all of them taken, `t` comes to where `s` is. -/
def Follows (k : Nat) (s t : Simulator) : Prop :=
  ∀ report, ∃ r, (Simulator.run true k t report).2 = .ok r ∧
    r.executed = report.executed + k ∧ SameProgram s (Simulator.run true k t report).1

namespace Follows

variable {k : Nat} {s t : Simulator} {machine : Machine}

theorem zero (h : SameProgram s t) : Follows 0 s t :=
  fun report => ⟨report, rfl, rfl, h⟩

theorem cons {step : Step} (off : t.watches.enabled = false)
    (hs : t.machine.step = (machine, .ok step))
    (h : Follows k s
      { t with machine := machine, statistics := t.statistics.record step.inst }) :
    Follows (k + 1) s t := by
  intro report
  obtain ⟨r, ok, executed, same⟩ := h (report.add true step)
  simp only [Simulator.run, turn_of_step_ok off hs]
  refine ⟨r, ok, ?_, same⟩
  simp only [executed, RunReport.add]
  omega

theorem breakpoint {pc code : Word}
    (hs : t.machine.step = (machine, .error (.breakpoint pc code)))
    (h : SameProgram s { t with
      machine := machine, statistics := t.statistics.recordBreakpoint, state := .ended pc code }) :
    Follows 1 s t := by
  intro report
  simp only [Simulator.run, turn_of_breakpoint hs]
  exact ⟨_, rfl, rfl, h⟩

theorem step (unfinished : t.state.isFinished = false)
    (h : Follows k s { t with state := .running }) :
    ∃ free r, t.step k = (free, .ok r) ∧ r.executed = k ∧ SameProgram s free := by
  obtain ⟨r, ok, executed, same⟩ := h .fresh
  have frame := Simulator.step_frame unfinished k
  rw [Simulator.step_of_unfinished unfinished] at frame ⊢
  generalize Simulator.run true k _ _ = out at ok same frame ⊢
  obtain ⟨t', outcome⟩ := out
  cases ok
  exact ⟨_, _, rfl, executed.trans (Nat.zero_add k), frame.1.trans same.machine,
    (congrArg Statistics.unwatched frame.2).trans same.counts⟩

end Follows

/-- However a run comes out, as many turns without sweeps follow it as it has retired
instructions. -/
theorem exists_follows {n : Nat} :
    ∀ {s t : Simulator} {report : RunReport}, s.machine.regs.read 0 = 0 → SameProgram s t →
      t.watches.enabled = false →
      ∃ k ≤ n, (Simulator.run true n s report).1.statistics.retired = s.statistics.retired + k ∧
        Follows k (Simulator.run true n s report).1 t := by
  induction n with
  | zero =>
      intro s t report _ same _
      exact ⟨0, Nat.le_refl 0, rfl, .zero same⟩
  | succ n ih =>
      intro s t report zero same off
      have taken := s.taken_turn
      simp only [Simulator.run]
      generalize s.turn = out at taken
      cases taken with
      | @went machine step watches hs hw =>
          have ht := same.machine ▸ hs
          have next : SameProgram
              { s with
                machine := machine
                statistics := s.statistics.record step.inst
                watches := watches }
              { t with machine := machine, statistics := t.statistics.record step.inst } :=
            same.record ⟨rfl, rfl⟩ ⟨rfl, rfl⟩
          obtain ⟨k, le, retired, follows⟩ := ih (Machine.read_zero_of_step hs) next off
          refine ⟨k + 1, Nat.succ_le_succ le, retired.trans ?_, follows.cons off ht⟩
          simp only [Statistics.record, Statistics.retired_recordClass]
          omega
      | fired hs _ _ | lost hs _ =>
          have ht := same.machine ▸ hs
          exact ⟨1, Nat.succ_le_succ (Nat.zero_le n), Statistics.retired_recordClass _ _,
            .cons off ht (.zero (same.record ⟨rfl, rfl⟩ ⟨rfl, rfl⟩))⟩
      | ended hs =>
          have ht := same.machine ▸ hs
          exact ⟨1, Nat.succ_le_succ (Nat.zero_le n), Statistics.retired_recordClass _ _,
            .breakpoint ht (same.record ⟨rfl, rfl⟩ ⟨rfl, rfl⟩)⟩
      | trapped hs _ =>
          -- A machine that traps is the one that it was.
          exact ⟨0, Nat.zero_le _, rfl,
            .zero ⟨same.machine.trans (Machine.eq_of_step_error zero hs).symm, same.counts⟩⟩

/-- A program cannot tell that it is watched.  Whatever the pool holds and however a call of `step`
comes out, sweeping could have been off: as many turns as it has retired instructions then
complete, retire as many, and lead to the same machine and the same counts but that of watch
events. -/
theorem guest_unaware_of_watching {config : Config} {s : Simulator}
    (h : Reachable (fun _ _ => True) (.create config) s) (pool : WatchPool) (n : Nat) :
    let s := { s with watches := pool }
    let watched := (s.step n).1
    ∃ k ≤ n, watched.statistics.retired = s.statistics.retired + k ∧
      ∃ free r, (s.toggle false).step k = (free, .ok r) ∧ r.executed = k ∧
        free.statistics.retired = s.statistics.retired + k ∧
        free.machine = watched.machine ∧
        free.statistics.unwatched = watched.statistics.unwatched := by
  intro s' watched
  have zero : s'.machine.regs.read 0 = 0 := (Settled.of_reachable h).zero
  cases finished : s'.state.isFinished with
  | true =>
      have same : watched = s' := by simp only [watched, Simulator.step_of_finished finished]
      have none := Simulator.step_of_finished (s := s'.toggle false) finished 0
      rw [same]
      exact ⟨0, Nat.zero_le n, rfl, _, _, none, rfl, rfl, rfl, rfl⟩
  | false =>
      have ran := @exists_follows n { s' with state := .running }
        { s'.toggle false with state := .running } .fresh zero ⟨rfl, rfl⟩ rfl
      obtain ⟨k, le, retired, follows⟩ := ran
      obtain ⟨free, r, ok, executed, same⟩ := follows.step (t := s'.toggle false) finished
      have frame := Simulator.step_frame finished n
      have counted : watched.statistics.retired = s'.statistics.retired + k := by
        rw [← retired]
        exact congrArg Statistics.retired frame.2
      have counts : free.statistics.unwatched = watched.statistics.unwatched := by
        rw [same.counts]
        exact congrArg Statistics.unwatched frame.2.symm
      refine ⟨k, le, counted, free, r, ok, executed, ?_, same.machine.trans frame.1.symm, counts⟩
      rw [← counted]
      have retired := congrArg Statistics.retired counts
      exact retired

/-- The byte at `$pc` is lost with the last instruction before the end of memory.  The run is
aborted there after the one instruction that it also retires with sweeping off. -/
theorem guest_unaware_of_watching_at_end :
    let s := (Simulator.create { memory := ⟨0x80000000, 4⟩ }).perform
      (.load (.ofWords [0x00000297] 0x80000000))
    let pool : WatchPool := ⟨[some ⟨"*$pc", 0x97⟩], 0, true⟩
    let watched := { s with watches := pool }.step 3
    watched.1.state = .aborted 0x80000004 ∧
      watched.1.statistics.retired = 1 ∧
      ∃ free r, ({ s with watches := pool }.toggle false).step 1 = (free, .ok r) ∧
        r.executed = 1 ∧ free.machine = watched.1.machine := by
  intro s pool watched
  have aborted : watched.1.state = .aborted 0x80000004 := by decide +kernel
  have one : watched.1.statistics.retired = 1 := by decide +kernel
  have none : s.statistics.retired = 0 := by decide +kernel
  have reached : Reachable (fun _ _ => True) (.create { memory := ⟨0x80000000, 4⟩ }) s :=
    .request .start trivial
  clear_value s
  obtain ⟨k, -, counted, free, r, ok, executed, -, machine, -⟩ :=
    guest_unaware_of_watching reached pool 3
  obtain rfl : k = 1 := by
    have total : s.statistics.retired + k = 1 := counted.symm.trans one
    rw [none] at total
    omega
  exact ⟨aborted, one, free, r, ok, executed, machine⟩

end HartMonitor
