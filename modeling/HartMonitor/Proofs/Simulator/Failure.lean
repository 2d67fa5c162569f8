/-
# `HartMonitor.Proofs.Simulator.Failure` — what a failed request leaves behind

A request that fails has done nothing.  Two failures of an expression end the run, too many
tokens and a division by zero; they change the state of the run and nothing else:

    evaluate, watch, examine     the expression ends the run     aborted where it stands
                                 any other failure               as before
    unwatch                      any failure                     as before

A call of `step` that fails has executed something: a number of instructions, as a call with
that budget would, and then the turn at which it fails (`exists_turn_of_step_error`).  It
is aborted on the instruction that trapped, or behind the one after which a watched value
was lost.

A simulator that is returned holds the pool that was there before the failure.  Where the slots
are written in place, there is no other pool to go back to, and none is needed: an arena that
refuses has not been written (`Arena.Serves`).
-/
import HartMonitor.Proofs.Machine.Precise
import HartMonitor.Proofs.Simulator.Request
import HartMonitor.Proofs.Simulator.Split
import HartMonitor.Proofs.Watch.BoundedMap
import Mathlib.Control.Monad.Basic

namespace HartMonitor

/-! ## Failures that end the run -/

/-- The failures of an expression that end the run. -/
def ExpressionError.EndsRun (e : ExpressionError) : Prop :=
  e = .divisionByZero ∨ ∃ max, e = .tooManyTokens max

/-- A failure to watch ends the run where the expression does. -/
def WatchFailure.EndsRun : WatchFailure → Prop
  | .expression e => e.EndsRun
  | .pool _ => False

/-- A failure to show memory ends the run where one of the expressions does. -/
def RangeError.EndsRun : RangeError → Prop
  | .expression e => e.EndsRun
  | .outOfWindow _ _ => False

theorem ExpressionError.isFatal_iff {e : ExpressionError} : e.isFatal = true ↔ e.EndsRun := by
  cases e <;> simp [isFatal, EndsRun]

namespace WatchPool

variable {p : WatchPool} {m : Machine} {text : String} {id : Nat}

theorem isFatal_of_allocate {value : Word} {e : PoolError}
    (h : p.allocate text value = .error e) : e.isFatal = false := by
  simp only [allocate] at h
  split at h
  · cases h; rfl
  · split at h
    · cases h; rfl
    · split at h
      · cases h; rfl
      · cases h

theorem isFatal_of_free {e : PoolError} (h : p.free id = .error e) : e.isFatal = false := by
  simp only [free] at h
  split at h
  · cases h
  · cases h; rfl

theorem isFatal_iff_of_watch {e : WatchFailure} (h : p.watch m text = .error e) :
    e.isFatal = true ↔ e.EndsRun := by
  simp only [watch] at h
  split at h
  · cases h
    exact ExpressionError.isFatal_iff
  · split at h
    · next refused =>
      cases h
      simp [WatchFailure.isFatal, WatchFailure.EndsRun, isFatal_of_allocate refused]
    · cases h

end WatchPool

/-! ## Requests that execute nothing -/

/-- What a failed request leaves: all as it was, but for the state of the run where the failure
ends it. -/
structure Atomic (s s' : Simulator) (fatal : Prop) : Prop where
  unchanged : ¬ fatal → s' = s
  aborted : fatal → s' = { s with state := .aborted s.machine.pc }

namespace Simulator

variable {s : Simulator}

theorem atomic_abortIf {fatal : Bool} {P : Prop} (h : fatal = true ↔ P) :
    Atomic s (if fatal then s.abort else s) P where
  unchanged mild := if_neg fun severe => mild (h.mp severe)
  aborted severe := if_pos (h.mpr severe)

theorem evaluate_eq_of_ok {text : String} {value : Word} (h : (s.evaluate text).2 = .ok value) :
    (s.evaluate text).1 = s := by
  simp only [evaluate] at h ⊢
  split at h
  · rfl
  · cases h

theorem atomic_evaluate {text : String} {e : ExpressionError}
    (h : (s.evaluate text).2 = .error e) : Atomic s (s.evaluate text).1 e.EndsRun := by
  simp only [evaluate] at h ⊢
  split at h
  · cases h
  · cases h
    exact atomic_abortIf ExpressionError.isFatal_iff

theorem atomic_watch {text : String} {e : WatchFailure} (h : (s.watch text).2 = .error e) :
    Atomic s (s.watch text).1 e.EndsRun ∧ (e.isFatal = true ↔ e.EndsRun) := by
  simp only [watch] at h ⊢
  split at h
  · cases h
  · next refused =>
    cases h
    have fatal := WatchPool.isFatal_iff_of_watch refused
    exact ⟨atomic_abortIf fatal, fatal⟩

theorem unwatch_eq_of_error {id : Nat} {e : PoolError} (h : (s.unwatch id).2 = .error e) :
    (s.unwatch id).1 = s ∧ e.isFatal = false := by
  simp only [unwatch] at h ⊢
  split at h
  · cases h
  · next refused =>
    cases h
    exact ⟨rfl, WatchPool.isFatal_of_free refused⟩

/-- The second expression is evaluated only where the first one has left everything as it was. -/
theorem atomic_examine {count addr : String} {e : RangeError}
    (h : (s.examine count addr).2 = .error e) : Atomic s (s.examine count addr).1 e.EndsRun := by
  have first := @evaluate_eq_of_ok s count
  have first_failed := @atomic_evaluate s count
  simp only [examine] at h ⊢
  generalize s.evaluate count = out at first first_failed h
  obtain ⟨s₁, cause | len⟩ := out
  · cases h
    exact first_failed rfl
  · obtain rfl : s₁ = s := first rfl
    have second := @evaluate_eq_of_ok s₁ addr
    have second_failed := @atomic_evaluate s₁ addr
    dsimp only at h ⊢
    generalize s₁.evaluate addr = out at second second_failed h
    obtain ⟨s₂, cause | start⟩ := out
    · cases h
      exact second_failed rfl
    · obtain rfl : s₂ = s₁ := second rfl
      have outside : ¬ e.EndsRun := by
        simp only [bytesIn] at h
        split at h
        · split at h <;> cases h
          exact id
        · cases h
          exact id
      exact ⟨fun _ => rfl, fun severe => absurd severe outside⟩

/-! ## Calls of `step` -/

/-- A run that fails takes a number of turns, all of them completed, and then one that fails. -/
theorem exists_turn_of_run_error {n : Nat} {e : RunError} :
    ∀ {s : Simulator} {report : RunReport}, s.state = .running →
      (run true n s report).2 = .error e →
      ∃ k < n, ∃ before r, run true k s report = (before, .ok r) ∧ before.state = .running ∧
        r.executed = report.executed + k ∧ r.events = report.events ∧
        Taken before ((run true n s report).1, .failed e) := by
  induction n with
  | zero => intro s report _ failed; cases failed
  | succ n ih =>
      intro s report running failed
      have taken := s.taken_turn
      simp only [run] at failed ⊢
      generalize hturn : s.turn = out at taken failed
      cases taken with
      | @went machine step watches hs hw =>
          -- the failure is in the rest, which starts from one more executed instruction
          dsimp only at failed ⊢
          obtain ⟨k, lt, before, r, ran, going, executed, events, last⟩ :=
            @ih { s with
              machine := machine, statistics := s.statistics.record step.inst, watches := watches }
              (report.add true step) running failed
          refine ⟨k + 1, Nat.succ_lt_succ lt, before, r, ?_, going, ?_, events, last⟩
          · simp only [run, hturn]
            exact ran
          · rw [executed]
            show report.executed + 1 + k = report.executed + (k + 1)
            omega
      | fired => cases failed
      | ended => cases failed
      | lost hs hw =>
          cases failed
          exact ⟨0, Nat.succ_pos n, s, report, rfl, running, rfl, rfl, .lost hs hw⟩
      | trapped hs severe =>
          cases failed
          exact ⟨0, Nat.succ_pos n, s, report, rfl, running, rfl, rfl, .trapped hs severe⟩

/-- How a call of `step` fails at the turn that a machine takes, with the machine after it. -/
inductive FailsAt (before after : Machine) : RunError → Prop
  /-- The instruction traps, and `pc` stays on it. -/
  | trap {t : Trap} : before.step = (after, .error t) → t.isFatal = true →
      after.pc = before.pc → FailsAt before after (.trap t)
  /-- The instruction completes, `pc` goes to the next one, and an expression has lost its
  value. -/
  | lost {step : Step} {id : Nat} {text : String} {cause : ExpressionError} :
      before.step = (after, .ok step) → step.pc = before.pc → after.pc = step.dnpc →
      HartMonitor.evaluate after text = .error cause →
      FailsAt before after (.lostWatchpoint id text cause)

theorem failsAt_of_taken {s s' : Simulator} {e : RunError} (h : Taken s (s', .failed e)) :
    s'.state = .aborted s'.machine.pc ∧ FailsAt s.machine s'.machine e := by
  generalize failed : Turn.failed e = t at h
  cases h with
  | went | fired | ended => cases failed
  | lost hs hw =>
      obtain ⟨wp, mem, cause, hc, rfl⟩ :=
        WatchPool.check_error (WatchPool.enabled_of_check_error hw) hw
      cases failed
      obtain ⟨here, next⟩ := Machine.pc_of_step hs
      exact ⟨rfl, .lost hs here next hc⟩
  | trapped hs severe =>
      cases failed
      exact ⟨rfl, .trap hs severe (Machine.pc_of_step_error hs)⟩

/-- A call of `step` that fails is a call that uses up a smaller budget, and a turn that fails. -/
theorem exists_turn_of_step_error {n : Nat} {e : RunError} (h : (s.step n).2 = .error e) :
    (s.step n).1.state = .aborted (s.step n).1.machine.pc ∧
      ∃ k < n, ∃ r, (s.step k).2 = .ok r ∧ r.executed = k ∧ r.events = [] ∧
        FailsAt (s.step k).1.machine (s.step n).1.machine e := by
  cases finished : s.state.isFinished with
  | true => rw [step_of_finished finished] at h; cases h
  | false =>
      have failed : (run true n { s with state := .running } .fresh).2 = .error e := by
        rw [step_of_unfinished finished] at h
        generalize run true n _ _ = out at h
        obtain ⟨s', cause | r⟩ := out
        · cases h; rfl
        · cases h
      obtain ⟨k, lt, before, r, ran, going, executed, events, last⟩ :=
        exists_turn_of_run_error rfl failed
      obtain ⟨aborted, fails⟩ := failsAt_of_taken last
      have whole : (s.step n).1 = (run true n { s with state := .running } .fresh).1 := by
        rw [step_of_unfinished finished]
        exact settle_eq (by rw [aborted]; exact nofun)
      have part : s.step k = keptFor k (close (before, .ok r)) := by
        rw [step_of_unfinished finished, ran]
      have same : (keptFor k (close (before, .ok r))).1.machine = before.machine :=
        before.settle_machine
      -- closing a call settles the state of the run and leaves the machine alone
      rw [whole]
      refine ⟨aborted, k, lt, ?_⟩
      rw [part, same]
      exact ⟨_, rfl, executed.trans (Nat.zero_add k), events, fails⟩

end Simulator

/-- A failed request is atomic.  Evaluating, watching, unwatching and showing memory leave the
simulator as it was, but for the state of the run where the failure is too many tokens or a
division by zero: the run is then aborted at the current `pc`.  A call of `step` that fails
leaves the run aborted at the `pc` of its machine, on the instruction that trapped or behind the
one after which an expression lost its value.  That the pool is kept does not come from its being a
value: an arena that holds the same slots is not written where it refuses. -/
theorem failed_requests_atomic (s : Simulator) :
    (∀ text e, (s.evaluate text).2 = .error e →
      Atomic s (s.evaluate text).1 e.EndsRun ∧ (e.isFatal = true ↔ e.EndsRun)) ∧
    (∀ text e, (s.watch text).2 = .error e →
      Atomic s (s.watch text).1 e.EndsRun ∧ (e.isFatal = true ↔ e.EndsRun)) ∧
    (∀ id e, (s.unwatch id).2 = .error e → (s.unwatch id).1 = s ∧ e.isFatal = false) ∧
    (∀ count addr e, (s.examine count addr).2 = .error e →
      Atomic s (s.examine count addr).1 e.EndsRun) ∧
    (∀ n e, (s.step n).2 = .error e →
      (s.step n).1.state = .aborted (s.step n).1.machine.pc ∧
      ∃ k < n, ∃ r, (s.step k).2 = .ok r ∧ r.executed = k ∧ r.events = [] ∧
        Simulator.FailsAt (s.step k).1.machine (s.step n).1.machine e) ∧
    ∀ a : Arena, a.InBounds → a.pool = s.watches → a.Serves s.watches := by
  refine ⟨fun text e h => ?_, fun text e h => ?_, fun id e h => ?_, fun count addr e h => ?_,
    fun n e h => ?_, fun a h same => ?_⟩
  · exact ⟨Simulator.atomic_evaluate h, ExpressionError.isFatal_iff⟩
  · exact Simulator.atomic_watch h
  · exact Simulator.unwatch_eq_of_error h
  · exact Simulator.atomic_examine h
  · exact Simulator.exists_turn_of_step_error h
  · exact same ▸ Arena.serves h

/-- At the last instruction before the end of memory: a division by zero aborts the run and leaves
no watchpoint, a missing operand or slot changes nothing, and the instruction behind the last
one traps. -/
theorem failed_requests_atomic_at_end :
    let s := (Simulator.create { memory := ⟨0x80000000, 4⟩ }).perform
      (.load (.ofWords [0x00000297] 0x80000000))
    (s.watch "1 / 0").1 = { s with state := .aborted 0x80000000 } ∧
      (s.evaluate "1 /").1 = s ∧ (s.unwatch 40).1 = s ∧ (s.examine "8" "$pc").1 = s ∧
      (s.step 3).1.state = .aborted (s.step 3).1.machine.pc ∧
      ∃ k < 3, Simulator.FailsAt (s.step k).1.machine (s.step 3).1.machine
        (.trap (.fetchFault 0x80000004)) := by
  intro s
  have pc : s.machine.pc = 0x80000000 := by decide +kernel
  have divided : (s.watch "1 / 0").2 = .error (.expression .divisionByZero) := by decide +kernel
  have missing : (s.evaluate "1 /").2 = .error (.missingOperand 3) := by decide +kernel
  have vacant : (s.unwatch 40).2 = .error (.noSuchSlot 40) := by decide +kernel
  have outside : (s.examine "8" "$pc").2 = .error (.outOfWindow 0x80000000 8) := by decide +kernel
  have trapped : (s.step 3).2 = .error (.trap (.fetchFault 0x80000004)) := by decide +kernel
  obtain ⟨evaluated, watched, unwatched, examined, stepped, -⟩ := failed_requests_atomic s
  have aborted := (watched _ _ divided).1.aborted (.inl rfl)
  rw [pc] at aborted
  obtain ⟨state, k, lt, _, _, _, _, fails⟩ := stepped _ _ trapped
  exact ⟨aborted, (evaluated _ _ missing).1.unchanged (by simp [ExpressionError.EndsRun]),
    (unwatched _ _ vacant).1, (examined _ _ _ outside).unchanged id, state, k, lt, fails⟩

end HartMonitor
