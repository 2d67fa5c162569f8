/-
# `HartMonitor.Proofs.Simulator.Invariant` — what every turn keeps

A property that says nothing of the state of the run and that every turn keeps is kept
by runs and by calls of `step`, however they come out.  A call that fails does so at one
turn, and a call with events finds them at one, taken where the property still held:

    turn ⟶ run ⟶ step        Lasting.run, Lasting.step
    a failure                 Lasting.failure_of_step
    events                    Lasting.fired_of_step

Requests that neither load, execute nor quit do one of two things (`Idle.requested`).
-/
import HartMonitor.Proofs.Simulator.Request
import HartMonitor.Proofs.Simulator.Split

namespace HartMonitor

/-- A property of simulators that turns keep, and that the state of the run has no part in. -/
structure Lasting (P : Simulator → Prop) : Prop where
  turn : ∀ {s s' : Simulator} {t : Turn}, P s → Taken s (s', t) → P s'
  state : ∀ {s : Simulator} (state : RunStatus), P s → P { s with state := state }

namespace Lasting

variable {P : Simulator → Prop} (lasting : Lasting P)
include lasting

theorem run {keep : Bool} {n : Nat} : ∀ {s : Simulator} {report : RunReport}, P s →
    P (Simulator.run keep n s report).1 := by
  induction n with
  | zero => intro s report h; exact h
  | succ n ih =>
      intro s report h
      have taken := s.taken_turn
      simp only [Simulator.run]
      generalize s.turn = out at taken
      obtain ⟨s', step | ⟨step, events⟩ | _ | e⟩ := out
      · exact ih (lasting.turn h taken)
      · exact lasting.turn h taken
      · exact lasting.turn h taken
      · exact lasting.turn h taken

/-- A run that fails takes a turn that fails. -/
theorem failure_of_run {keep : Bool} {n : Nat} {e : RunError} :
    ∀ {s : Simulator} {report : RunReport}, P s →
      (Simulator.run keep n s report).2 = .error e →
      ∃ s₁ s₂, P s₁ ∧ Taken s₁ (s₂, .failed e) := by
  induction n with
  | zero => intro s report _ failed; cases failed
  | succ n ih =>
      intro s report h failed
      have taken := s.taken_turn
      simp only [Simulator.run] at failed
      generalize s.turn = out at taken failed
      obtain ⟨s', step | ⟨step, events⟩ | _ | e⟩ := out
      · exact ih (lasting.turn h taken) failed
      · cases failed
      · cases failed
      · cases failed
        exact ⟨s, s', h, taken⟩

theorem settle {s : Simulator} (h : P s) : P s.settle := by
  rw [Simulator.settle]
  split
  · exact lasting.state .stopped h
  · exact h

theorem step {s : Simulator} (h : P s) (n : Nat) : P (s.step n).1 := by
  cases finished : s.state.isFinished with
  | true => rw [Simulator.step_of_finished finished]; exact h
  | false =>
      rw [Simulator.step_of_unfinished finished]
      exact lasting.settle (lasting.run (lasting.state .running h))

/-- A call of `step` that fails takes a turn that fails. -/
theorem failure_of_step {s : Simulator} (h : P s) {n : Nat} {e : RunError}
    (failed : (s.step n).2 = .error e) : ∃ s₁ s₂, P s₁ ∧ Taken s₁ (s₂, .failed e) := by
  cases finished : s.state.isFinished with
  | true => rw [Simulator.step_of_finished finished] at failed; cases failed
  | false =>
      rw [Simulator.step_of_unfinished finished] at failed
      have ran := @failure_of_run _ lasting true n e { s with state := .running } .fresh
      refine ran (lasting.state .running h) ?_
      generalize Simulator.run true n _ _ = out at failed
      obtain ⟨s', e' | r⟩ := out
      · cases failed; rfl
      · cases failed

theorem fired_of_run {keep : Bool} {n : Nat} {r : RunReport} :
    ∀ {s : Simulator} {report : RunReport}, P s → (Simulator.run keep n s report).2 = .ok r →
      r.events = report.events ∨ ∃ s₁ s₂ step, P s₁ ∧ Taken s₁ (s₂, .fired step r.events) := by
  induction n with
  | zero => intro s report _ returned; cases returned; exact .inl rfl
  | succ n ih =>
      intro s report h returned
      have taken := s.taken_turn
      simp only [Simulator.run] at returned
      generalize s.turn = out at taken returned
      obtain ⟨s', step | ⟨step, events⟩ | _ | e⟩ := out
      · exact @ih s' (report.add keep step) (lasting.turn h taken) returned
      · cases returned
        exact .inr ⟨s, s', step, h, taken⟩
      · cases returned
        exact .inl rfl
      · cases returned

/-- A call of `step` with events takes a turn that finds them. -/
theorem fired_of_step {s : Simulator} (h : P s) {n : Nat} {r : RunReport}
    (returned : (s.step n).2 = .ok r) :
    r.events = [] ∨ ∃ s₁ s₂ step, P s₁ ∧ Taken s₁ (s₂, .fired step r.events) := by
  cases finished : s.state.isFinished with
  | true =>
      rw [Simulator.step_of_finished finished] at returned
      cases returned
      exact .inl rfl
  | false =>
      rw [Simulator.step_of_unfinished finished] at returned
      have ran := fun r' => @fired_of_run _ lasting true n r' { s with state := .running } .fresh
      generalize Simulator.run true n _ _ = out at ran returned
      obtain ⟨s', e | r'⟩ := out
      · cases returned
      · cases returned
        exact ran r' (lasting.state .running h) rfl

end Lasting

/-! ## Requests that execute nothing -/

def Request.Idle : Request → Prop
  | .load _ | .step _ | .quit => False
  | _ => True

/-- An idle request leaves the machine and the statistics as they are; it may abort the run
where it stands. -/
structure Requested (s s' : Simulator) : Prop where
  machine : s'.machine = s.machine
  statistics : s'.statistics = s.statistics
  state : s'.state = s.state ∨ s'.state = .aborted s.machine.pc

namespace Requested

variable {s s₁ s₂ : Simulator}

theorem pool (watches : WatchPool) : Requested s { s with watches := watches } :=
  ⟨rfl, rfl, .inl rfl⟩

theorem abortIf (s : Simulator) (fatal : Bool) : Requested s (if fatal then s.abort else s) := by
  cases fatal with
  | true => exact ⟨rfl, rfl, .inr rfl⟩
  | false => exact ⟨rfl, rfl, .inl rfl⟩

theorem trans (first : Requested s s₁) (second : Requested s₁ s₂) : Requested s s₂ where
  machine := second.machine.trans first.machine
  statistics := second.statistics.trans first.statistics
  state := by
    rcases second.state with same | aborted
    · rw [same]; exact first.state
    · rw [aborted, first.machine]; exact .inr rfl

theorem evaluate (s : Simulator) (text : String) : Requested s (s.evaluate text).1 := by
  simp only [Simulator.evaluate]
  split
  · exact .pool s.watches
  · exact .abortIf s _

theorem watch (s : Simulator) (text : String) : Requested s (s.watch text).1 := by
  simp only [Simulator.watch]
  split
  · exact .pool _
  · exact .abortIf s _

theorem unwatch (s : Simulator) (id : Nat) : Requested s (s.unwatch id).1 := by
  simp only [Simulator.unwatch]
  split
  · exact .pool _
  · exact .pool s.watches

theorem examine (s : Simulator) (count addr : String) : Requested s (s.examine count addr).1 := by
  have first := Requested.evaluate s count
  simp only [Simulator.examine]
  generalize s.evaluate count = out at first
  obtain ⟨s₁, e | len⟩ := out
  · exact first
  · have second := Requested.evaluate s₁ addr
    dsimp only at first ⊢
    generalize s₁.evaluate addr = out at second
    obtain ⟨s₂, e | start⟩ := out
    · exact first.trans second
    · exact first.trans second

end Requested

theorem Request.Idle.requested {r : Request} (idle : r.Idle) (s : Simulator) :
    Requested s (s.perform r) := by
  cases r with
  | load image => exact idle.elim
  | step n => exact idle.elim
  | evaluate text => exact .evaluate s text
  | watch text => exact .watch s text
  | unwatch id => exact .unwatch s id
  | toggle on => exact .pool _
  | examine count addr => exact .examine s count addr
  | registers => exact .pool s.watches
  | quit => exact idle.elim

end HartMonitor
