/-
# `HartMonitor.Proofs.Simulator.Status` — where a run stands between requests

Two things are disturbed in the middle of a call and put back before it returns: the
state is `running` while turns are taken, and an instruction may write register zero.
Neither is ever seen from outside (`Settled`).

A run that has ended or was aborted stays finished, until the user quits:

    loading               memory and `pc` may change, the run stays finished
    stepping              nothing at all is done
    any other request     machine and counts stay as they are, the run stays finished
-/
import HartMonitor.Proofs.Machine.Precise
import HartMonitor.Proofs.Simulator.Invariant

namespace HartMonitor

/-- No call is under way, and register zero is at zero. -/
structure Settled (s : Simulator) : Prop where
  state : s.state ≠ .running
  zero : s.machine.regs.read 0 = 0

theorem zero_lasting : Lasting fun s => s.machine.regs.read 0 = 0 where
  turn zero taken := by
    cases taken with
    | went hs | fired hs | lost hs => exact Machine.read_zero_of_step hs
    | ended hs | trapped hs => rw [Machine.eq_of_step_error zero hs]; exact zero
  state _ zero := zero

theorem settle_state_ne (s : Simulator) : s.settle.state ≠ .running := by
  rw [Simulator.settle]
  split
  · intro running
    cases running
  · assumption

theorem loadImage_frame (s : Simulator) (image : Image) :
    (s.loadImage image).1.machine.regs = s.machine.regs ∧
      (s.loadImage image).1.state = s.state := by
  simp only [Simulator.loadImage]
  split <;> exact ⟨rfl, rfl⟩

namespace Settled

variable {s s' : Simulator}

theorem create (config : Config) : Settled (.create config) where
  state := nofun
  zero := by simp [Simulator.create, Registers.zeros, Registers.read]

theorem load (h : Settled s) (image : Image) : Settled (s.loadImage image).1 where
  state := by rw [(loadImage_frame s image).2]; exact h.state
  zero := by rw [(loadImage_frame s image).1]; exact h.zero

theorem step (h : Settled s) (n : Nat) : Settled (s.step n).1 where
  state := by
    cases finished : s.state.isFinished with
    | true => rw [Simulator.step_of_finished finished]; exact h.state
    | false => rw [Simulator.step_of_unfinished finished]; exact settle_state_ne _
  zero := zero_lasting.step h.zero n

theorem requested (h : Settled s) (requested : Requested s s') : Settled s' where
  state := by
    rcases requested.state with same | aborted
    · rw [same]; exact h.state
    · rw [aborted]; exact nofun
  zero := by rw [requested.machine]; exact h.zero

theorem perform (h : Settled s) (r : Request) : Settled (s.perform r) := by
  match r with
  | .load image => exact h.load image
  | .step n => exact h.step n
  | .quit => exact ⟨nofun, h.zero⟩
  | .evaluate _ | .watch _ | .unwatch _ | .toggle _ | .examine _ _ | .registers =>
      exact h.requested (Request.Idle.requested (by trivial) s)

theorem of_reachable {config : Config} {Allowed : Simulator → Request → Prop}
    (h : Reachable Allowed (.create config) s) : Settled s :=
  h.invariant (.create config) fun _ r settled _ => settled.perform r

end Settled

/-! ## Finished runs -/

theorem Requested.isFinished {s s' : Simulator} (h : Requested s s')
    (finished : s.state.isFinished = true) : s'.state.isFinished = true := by
  rcases h.state with same | aborted
  · rw [same]; exact finished
  · rw [aborted]; rfl

/-- A finished run takes no part in requests other than loading and quitting. -/
theorem Requested.of_finished {s : Simulator} (finished : s.state.isFinished = true) {r : Request}
    (stays : r ≠ .quit) (unloaded : ∀ image, r ≠ .load image) : Requested s (s.perform r) := by
  match r with
  | .load image => exact absurd rfl (unloaded image)
  | .quit => exact absurd rfl stays
  | .step n =>
      rw [Simulator.perform, Simulator.step_of_finished finished]
      exact .pool s.watches
  | .evaluate _ | .watch _ | .unwatch _ | .toggle _ | .examine _ _ | .registers =>
      exact Request.Idle.requested (by trivial) s

/-- Quitting alone takes a finished run to where it is not finished. -/
theorem isFinished_perform {s : Simulator} (finished : s.state.isFinished = true) {r : Request}
    (stays : r ≠ .quit) : (s.perform r).state.isFinished = true := by
  by_cases loads : ∃ image, r = .load image
  · obtain ⟨image, rfl⟩ := loads
    rw [Simulator.perform, (loadImage_frame s image).2]
    exact finished
  · exact (Requested.of_finished finished stays fun image h => loads ⟨image, h⟩).isFinished finished

/-- Whatever a simulator is asked for, between requests no call is under way and register zero is
at zero.  Once the run is finished it stays so until the user quits; no request but loading
then changes the machine or a count, and no instruction is executed. -/
theorem settled_and_finished_for_good {config : Config} {s : Simulator}
    (h : Reachable (fun _ _ => True) (.create config) s) :
    s.state ≠ .running ∧ s.machine.regs.read 0 = 0 ∧
      (s.state.isFinished = true → ∀ s', Reachable (fun _ r => r ≠ .quit) s s' →
        (∀ r, r ≠ .quit → (∀ image, r ≠ .load image) →
          (s'.perform r).machine = s'.machine ∧ (s'.perform r).statistics = s'.statistics ∧
            (s'.perform r).state.isFinished = true) ∧
        ∀ n, s'.step n = (s', .ok ⟨0, [], [], s'.state⟩)) := by
  have settled := Settled.of_reachable h
  refine ⟨settled.state, settled.zero, fun finished s' later => ?_⟩
  have finished' : s'.state.isFinished = true :=
    later.invariant (P := fun s => s.state.isFinished = true) finished
      fun _ _ still stays => isFinished_perform still stays
  refine ⟨fun r stays unloaded => ?_, Simulator.step_of_finished finished'⟩
  have same := Requested.of_finished finished' stays unloaded
  exact ⟨same.machine, same.statistics, same.isFinished finished'⟩

/-- A run that goes off the end of memory is aborted.  Its registers can still be watched, and
nothing is executed any more. -/
theorem settled_and_finished_for_good_off_memory :
    let s := ((Simulator.create { memory := ⟨0x80000000, 4⟩ }).perform
      (.load (.ofWords [0x00000297] 0x80000000))).perform (.step 10)
    let s' := s.perform (.watch "$t0")
    s.state = .aborted 0x80000004 ∧ s.machine.regs.read 0 = 0 ∧
      s'.watches.toList = [⟨0, "$t0", 0x80000000⟩] ∧ s'.statistics = s.statistics ∧
      s'.step 10 = (s', .ok ⟨0, [], [], s'.state⟩) := by
  intro s s'
  have reached : Reachable (fun _ _ => True) (.create { memory := ⟨0x80000000, 4⟩ }) s :=
    .request (.request .start trivial) trivial
  have aborted : s.state = .aborted 0x80000004 := by decide +kernel
  have watched : s'.watches.toList = [⟨0, "$t0", 0x80000000⟩] := by decide +kernel
  obtain ⟨-, zero, later⟩ := settled_and_finished_for_good reached
  have finished : s.state.isFinished = true := by rw [aborted]; rfl
  have kept := (later finished s .start).1 (.watch "$t0") nofun nofun
  have still := (later finished s' (.request .start nofun)).2
  exact ⟨aborted, zero, watched, kept.2.1, still 10⟩

end HartMonitor
