/-
# `HartMonitor.Proofs.Simulator.Request` — simulators that requests lead to

A simulator is only ever asked for a few things, one after the other.  What holds at
the start and is kept by every request that is allowed holds of every simulator that
can be reached (`Reachable.invariant`).
-/
import HartMonitor.Simulator

namespace HartMonitor

/-- What a simulator can be asked for. -/
inductive Request where
  | load (image : Image)
  | step (n : Nat)
  | evaluate (text : String)
  | watch (text : String)
  | unwatch (id : Nat)
  | toggle (on : Bool)
  | examine (count addr : String)
  | registers
  | quit

namespace Simulator

/-- The simulator after a request, whatever the answer to it was. -/
def perform (s : Simulator) : Request → Simulator
  | .load image => (s.loadImage image).1
  | .step n => (s.step n).1
  | .evaluate text => (s.evaluate text).1
  | .watch text => (s.watch text).1
  | .unwatch id => (s.unwatch id).1
  | .toggle on => s.toggle on
  | .examine count addr => (s.examine count addr).1
  | .registers => s
  | .quit => s.quit

end Simulator

/-- The simulators that allowed requests lead to from a first one. -/
inductive Reachable (Allowed : Simulator → Request → Prop) (start : Simulator) : Simulator → Prop
  | start : Reachable Allowed start start
  | request {s : Simulator} {r : Request} : Reachable Allowed start s → Allowed s r →
      Reachable Allowed start (s.perform r)

/-- What every allowed request keeps is kept by all of them. -/
theorem Reachable.invariant {Allowed : Simulator → Request → Prop} {start s : Simulator}
    {P : Simulator → Prop} (h : Reachable Allowed start s) (first : P start)
    (keep : ∀ s r, P s → Allowed s r → P (s.perform r)) : P s := by
  induction h with
  | start => exact first
  | request _ allowed ih => exact keep _ _ ih allowed

namespace Simulator

/-! ## Requests that only look

They leave the machine and the pool as they are. -/

theorem evaluate_frame (s : Simulator) (text : String) :
    (s.evaluate text).1.machine = s.machine ∧ (s.evaluate text).1.watches = s.watches := by
  simp only [evaluate]
  split
  · exact ⟨rfl, rfl⟩
  · dsimp only
    split <;> exact ⟨rfl, rfl⟩

theorem examine_frame (s : Simulator) (count addr : String) :
    (s.examine count addr).1.machine = s.machine ∧
      (s.examine count addr).1.watches = s.watches := by
  have first := s.evaluate_frame count
  simp only [examine]
  generalize s.evaluate count = out at first ⊢
  obtain ⟨s₁, e | len⟩ := out
  · exact first
  · have second := s₁.evaluate_frame addr
    dsimp only at first ⊢
    generalize s₁.evaluate addr = out at second ⊢
    obtain ⟨s₂, e | start⟩ := out
    · exact ⟨second.1.trans first.1, second.2.trans first.2⟩
    · exact ⟨second.1.trans first.1, second.2.trans first.2⟩

end Simulator

end HartMonitor
