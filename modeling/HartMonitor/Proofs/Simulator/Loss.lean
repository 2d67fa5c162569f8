/-
# `HartMonitor.Proofs.Simulator.Loss` — how a watched expression loses its value

An expression is watched only from a machine on in which it has a value, and nothing
rewrites the expressions in a pool.  So every live slot holds an expression that had a
value once (`Maintained.valued`), in whatever machines the pool was used since; what
keeps it from having one now is in the machine (`ofMachine_of_evaluate`).
-/
import HartMonitor.Proofs.Expression.Stability
import HartMonitor.Proofs.Simulator.Invariant
import HartMonitor.Proofs.Watch.Slot
import HartMonitor.Proofs.Watch.Sweep

namespace HartMonitor

namespace WatchPool

/-- The pools that come from watching and unwatching, from sweeps, and from turning them on and
off, each of these in a machine of its own. -/
inductive Maintained : WatchPool → Prop
  | create (capacity : Nat) : Maintained (create capacity)
  | watch {p p' : WatchPool} {m : Machine} {text : String} {id : Nat} :
      Maintained p → p.watch m text = .ok (p', id) → Maintained p'
  | unwatch {p p' : WatchPool} {id : Nat} : Maintained p → p.free id = .ok p' → Maintained p'
  | toggle {p : WatchPool} (on : Bool) : Maintained p → Maintained (p.setEnabled on)
  | sweep {p : WatchPool} (m : Machine) : Maintained p → Maintained (p.checkIn m).1

theorem watch_ok {p p' : WatchPool} {m : Machine} {text : String} {id : Nat}
    (h : p.watch m text = .ok (p', id)) :
    ∃ value, evaluate m text = .ok value ∧ p.allocate text value = .ok (p', id) := by
  simp only [watch] at h
  split at h
  · cases h
  · next value valued =>
    split at h
    · cases h
    · next watched taken =>
      cases h
      exact ⟨value, valued, taken⟩

namespace Maintained

variable {p : WatchPool}

/-- Every watched expression had a value in some machine. -/
theorem valued (h : Maintained p) :
    ∀ w, some w ∈ p.slots → ∃ m value, evaluate m w.expression = .ok value := by
  induction h with
  | create capacity =>
      intro w hw
      cases (List.mem_replicate.mp hw).2
  | @watch p p' m text id _ taken ih =>
      intro w hw
      obtain ⟨value, valued, taken⟩ := watch_ok taken
      rcases (allocate_ok taken).2 w hw with old | rfl
      · exact ih w old
      · exact ⟨m, value, valued⟩
  | unwatch _ freed ih =>
      intro w hw
      exact ih w ((free_ok freed).2 w hw)
  | toggle on _ ih => exact ih
  | sweep m _ ih =>
      intro w hw
      obtain ⟨old, mem, same⟩ := exists_of_mem_check hw
      rw [← same]
      exact ih old mem

/-- A sweep of such a pool fails at an expression that the machine keeps from having a value. -/
theorem ofMachine_of_checkIn (h : Maintained p) {p' : WatchPool} {m : Machine} {e : PoolError}
    (failed : p.checkIn m = (p', .error e)) :
    ∃ id text cause, e = .lostValue id text cause ∧ cause.OfMachine := by
  obtain ⟨w, mem, cause, hc, rfl⟩ := check_error (enabled_of_check_error failed) failed
  have once : ∃ m₀ value, evaluate m₀ w.expression = .ok value :=
    (forall_mem_liveFrom (P := fun text _ => ∃ m₀ value, evaluate m₀ text = .ok value)).mpr
      h.valued w mem
  obtain ⟨m₀, value, valued⟩ := once
  exact ⟨w.id, w.expression, cause, rfl, ofMachine_of_evaluate valued hc⟩

theorem of_checkIn (h : Maintained p) {p' : WatchPool} {m : Machine}
    {outcome : Except PoolError (List WatchEvent)} (swept : p.checkIn m = (p', outcome)) :
    Maintained p' := by
  have next := h.sweep m
  rwa [swept] at next

end Maintained

end WatchPool

/-! ## Pools of simulators -/

open WatchPool

theorem maintained_lasting : Lasting fun s => Maintained s.watches where
  turn h taken := by
    cases taken with
    | went _ swept | fired _ swept _ | lost _ swept => exact h.of_checkIn swept
    | ended | trapped => exact h
  state _ h := h

theorem Taken.exists_of_lost {s s' : Simulator} {id : Nat} {text : String}
    {cause : ExpressionError} (h : Taken s (s', .failed (.lostWatchpoint id text cause))) :
    ∃ m p', s.watches.checkIn m = (p', .error (.lostValue id text cause)) := by
  generalize failed : Turn.failed _ = t at h
  cases h with
  | @lost machine _ watches e _ swept =>
      refine ⟨machine, watches, ?_⟩
      cases e with
      | lostValue => cases failed; exact swept
      | _ => cases failed
  | _ => cases failed

theorem maintained_perform {s : Simulator} (h : Maintained s.watches) (r : Request) :
    Maintained (s.perform r).watches := by
  cases r with
  | load image =>
      simp only [Simulator.perform, Simulator.loadImage]
      split <;> exact h
  | step n => exact maintained_lasting.step h n
  | evaluate text =>
      rw [Simulator.perform, (s.evaluate_frame text).2]
      exact h
  | watch text =>
      simp only [Simulator.perform, Simulator.watch]
      split
      · next taken => exact .watch h taken
      · split <;> exact h
  | unwatch id =>
      simp only [Simulator.perform, Simulator.unwatch]
      split
      · next freed => exact .unwatch h freed
      · exact h
  | toggle on => exact .toggle on h
  | examine count addr =>
      rw [Simulator.perform, (s.examine_frame count addr).2]
      exact h
  | registers => exact h
  | quit => exact h

theorem maintained_of_reachable {config : Config} {Allowed : Simulator → Request → Prop}
    {s : Simulator} (h : Reachable Allowed (.create config) s) : Maintained s.watches :=
  h.invariant (P := fun s => Maintained s.watches) (.toggle _ (.create _))
    fun _ r kept _ => maintained_perform kept r

/-- Whether a text is an expression does not depend on the machine.  Where it has a value in one
machine, it has a value in any other or fails for what that machine has.  So an expression that
was watched once, wherever that was, loses its value for this reason only; and nothing else is
ever lost from a pool that is filled by watching, in a simulator or by itself, whatever they are
asked for. -/
theorem values_lost_to_machine_only :
    (∀ text m m', (∃ w, evaluate m text = .ok w) →
      (∃ w, evaluate m' text = .ok w) ∨
        ∃ cause, evaluate m' text = .error cause ∧ cause.OfMachine) ∧
    (∀ (p : WatchPool) m text watched, p.watch m text = .ok watched →
      ∀ (q : WatchPool) m' q' id cause,
        q.checkIn m' = (q', .error (.lostValue id text cause)) → cause.OfMachine) ∧
    (∀ p, Maintained p → ∀ m p' e, p.checkIn m = (p', .error e) →
      ∃ id text cause, e = .lostValue id text cause ∧ cause.OfMachine) ∧
    ∀ config s, Reachable (fun _ _ => True) (.create config) s →
      ∀ n id text cause, (s.step n).2 = .error (.lostWatchpoint id text cause) →
        cause.OfMachine := by
  refine ⟨fun text m m' ⟨w, valued⟩ => ?_, fun p m text watched taken q m' q' id cause failed => ?_,
    fun p h m p' e => h.ofMachine_of_checkIn, fun config s h n id text cause failed => ?_⟩
  · cases outcome : evaluate m' text with
    | ok w' => exact .inl ⟨w', rfl⟩
    | error cause => exact .inr ⟨cause, rfl, ofMachine_of_evaluate valued outcome⟩
  · obtain ⟨value, valued, -⟩ := watch_ok taken
    obtain ⟨w, -, cause', hc, same⟩ := check_error (enabled_of_check_error failed) failed
    cases same
    exact ofMachine_of_evaluate valued hc
  · obtain ⟨s₁, s₂, kept, taken⟩ :=
      maintained_lasting.failure_of_step (maintained_of_reachable h) failed
    obtain ⟨m, p', lost⟩ := taken.exists_of_lost
    obtain ⟨_, _, _, same, found⟩ := kept.ofMachine_of_checkIn lost
    cases same
    exact found

/-- The byte at `$pc` is lost with the last instruction before the end of memory: it is the
machine that has no such byte. -/
theorem values_lost_to_machine_only_at_end :
    let s := ((Simulator.create { memory := ⟨0x80000000, 4⟩ }).perform
      (.load (.ofWords [0x00000297] 0x80000000))).perform (.watch "*$pc")
    evaluate s.machine "*$pc" = .ok 0x97 ∧
      (s.step 1).2 = .error (.lostWatchpoint 0 "*$pc" (.outsideWindow 0x80000004)) ∧
      (ExpressionError.outsideWindow 0x80000004).OfMachine := by
  intro s
  have failed : (s.step 1).2 = .error (.lostWatchpoint 0 "*$pc" (.outsideWindow 0x80000004)) := by
    decide +kernel
  have reached : Reachable (fun _ _ => True) (.create { memory := ⟨0x80000000, 4⟩ }) s :=
    .request (.request .start trivial) trivial
  exact ⟨by decide +kernel, failed,
    values_lost_to_machine_only.2.2.2 _ s reached 1 0 _ _ failed⟩

end HartMonitor
