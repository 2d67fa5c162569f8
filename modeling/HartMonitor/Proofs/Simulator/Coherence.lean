/-
# `HartMonitor.Proofs.Simulator.Coherence` — watched values are those of the machine

With sweeping turned on, every live slot holds the value that its expression has now.
The invariant (`Coherent`) is kept

    by a turn        the sweep after the instruction puts the new values in, and a machine
                     that traps is the machine it was, register zero being at zero
    by a request     looking changes neither machine nor pool, and a new slot starts
                     with the value of now

as long as no watched expression loses its value.  From it follows what a call of
`step` does (`Coherent.observed_step`): it stops at the first instruction that changes a watched
value, and its events are the changes that this instruction makes.
-/
import HartMonitor.Proofs.Expression.Agreement
import HartMonitor.Proofs.Machine.Precise
import HartMonitor.Proofs.Simulator.Request
import HartMonitor.Proofs.Simulator.Split
import HartMonitor.Proofs.Watch.Slot
import HartMonitor.Proofs.Watch.Sweep
import Mathlib.Data.List.Basic

namespace HartMonitor

/-- The machine after some instructions, those that trap included. -/
def Machine.after (m : Machine) : Nat → Machine
  | 0 => m
  | i + 1 => m.step.1.after i

/-- The changes of watched values from one machine to another, in the order of the ids. -/
def changes (before after : Machine) (ws : List Watchpoint) : List WatchEvent :=
  ws.filterMap fun w =>
    match evaluate before w.expression, evaluate after w.expression with
    | .ok old, .ok new => if new = old then none else some ⟨w.id, w.expression, old, new⟩
    | _, _ => none

/-- Every watched expression has the value last seen for it. -/
def Current (m : Machine) (ws : List Watchpoint) : Prop :=
  ∀ w ∈ ws, evaluate m w.expression = .ok w.last

/-- Sweeping is on, register zero is at zero, and the pool shows the values of the machine. -/
structure Coherent (s : Simulator) : Prop where
  enabled : s.watches.enabled = true
  zero : s.machine.regs.read 0 = 0
  agrees : WatchPool.Agrees (evaluate s.machine) s.watches.slots

namespace Coherent

variable {s s' : Simulator}

theorem current (h : Coherent s) : Current s.machine s.watches.toList :=
  (WatchPool.forall_mem_liveFrom
    (P := fun text last => evaluate s.machine text = .ok last)).mpr h.agrees

theorem of_eq (h : Coherent s) (machine : s'.machine = s.machine)
    (watches : s'.watches = s.watches) : Coherent s' :=
  ⟨watches ▸ h.enabled, machine ▸ h.zero, machine ▸ watches ▸ h.agrees⟩

/-! ## Turns and runs -/

/-- No turn breaks coherence but one that loses a value. -/
theorem of_taken {t : Turn} (h : Coherent s) (taken : Taken s (s', t))
    (kept : ∀ id text cause, t ≠ .failed (.lostWatchpoint id text cause)) : Coherent s' := by
  cases taken with
  | went hs hw =>
      obtain ⟨on, agrees, -⟩ := WatchPool.check_ok h.enabled hw
      exact ⟨on, Machine.read_zero_of_step hs, agrees⟩
  | fired hs hw _ =>
      obtain ⟨on, agrees, -⟩ := WatchPool.check_ok h.enabled hw
      exact ⟨on, Machine.read_zero_of_step hs, agrees⟩
  | lost hs hw =>
      obtain ⟨w, -, cause, -, rfl⟩ := WatchPool.check_error h.enabled hw
      exact absurd rfl (kept w.id w.expression cause)
  | ended hs => exact h.of_eq (Machine.eq_of_step_error h.zero hs) rfl
  | trapped hs _ => exact h.of_eq (Machine.eq_of_step_error h.zero hs) rfl

theorem run {n : Nat} : ∀ {s : Simulator} {report : RunReport}, Coherent s →
    (∀ id text cause,
      (Simulator.run true n s report).2 ≠ .error (.lostWatchpoint id text cause)) →
    Coherent (Simulator.run true n s report).1 := by
  induction n with
  | zero => intro s report h _; exact h
  | succ n ih =>
      intro s report h kept
      have taken := s.taken_turn
      simp only [Simulator.run] at kept ⊢
      generalize s.turn = out at taken kept ⊢
      obtain ⟨s', step | ⟨step, events⟩ | _ | e⟩ := out
      · exact ih (h.of_taken taken fun _ _ _ h => by cases h) kept
      · exact h.of_taken taken fun _ _ _ h => by cases h
      · exact h.of_taken taken fun _ _ _ h => by cases h
      · refine h.of_taken taken fun id text cause he => ?_
        cases he
        exact kept id text cause rfl

theorem settle (h : Coherent s) : Coherent s.settle := by
  rw [Simulator.settle]
  split
  · exact h.of_eq rfl rfl
  · exact h

theorem step (h : Coherent s) (n : Nat)
    (kept : ∀ id text cause, (s.step n).2 ≠ .error (.lostWatchpoint id text cause)) :
    Coherent (s.step n).1 := by
  cases finished : s.state.isFinished with
  | true => rw [Simulator.step_of_finished finished]; exact h
  | false =>
      rw [Simulator.step_of_unfinished finished] at kept ⊢
      have start : Coherent { s with state := .running } := h.of_eq rfl rfl
      refine (start.run fun id text cause he => kept id text cause ?_).settle
      simp only [Simulator.keptFor, Simulator.close, he, Except.map]

/-! ## Requests -/

theorem watch (h : Coherent s) (text : String) : Coherent (s.watch text).1 := by
  simp only [Simulator.watch, WatchPool.watch]
  cases hv : HartMonitor.evaluate s.machine text with
  | error e =>
      dsimp only
      split <;> exact h.of_eq rfl rfl
  | ok value =>
      dsimp only
      cases ha : s.watches.allocate text value with
      | error e =>
          dsimp only
          split <;> exact h.of_eq rfl rfl
      | ok watched =>
          obtain ⟨enabled, slots⟩ := WatchPool.allocate_ok ha
          refine ⟨enabled.trans h.enabled, h.zero, fun w hw => ?_⟩
          rcases slots w hw with old | rfl
          · exact h.agrees w old
          · exact hv

theorem unwatch (h : Coherent s) (id : Nat) : Coherent (s.unwatch id).1 := by
  simp only [Simulator.unwatch]
  cases hf : s.watches.free id with
  | error e => exact h
  | ok watches =>
      obtain ⟨enabled, slots⟩ := WatchPool.free_ok hf
      exact ⟨enabled.trans h.enabled, h.zero, fun w hw => h.agrees w (slots w hw)⟩

theorem load (h : Coherent s) (image : Image) (none : s.watches.toList = []) :
    Coherent (s.loadImage image).1 := by
  have vacant : ∀ w, some w ∉ s.watches.slots := by
    have := (WatchPool.forall_mem_liveFrom (P := fun _ _ => False)).mp
      (show ∀ w ∈ WatchPool.liveFrom 0 s.watches.slots, False by
        intro w hw; rw [← WatchPool.toList, none] at hw; cases hw)
    exact this
  simp only [Simulator.loadImage]
  split <;> exact ⟨h.enabled, h.zero, fun w hw => absurd hw (vacant w)⟩

theorem create {config : Config} (enabled : config.monitor.watchpointsEnabled = true) :
    Coherent (Simulator.create config) := by
  refine ⟨enabled, ?_, fun w hw => ?_⟩
  · simp [Simulator.create, Registers.zeros, Registers.read]
  · simp [Simulator.create, WatchPool.create, WatchPool.setEnabled] at hw

end Coherent

/-- The requests that keep watched values in step with the machine: an image is loaded only
while nothing is watched, sweeping stays on, and no call of `step` loses a watched value. -/
def Attended (s : Simulator) : Request → Prop
  | .load _ => s.watches.toList = []
  | .step n => ∀ id text cause, (s.step n).2 ≠ .error (.lostWatchpoint id text cause)
  | .toggle on => on = true
  | _ => True

theorem Coherent.perform {s : Simulator} (h : Coherent s) {r : Request} (attended : Attended s r) :
    Coherent (s.perform r) := by
  cases r with
  | load image => exact h.load image attended
  | step n => exact h.step n attended
  | evaluate text => exact h.of_eq (s.evaluate_frame text).1 (s.evaluate_frame text).2
  | watch text => exact h.watch text
  | unwatch id => exact h.unwatch id
  | toggle on => exact ⟨attended, h.zero, h.agrees⟩
  | examine count addr =>
      exact h.of_eq (s.examine_frame count addr).1 (s.examine_frame count addr).2
  | registers => exact h
  | quit => exact h.of_eq rfl rfl

theorem Coherent.of_reachable {config : Config} (enabled : config.monitor.watchpointsEnabled = true)
    {s : Simulator} (h : Reachable Attended (Simulator.create config) s) : Coherent s :=
  h.invariant (.create enabled) fun _ _ coherent => coherent.perform

/-! ## What a call of `step` does -/

theorem changes_of_current {before after : Machine} {ws : List Watchpoint}
    (h : Current before ws) :
    changes before after ws = ws.filterMap (WatchPool.change? (evaluate after)) := by
  refine List.filterMap_congr fun w hw => ?_
  rw [h w hw, WatchPool.change?]
  cases evaluate after w.expression <;> rfl

theorem changes_eq_nil {before after : Machine} {ws : List Watchpoint} (h : Current before ws)
    (h' : Current after ws) : changes before after ws = [] := by
  rw [changes_of_current h]
  refine List.filterMap_eq_nil_iff.mpr fun w hw => ?_
  rw [WatchPool.change?, h' w hw]
  exact if_pos rfl

/-- `Ran s k s' events`: from `s` on, `k` instructions lead to `s'`.  None of them but the last
changes a watched value, and the events are the changes that the last one makes. -/
structure Ran (s : Simulator) (k : Nat) (s' : Simulator) (events : List WatchEvent) : Prop where
  machine : s'.machine = s.machine.after k
  quiet : ∀ i < k, Current (s.machine.after i) s.watches.toList
  valued : ∀ w ∈ s.watches.toList, ∃ value, evaluate (s.machine.after k) w.expression = .ok value
  events : events = changes (s.machine.after (k - 1)) (s.machine.after k) s.watches.toList

namespace Ran

variable {s s₁ s' : Simulator} {events : List WatchEvent}

/-- No instruction at all. -/
theorem zero (h : Coherent s) (machine : s'.machine = s.machine) : Ran s 0 s' [] where
  machine := machine
  quiet := fun _ hi => absurd hi (Nat.not_lt_zero _)
  valued := fun w hw => ⟨w.last, h.current w hw⟩
  events := (changes_eq_nil h.current h.current).symm

/-- A first instruction that changes no watched value, and others after it. -/
theorem cons {k : Nat} (h : Coherent s) (h₁ : Coherent s₁)
    (machine : s₁.machine = s.machine.step.1) (watches : s₁.watches = s.watches)
    (ran : Ran s₁ k s' events) : Ran s (k + 1) s' events where
  machine := by rw [ran.machine, machine]; rfl
  quiet := by
    intro i hi
    cases i with
    | zero => exact h.current
    | succ i =>
        have := ran.quiet i (by omega)
        rwa [machine, watches] at this
  valued := by
    have := ran.valued
    rwa [machine, watches] at this
  events := by
    have last := ran.events
    cases k with
    | zero =>
        have first : Current s.machine.step.1 s.watches.toList := by
          rw [← machine, ← watches]; exact h₁.current
        exact last.trans ((changes_eq_nil h₁.current h₁.current).trans
          (changes_eq_nil h.current first).symm)
    | succ k => rwa [machine, watches] at last

/-- One instruction that changes watched values. -/
theorem single (h : Coherent s) (machine : s'.machine = s.machine.step.1)
    (valued : ∀ w ∈ s.watches.toList, ∃ value, evaluate s'.machine w.expression = .ok value)
    (found : events = s.watches.toList.filterMap (WatchPool.change? (evaluate s'.machine))) :
    Ran s 1 s' events where
  machine := machine
  quiet := by
    intro i hi
    obtain rfl : i = 0 := by omega
    exact h.current
  valued := by rwa [machine] at valued
  events := by
    rw [found, machine]
    exact (changes_of_current h.current).symm

end Ran

/-- `Observed s n outcome`: what a call of `step` with the budget `n` may come to. -/
inductive Observed (s : Simulator) (n : Nat) : Simulator × Except RunError RunReport → Prop
  /-- The budget is used up, or the run has stopped at the last instruction: at a change of a
  watched value, or at the end of the program. -/
  | ran {s' : Simulator} {r : RunReport} : r.executed ≤ n → Ran s r.executed s' r.events →
      (r.events ≠ [] → s'.state = .stopped) →
      (r.executed < n → r.events ≠ [] ∨ s'.state.isFinished = true) → Observed s n (s', .ok r)
  /-- No instruction before the one that traps has changed a watched value. -/
  | trapped {s' : Simulator} {k : Nat} {t : Trap} : k < n → Ran s k s' [] →
      (s.machine.after k).step.2 = .error t → Observed s n (s', .error (.trap t))
  /-- No instruction before the one that takes a watched value away has changed one. -/
  | lost {s' : Simulator} {k : Nat} {w : Watchpoint} {cause : ExpressionError} : k < n →
      (∀ i ≤ k, Current (s.machine.after i) s.watches.toList) →
      s'.machine = s.machine.after (k + 1) → w ∈ s.watches.toList →
      evaluate (s.machine.after (k + 1)) w.expression = .error cause →
      Observed s n (s', .error (.lostWatchpoint w.id w.expression cause))

/-- A turn that goes on, before a run. -/
theorem Observed.cons {s s₁ : Simulator} {n : Nat} {step : Step}
    {outcome : Simulator × Except RunError RunReport} (h : Coherent s) (h₁ : Coherent s₁)
    (machine : s₁.machine = s.machine.step.1) (watches : s₁.watches = s.watches)
    (observed : Observed s₁ n outcome) :
    Observed s (n + 1)
      (outcome.1, outcome.2.map (RunReport.fresh.add true step).append) := by
  cases observed with
  | @ran s' r le ran stopped early =>
      have more : (RunReport.fresh.add true step).executed + r.executed = r.executed + 1 :=
        Nat.add_comm 1 r.executed
      refine .ran ?_ ?_ stopped ?_
      · simp only [RunReport.append, more]; omega
      · simp only [RunReport.append, more]
        exact ran.cons h h₁ machine watches
      · intro lt
        simp only [RunReport.append, more] at lt
        exact early (by omega)
  | trapped lt ran trap =>
      rw [machine] at trap
      exact .trapped (by omega) (ran.cons h h₁ machine watches) trap
  | lost lt quiet after mem cause =>
      rw [machine] at after cause
      rw [watches] at mem
      refine .lost (Nat.succ_lt_succ lt) (fun i hi => ?_) after mem cause
      cases i with
      | zero => exact h.current
      | succ i =>
          have := quiet i (by omega)
          rwa [machine, watches] at this

theorem Coherent.observed_run {n : Nat} : ∀ {s : Simulator}, Coherent s →
    Observed s n (Simulator.run true n s .fresh) := by
  induction n with
  | zero =>
      intro s h
      exact .ran (Nat.le_refl 0) (.zero h rfl) (absurd rfl) (absurd · (Nat.lt_irrefl 0))
  | succ n ih =>
      intro s h
      have taken := s.taken_turn
      simp only [Simulator.run]
      generalize s.turn = out at taken
      cases taken with
      | @went machine step watches hs hw =>
          have next := h.of_taken (.went hs hw) fun _ _ _ h => by cases h
          have same : watches = s.watches := (WatchPool.check_ok h.enabled hw).2.2.2.2 rfl
          dsimp only
          rw [Simulator.run_append rfl rfl]
          exact (ih next).cons h next (congrArg Prod.fst hs).symm same
      | @fired machine step watches events hs hw nonempty =>
          obtain ⟨-, -, valued, found, -⟩ := WatchPool.check_ok h.enabled hw
          refine .ran (Nat.le_add_left 1 n) ?_ (fun _ => rfl) (fun _ => .inl nonempty)
          exact .single h (congrArg Prod.fst hs).symm valued found
      | @lost machine step watches e hs hw =>
          obtain ⟨w, mem, cause, hc, rfl⟩ := WatchPool.check_error h.enabled hw
          have after : machine = s.machine.step.1 := (congrArg Prod.fst hs).symm
          refine .lost (Nat.succ_pos n) (fun i hi => ?_) after mem ?_
          · obtain rfl : i = 0 := Nat.le_zero.mp hi
            exact h.current
          · rw [after] at hc
            exact hc
      | @ended machine pc code hs =>
          have next := h.of_taken (.ended hs) fun _ _ _ h => by cases h
          refine .ran (Nat.le_add_left 1 n) ?_ (absurd rfl) (fun _ => .inr rfl)
          exact .cons h next (congrArg Prod.fst hs).symm rfl (.zero next rfl)
      | @trapped machine t hs _ =>
          refine .trapped (Nat.succ_pos n) (.zero h (Machine.eq_of_step_error h.zero hs)) ?_
          exact congrArg Prod.snd hs

theorem Ran.of_state {s s' s'' : Simulator} {state : RunStatus} {k : Nat} {events : List WatchEvent}
    (ran : Ran { s with state := state } k s' events) (machine : s''.machine = s'.machine) :
    Ran s k s'' events :=
  ⟨machine.trans ran.machine, ran.quiet, ran.valued, ran.events⟩

/-- A call of `step` is observed as the run in it is. -/
theorem Observed.keptFor {s : Simulator} {state : RunStatus} {n : Nat}
    {outcome : Simulator × Except RunError RunReport}
    (observed : Observed { s with state := state } n outcome) :
    Observed s n (Simulator.keptFor n (Simulator.close outcome)) := by
  cases observed with
  | @ran s' r le ran stopped early =>
      refine .ran le (ran.of_state (Simulator.settle_machine s')) (fun fired => ?_) (fun lt => ?_)
      · have stop := stopped fired
        exact (congrArg Simulator.state (Simulator.settle_eq (by simp [stop]))).trans stop
      · rcases early lt with fired | finished
        · exact .inl fired
        · refine .inr ?_
          have closed : s'.state ≠ .running := by intro h; rw [h] at finished; cases finished
          exact (congrArg (fun s => s.state.isFinished) (Simulator.settle_eq closed)).trans finished
  | @trapped s' k t lt ran trap =>
      exact .trapped lt (ran.of_state (Simulator.settle_machine s')) trap
  | @lost s' k w cause lt quiet after mem cause =>
      exact .lost lt quiet ((Simulator.settle_machine s').trans after) mem cause

/-- A call of `step` on a coherent simulator stops at the first instruction that changes a
watched value, and reports the changes. -/
theorem Coherent.observed_step {s : Simulator} (h : Coherent s) (n : Nat) :
    Observed s n (s.step n) := by
  cases finished : s.state.isFinished with
  | true =>
      rw [Simulator.step_of_finished finished]
      exact .ran (Nat.zero_le n) (.zero h rfl) nofun (fun _ => .inr finished)
  | false =>
      rw [Simulator.step_of_unfinished finished]
      have start : Coherent { s with state := .running } := h.of_eq rfl rfl
      exact start.observed_run.keptFor

/-- Along every course of requests that keeps the watched values in step, the values last seen
are those of the machine, and a call of `step` stops at the first instruction that changes one
of them and reports exactly the changes that this instruction makes. -/
theorem watched_values_coherent {config : Config}
    (enabled : config.monitor.watchpointsEnabled = true) {s : Simulator}
    (h : Reachable Attended (Simulator.create config) s) :
    Current s.machine s.watches.toList ∧ ∀ n, Observed s n (s.step n) := by
  have coherent := Coherent.of_reachable enabled h
  exact ⟨coherent.current, coherent.observed_step⟩

theorem evaluate_pc (m : Machine) : evaluate m "$pc" = .ok m.pc := by
  have tokens : tokenize "$pc" = .ok [⟨.register, "$pc"⟩] := by decide
  rw [evaluate, tokens]
  exact (Evaluation.evalSpan_singleton m 0 rfl).trans rfl

/-- With the built-in program loaded and `$pc` watched, the value last seen for `$pc` is the
entry of the program, and so is the value of `$pc`. -/
theorem watched_values_coherent_pc :
    let s := ((Simulator.create { memory := ⟨0x80000000, 32⟩ }).perform
      (.load (Image.builtin 0x80000000))).perform (.watch "$pc")
    (⟨0, "$pc", 0x80000000⟩ : Watchpoint) ∈ s.watches.toList ∧
      evaluate s.machine "$pc" = .ok 0x80000000 := by
  intro s
  have mem : (⟨0, "$pc", 0x80000000⟩ : Watchpoint) ∈ s.watches.toList := by
    simp only [s, Simulator.perform, Simulator.watch, WatchPool.watch, evaluate_pc]
    decide +kernel
  have reached : Reachable Attended (Simulator.create { memory := ⟨0x80000000, 32⟩ }) s :=
    .request (.request .start (by decide +kernel : WatchPool.toList _ = [])) trivial
  exact ⟨mem, (watched_values_coherent rfl reached).1 _ mem⟩

end HartMonitor
