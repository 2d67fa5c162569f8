/-
# `HartMonitor.Proofs.Simulator.Split` — a call of `step` splits anywhere

While every turn goes on, the run is running; every other turn takes it elsewhere
(`left_run`).  So the state of the run tells whether `a` turns were all taken, and
`a + b` turns are `a` turns and, if it does, `b` more (`run_add`).  What `step` adds to
that is bookkeeping: it sets the state before and after, and it keeps instructions only
where there are few.

    step_splits    `step (a + b)` is `step a`, followed by `step b` if `step a` used up its budget
-/
import HartMonitor.Proofs.Simulator.Turn

namespace HartMonitor

/-! ## Reports one after the other -/

/-- The report of two calls in a row: the counts and the instructions of both, the events and the
state of the second. -/
def RunReport.append (r next : RunReport) : RunReport :=
  ⟨r.executed + next.executed, next.events, r.steps ++ next.steps, next.state⟩

def RunReport.trim (keep : Bool) (r : RunReport) : RunReport :=
  { r with steps := if keep then r.steps else [] }

def RunReport.fresh : RunReport := ⟨0, [], [], .running⟩

theorem RunReport.trim_append (keep : Bool) (r next : RunReport) :
    (r.append next).trim keep = (r.trim keep).append (next.trim keep) := by
  cases keep <;> rfl

/-- What is left out later need not be kept before. -/
theorem RunReport.trim_trim {keep early : Bool} (h : keep = true → early = true)
    (r : RunReport) : (r.trim early).trim keep = r.trim keep := by
  cases keep with
  | false => rfl
  | true => rw [h rfl]; rfl

namespace Simulator

/-- A call of `step` with the budget `a` and what it led to, continued by a call with the budget
`b`.  The second call is made where the first one executed all its instructions, met no watch
event and left the run unfinished. -/
def followedBy (a b : Nat) (first : Simulator × Except RunError RunReport) :
    Simulator × Except RunError RunReport :=
  match first with
  | (s, .error e) => (s, .error e)
  | (s, .ok r) =>
    if r.executed = a ∧ r.events = [] ∧ s.state.isFinished = false then
      ((s.step b).1, (s.step b).2.map r.append)
    else (s, .ok r)

/-- The outcome of a call with the budget `n`, its instructions left out where they are too many
to be kept. -/
def keptFor (n : Nat) (outcome : Simulator × Except RunError RunReport) :
    Simulator × Except RunError RunReport :=
  (outcome.1, outcome.2.map (RunReport.trim (decide (n ≤ maxKeptSteps))))

/-! ## Runs -/

/-- Whether instructions are kept makes no other difference. -/
theorem run_trim (keep : Bool) {n : Nat} :
    ∀ {s : Simulator} {report : RunReport},
      run keep n s (report.trim keep) =
        ((run true n s report).1, (run true n s report).2.map (RunReport.trim keep)) := by
  have add : ∀ (report : RunReport) (step : Step),
      (report.trim keep).add keep step = (report.add true step).trim keep := by
    intro report step
    cases keep <;> rfl
  induction n with
  | zero => intro s report; rfl
  | succ n ih =>
      intro s report
      simp only [run]
      split
      · rw [add, ih]
      · rw [add]; rfl
      · rfl
      · rfl

/-- A run continues the report that it is given. -/
theorem run_append {n : Nat} :
    ∀ {s : Simulator} {report : RunReport}, report.events = [] → report.state = .running →
      run true n s report =
        ((run true n s .fresh).1, (run true n s .fresh).2.map report.append) := by
  induction n with
  | zero =>
      intro s report hevents hstate
      obtain ⟨executed, events, steps, state⟩ := report
      cases hevents; cases hstate
      simp [run, Except.map, RunReport.append, RunReport.fresh]
  | succ n ih =>
      intro s report hevents hstate
      simp only [run]
      split
      · next s' step _ =>
        rw [@ih s' (report.add true step) hevents hstate,
          @ih s' (RunReport.fresh.add true step) rfl rfl]
        refine Prod.ext rfl ?_
        cases (run true n s' .fresh).2 with
        | error e => rfl
        | ok r =>
            simp only [Except.map, RunReport.append, RunReport.add, RunReport.fresh, if_true]
            simp [Nat.add_comm, Nat.add_left_comm]
      · simp only [Except.map, RunReport.append, RunReport.add, RunReport.fresh, if_true]
        simp [hstate]
      · obtain ⟨executed, events, steps, state⟩ := report
        cases hevents; cases hstate
        simp [Except.map, RunReport.append, RunReport.fresh]
      · rfl

/-- How a run that starts with `report` leaves off, `n` turns being allowed. -/
inductive Left (n : Nat) (report : RunReport) : Simulator × Except RunError RunReport → Prop
  /-- All turns were taken, and the run is still going. -/
  | running {s : Simulator} {r : RunReport} : s.state = .running →
      r.executed = report.executed + n → r.events = report.events → r.state = report.state →
      Left n report (s, .ok r)
  | stopped {s : Simulator} {r : RunReport} : s.state = .stopped → r.events ≠ [] →
      Left n report (s, .ok r)
  | ended {s : Simulator} {r : RunReport} {pc code : Word} : s.state = .ended pc code →
      Left n report (s, .ok r)
  | failed {s : Simulator} {e : RunError} {pc : Word} : s.state = .aborted pc →
      Left n report (s, .error e)

theorem Left.add {n : Nat} {report : RunReport} {keep : Bool} {step : Step}
    {outcome : Simulator × Except RunError RunReport} (h : Left n (report.add keep step) outcome) :
    Left (n + 1) report outcome := by
  cases h with
  | running h hexecuted hevents hstate =>
      refine .running h ?_ hevents hstate
      rw [hexecuted]
      simp only [RunReport.add]; omega
  | stopped h hevents => exact .stopped h hevents
  | ended h => exact .ended h
  | failed h => exact .failed h

theorem left_run {n : Nat} :
    ∀ {s : Simulator} {report : RunReport}, s.state = .running →
      Left n report (run true n s report) := by
  induction n with
  | zero => intro s report h; exact .running h rfl rfl rfl
  | succ n ih =>
      intro s report h
      have taken := s.taken_turn
      rw [run]
      generalize s.turn = out at taken
      cases taken with
      | went _ _ =>
          refine Left.add (ih ?_)
          exact h
      | fired _ _ nonempty => exact .stopped rfl nonempty
      | lost _ _ => exact .failed rfl
      | ended _ => exact .ended rfl
      | trapped _ _ => exact .failed rfl

/-- Turns are taken one after the other, as long as the run is going. -/
theorem run_add {a b : Nat} :
    ∀ {s : Simulator} {report : RunReport}, s.state = .running →
      run true (a + b) s report =
        match run true a s report with
        | (s, .ok r) => if s.state = .running then run true b s r else (s, .ok r)
        | (s, .error e) => (s, .error e) := by
  induction a with
  | zero =>
      intro s report h
      simp only [Nat.zero_add, run, h, if_true]
  | succ a ih =>
      intro s report h
      have taken := s.taken_turn
      rw [Nat.add_right_comm]
      simp only [run]
      generalize s.turn = out at taken
      cases taken with
      | went _ _ => exact ih h
      | fired _ _ _ => rfl
      | lost _ _ => rfl
      | ended _ => rfl
      | trapped _ _ => rfl

/-! ## Calls of `step` -/

/-- The end of a call: a run that is still going is stopped, and the report gets the state. -/
def close (outcome : Simulator × Except RunError RunReport) :
    Simulator × Except RunError RunReport :=
  (outcome.1.settle,
    outcome.2.map fun report => { report with state := outcome.1.settle.state })

theorem settle_machine (s : Simulator) : s.settle.machine = s.machine := by
  rw [settle]
  split <;> rfl

theorem settle_eq {s : Simulator} (h : s.state ≠ .running) : s.settle = s :=
  if_neg h

/-- A call of `step` is a run of which only few instructions are kept. -/
theorem step_of_unfinished {s : Simulator} (h : s.state.isFinished = false) (n : Nat) :
    s.step n = keptFor n (close (run true n { s with state := .running } .fresh)) := by
  have fresh : RunReport.fresh = RunReport.fresh.trim (decide (n ≤ maxKeptSteps)) := by
    simp [RunReport.trim, RunReport.fresh]
  simp only [step, h, Bool.false_eq_true, if_false]
  change close (run _ n _ .fresh) = _
  rw [fresh, run_trim, ← fresh]
  generalize run true n { s with state := .running } .fresh = outcome
  obtain ⟨s', e | r⟩ := outcome <;> rfl

theorem step_frame {s : Simulator} (h : s.state.isFinished = false) (n : Nat) :
    (s.step n).1.machine = (run true n { s with state := .running } .fresh).1.machine ∧
      (s.step n).1.statistics = (run true n { s with state := .running } .fresh).1.statistics := by
  simp only [step_of_unfinished h, keptFor, close, settle]
  split <;> exact ⟨rfl, rfl⟩

theorem step_of_finished {s : Simulator} (h : s.state.isFinished = true) (n : Nat) :
    s.step n = (s, .ok ⟨0, [], [], s.state⟩) := by
  simp only [step, h, if_true]

theorem keeps_of_le {a n : Nat} (h : a ≤ n) (few : decide (n ≤ maxKeptSteps) = true) :
    decide (a ≤ maxKeptSteps) = true :=
  decide_eq_true (Nat.le_trans h (of_decide_eq_true few))

theorem keptFor_keptFor {a n : Nat} (h : a ≤ n)
    (outcome : Simulator × Except RunError RunReport) :
    keptFor n (keptFor a outcome) = keptFor n outcome := by
  obtain ⟨s, e | r⟩ := outcome
  · rfl
  · exact congrArg (fun r => (s, Except.ok r)) (r.trim_trim (keeps_of_le h))

theorem keptFor_followedBy (a b : Nat) (first : Simulator × Except RunError RunReport) :
    keptFor (a + b) (followedBy a b (keptFor a first)) =
      keptFor (a + b) (followedBy a b first) := by
  obtain ⟨s, e | r⟩ := first
  · rfl
  · by_cases used : r.executed = a ∧ r.events = [] ∧ s.state.isFinished = false
    · have trimmed : followedBy a b (keptFor a (s, .ok r)) =
          ((s.step b).1, (s.step b).2.map (r.trim (decide (a ≤ maxKeptSteps))).append) :=
        if_pos used
      rw [trimmed, followedBy, if_pos used]
      refine Prod.ext rfl ?_
      cases (s.step b).2 with
      | error e => rfl
      | ok r' =>
          refine congrArg Except.ok ?_
          rw [RunReport.trim_append, RunReport.trim_append,
            RunReport.trim_trim (keeps_of_le (Nat.le_add_right a b))]
    · have joined : followedBy a b (keptFor a (s, .ok r)) = keptFor a (s, .ok r) := if_neg used
      rw [joined, followedBy, if_neg used, keptFor_keptFor (Nat.le_add_right a b)]

/-- A call of `step` with the budget `a + b` is one with the budget `a`, followed by one with
the budget `b` unless the first one stopped before or at the end of its own. -/
theorem step_add (s : Simulator) (a b : Nat) :
    s.step (a + b) = keptFor (a + b) (followedBy a b (s.step a)) := by
  cases finished : s.state.isFinished with
  | true =>
      rw [step_of_finished finished, step_of_finished finished]
      simp [followedBy, finished, keptFor, Except.map, RunReport.trim]
  | false =>
      rw [step_of_unfinished finished, step_of_unfinished finished, run_add rfl,
        keptFor_followedBy]
      have left := @left_run a { s with state := .running } .fresh rfl
      generalize run true a _ _ = out at left
      cases left with
      | @running s' r h hexecuted hevents hstate =>
          rw [RunReport.fresh, Nat.zero_add] at hexecuted
          have settled : s'.settle = { s' with state := .stopped } := by rw [settle, if_pos h]
          have again : { s'.settle with state := .running } = s' := by rw [settled, ← h]
          have ready : s'.settle.state.isFinished = false := by rw [settled]; rfl
          have second : followedBy a b (close (s', .ok r)) =
              ((s'.settle.step b).1,
                (s'.settle.step b).2.map { r with state := s'.settle.state }.append) :=
            if_pos ⟨hexecuted, hevents, ready⟩
          dsimp only
          rw [if_pos h, run_append hevents hstate, second, step_of_unfinished ready, again]
          generalize run true b s' .fresh = last
          obtain ⟨s'', e | r'⟩ := last
          · rfl
          · refine congrArg (fun r => (s''.settle, Except.ok r)) ?_
            rw [RunReport.trim_append, RunReport.trim_trim (keeps_of_le (Nat.le_add_left b a)),
              ← RunReport.trim_append]
            rfl
      | @stopped s' r h hevents =>
          have alone : followedBy a b (close (s', .ok r)) = close (s', .ok r) :=
            if_neg fun used => hevents used.2.1
          rw [alone]
          simp [h]
      | @ended s' r pc code h =>
          have stays : s'.settle = s' := by rw [settle, if_neg (by simp [h])]
          have alone : followedBy a b (close (s', .ok r)) = close (s', .ok r) := by
            refine if_neg fun used => ?_
            have unfinished : s'.settle.state.isFinished = false := used.2.2
            rw [stays, h] at unfinished
            cases unfinished
          rw [alone]
          simp [h]
      | failed h => rfl

/-- Calls of `step` with a budget of one, `n` of them as long as each uses up its budget. -/
def singleSteps (s : Simulator) : Nat → Simulator × Except RunError RunReport
  | 0 => s.step 0
  | n + 1 => followedBy n 1 (s.singleSteps n)

theorem keptFor_step (s : Simulator) (n : Nat) : keptFor n (s.step n) = s.step n := by
  cases finished : s.state.isFinished with
  | true => simp [step_of_finished finished, keptFor, Except.map, RunReport.trim]
  | false => rw [step_of_unfinished finished, keptFor_keptFor (Nat.le_refl n)]

theorem step_eq_singleSteps (s : Simulator) (n : Nat) : s.step n = keptFor n (s.singleSteps n) := by
  induction n with
  | zero => exact (s.keptFor_step 0).symm
  | succ n ih => rw [step_add, ih, keptFor_followedBy, singleSteps]

/-- A budget is used up in any number of calls: `a` and `b` instructions in two of them, `n` in
as many single steps. -/
theorem step_splits (s : Simulator) :
    (∀ a b, s.step (a + b) = keptFor (a + b) (followedBy a b (s.step a))) ∧
      ∀ n, s.step n = keptFor n (s.singleSteps n) :=
  ⟨s.step_add, s.step_eq_singleSteps⟩

end Simulator

end HartMonitor
