/-
# `HartMonitor.Proofs.Simulator.Trace` — the instructions that a call reports

A call with a small budget reports the instructions that it has executed.  They are a path of
the machine: each was fetched where the machine stood, from the memory that the ones before it
had left, and the machine went on where its record says.

    step   fetched at   from the memory of   leads to
    0      m.pc         m                    m.after 1
    1      …            m.after 1            m.after 2
    k      …            m.after k            m.after (k + 1)

The breakpoint is executed without a record of its own, and the machine stays on it.

    turn ⟶ run ⟶ step        Machine.records_of_step, Recorded.run, Recorded.step
-/
import HartMonitor.Proofs.Rv32i.Lookup
import HartMonitor.Proofs.Simulator.Coherence

namespace HartMonitor

open Instruction (Row lookup table namedRows)

theorem Machine.after_succ (m : Machine) (k : Nat) : m.after (k + 1) = (m.after k).step.1 := by
  induction k generalizing m with
  | zero => rfl
  | succ k ih => exact ih m.step.1

/-- Some records are those of the instructions that lead from one machine to another. -/
inductive Traced : Machine → List Step → Machine → Prop
  | nil {m : Machine} : Traced m [] m
  | cons {m mid last : Machine} {step : Step} {steps : List Step} :
      m.step = (mid, .ok step) → Traced mid steps last → Traced m (step :: steps) last

/-! ## One instruction -/

namespace Machine

variable {m m' : Machine} {step : Step}

/-- What the record of an instruction says of the machine that executed it: where it stood, and the
word that its memory held there, with the name of the one instruction that the word matches. -/
structure Records (m : Machine) (step : Step) : Prop where
  pc : step.pc = m.pc
  snpc : step.snpc.toNat = (m.pc.toNat + 4) % 2 ^ 32
  dnpc : step.dnpc = m.step.1.pc
  word : m.memory.fetch m.pc instructionBytes = .ok step.inst
  row : ∃ row ∈ namedRows, row.pattern.Matches step.inst ∧
    (∀ other ∈ namedRows, other.pattern.Matches step.inst → other = row) ∧ step.name = row.name

/-- A row that does something without trapping is an instruction. -/
theorem exists_row_of_apply {row : Row} {inst : Word} {o : Instruction.Operands}
    (found : lookup table inst = some row) (done : m.apply row inst o = .ok m') :
    row ∈ namedRows ∧ row.pattern.Matches inst ∧
      ∀ other ∈ namedRows, other.pattern.Matches inst → other = row := by
  obtain ⟨named, mem, fits, found'⟩ | ⟨-, found'⟩ := Instruction.lookup_table_cases inst
  · obtain rfl := Option.some.inj (found.symm.trans found')
    refine ⟨mem, fits, fun other mem' fits' => ?_⟩
    have same := (Instruction.lookup_eq_some_iff mem').mpr fits'
    exact Option.some.inj (same.symm.trans found)
  · obtain rfl := Option.some.inj (found.symm.trans found')
    cases done

theorem records_of_step (h : m.step = (m', .ok step)) : m.Records step := by
  obtain ⟨here, next⟩ := pc_of_step h
  have executed := m.executed_step
  rw [h] at executed
  cases executed with
  | @completed inst row machine fetched found done =>
      obtain ⟨mem, fits, only⟩ := exists_row_of_apply found done
      exact ⟨here, BitVec.toNat_add .., by rw [h]; exact next.symm, fetched,
        row, mem, fits, only, rfl⟩

end Machine

/-! ## Paths -/

namespace Traced

variable {m last : Machine} {steps : List Step}

theorem last_eq (h : Traced m steps last) : last = m.after steps.length := by
  induction h with
  | nil => rfl
  | cons hs _ ih => rw [List.length_cons, Machine.after, hs]; exact ih

theorem records (h : Traced m steps last) :
    ∀ (k : Nat) (hk : k < steps.length), (m.after k).Records steps[k] ∧
      steps[k].dnpc = (m.after (k + 1)).pc := by
  induction h with
  | nil => exact fun _ hk => absurd hk (Nat.not_lt_zero _)
  | @cons m mid _ step _ hs _ ih =>
      intro k hk
      cases k with
      | zero =>
          have own := Machine.records_of_step hs
          exact ⟨own, own.dnpc⟩
      | succ k =>
          have there : m.after (k + 1) = mid.after k := by rw [Machine.after, hs]
          have next : m.after (k + 1 + 1) = mid.after (k + 1) := by rw [Machine.after, hs]
          rw [there, next]
          exact ih k (Nat.lt_of_succ_lt_succ hk)

theorem pc_last (h : Traced m steps last) :
    last.pc = (steps.getLast?.map Step.dnpc).getD m.pc := by
  induction h with
  | nil => rfl
  | cons hs _ ih =>
      rw [List.getLast?_cons, ih, (Machine.pc_of_step hs).2, Option.getD_map]
      rfl

end Traced

/-! ## Runs -/

/-- What a run that starts from a machine and continues `report` has recorded when it returns. -/
inductive Recorded (m : Machine) (report : RunReport) : Simulator → RunReport → Prop
  | path {s : Simulator} {r : RunReport} {steps : List Step} : Traced m steps s.machine →
      r.steps = report.steps ++ steps → r.executed = report.executed + steps.length →
      (∀ pc code, s.state ≠ .ended pc code) → Recorded m report s r
  /-- Behind the path the machine stood at the breakpoint. -/
  | ended {s : Simulator} {r : RunReport} {steps : List Step} {last : Machine} {pc code : Word} :
      Traced m steps last → last.step = (s.machine, .error (.breakpoint pc code)) →
      r.steps = report.steps ++ steps → r.executed = report.executed + (steps.length + 1) →
      s.state = .ended pc code → Recorded m report s r

namespace Recorded

variable {m mid : Machine} {report r : RunReport} {s : Simulator}

theorem cons {step : Step} (hs : m.step = (mid, .ok step))
    (h : Recorded mid (report.add true step) s r) : Recorded m report s r := by
  have steps : (report.add true step).steps = report.steps ++ [step] := rfl
  have executed : (report.add true step).executed = report.executed + 1 := rfl
  cases h with
  | path traced kept count going =>
      refine .path (.cons hs traced) ?_ ?_ going
      · rw [kept, steps, List.append_assoc, List.singleton_append]
      · rw [count, executed, List.length_cons]
        omega
  | ended traced stopped kept count state =>
      refine .ended (.cons hs traced) stopped ?_ ?_ state
      · rw [kept, steps, List.append_assoc, List.singleton_append]
      · rw [count, executed, List.length_cons]
        omega

theorem run {n : Nat} : ∀ {s s' : Simulator} {report r : RunReport}, s.state = .running →
    Simulator.run true n s report = (s', .ok r) → Recorded s.machine report s' r := by
  induction n with
  | zero =>
      intro s s' report r running returned
      cases returned
      exact .path .nil (List.append_nil _).symm rfl fun _ _ ended =>
        absurd (running.symm.trans ended) RunStatus.noConfusion
  | succ n ih =>
      intro s s' report r running returned
      have taken := s.taken_turn
      simp only [Simulator.run] at returned
      generalize s.turn = out at taken returned
      cases taken with
      | went hs _ =>
          refine cons hs (ih ?_ returned)
          exact running
      | fired hs _ _ =>
          cases returned
          exact .path (.cons hs .nil) rfl rfl fun _ _ => RunStatus.noConfusion
      | ended hs =>
          cases returned
          exact .ended .nil hs (List.append_nil _).symm rfl rfl
      | lost | trapped => cases returned

/-- A call with a small budget keeps all that its run has recorded. -/
theorem step {n : Nat} (unfinished : s.state.isFinished = false)
    (few : n ≤ Simulator.maxKeptSteps) (returned : (s.step n).2 = .ok r) :
    Recorded s.machine .fresh (s.step n).1 r ∧ r.state = (s.step n).1.state := by
  rw [Simulator.step_of_unfinished unfinished] at returned ⊢
  have ran := fun s' r' => @run n { s with state := .running } s' .fresh r' rfl
  generalize Simulator.run true n _ _ = out at ran returned ⊢
  obtain ⟨s', e | r'⟩ := out
  · cases returned
  · have kept : r = { r' with state := s'.settle.state } := by
      cases returned
      simp only [RunReport.trim, decide_eq_true few, if_true]
    subst kept
    refine ⟨?_, rfl⟩
    show Recorded s.machine .fresh s'.settle _
    cases ran s' r' rfl with
    | path traced steps executed going =>
        refine .path (by rwa [s'.settle_machine]) steps executed fun pc code => ?_
        rw [Simulator.settle]
        split
        · exact RunStatus.noConfusion
        · exact going pc code
    | ended traced stopped steps executed state =>
        have still : s'.settle = s' := Simulator.settle_eq fun running =>
          absurd (state.symm.trans running) RunStatus.noConfusion
        rw [still]
        exact .ended traced stopped steps executed state

/-- What is recorded of a whole run is a path, and the machine is left at the end of it. -/
theorem traced (h : Recorded m .fresh s r) :
    ∃ last, Traced m r.steps last ∧ s.machine.pc = last.pc := by
  cases h with
  | path traced kept _ _ =>
      rw [kept]
      exact ⟨_, traced, rfl⟩
  | ended traced stopped kept _ _ =>
      rw [kept]
      exact ⟨_, traced, Machine.pc_of_step_error stopped⟩

theorem machine_eq (h : Recorded m .fresh s r) : s.machine = m.after r.executed := by
  cases h with
  | path traced _ executed _ =>
      rw [executed, RunReport.fresh, Nat.zero_add]
      exact traced.last_eq
  | ended traced stopped _ executed _ =>
      rw [executed, RunReport.fresh, Nat.zero_add, Machine.after_succ, ← traced.last_eq, stopped]

/-- The breakpoint alone is executed without being recorded. -/
theorem length_steps (h : Recorded m .fresh s r) :
    ((∀ pc code, s.state ≠ .ended pc code) → r.steps.length = r.executed) ∧
      ∀ pc code, s.state = .ended pc code → r.steps.length + 1 = r.executed := by
  cases h with
  | path _ kept executed going =>
      rw [kept, executed, RunReport.fresh, Nat.zero_add]
      exact ⟨fun _ => rfl, fun pc code state => absurd state (going pc code)⟩
  | ended _ _ kept executed state =>
      rw [kept, executed, RunReport.fresh, Nat.zero_add]
      exact ⟨fun going => absurd state (going _ _), fun _ _ _ => rfl⟩

end Recorded

/-- The instructions that a call with a small budget reports are a connected path.  They are as many
as were executed, or one less where the run ended at the breakpoint.  The first one was fetched at
the `pc` before the call, each later one where the one before it leads, and the machine is left
where the last one leads.  The word of each is what memory held at its `pc` at its time, whatever
was stored there before, and its name is that of the one row which the word matches. -/
theorem reported_path_connected {s : Simulator} {n : Nat} {r : RunReport}
    (unfinished : s.state.isFinished = false) (few : n ≤ Simulator.maxKeptSteps)
    (returned : (s.step n).2 = .ok r) :
    ((∀ pc code, r.state ≠ .ended pc code) → r.steps.length = r.executed) ∧
    (∀ pc code, r.state = .ended pc code → r.steps.length + 1 = r.executed) ∧
    (∀ pos : 0 < r.steps.length, r.steps[0].pc = s.machine.pc) ∧
    (∀ (k : Nat) (hk : k + 1 < r.steps.length), r.steps[k + 1].pc = r.steps[k].dnpc) ∧
    (s.step n).1.machine.pc = (r.steps.getLast?.map Step.dnpc).getD s.machine.pc ∧
    (s.step n).1.machine = s.machine.after r.executed ∧
    ∀ (k : Nat) (hk : k < r.steps.length),
      r.steps[k].pc = (s.machine.after k).pc ∧
      r.steps[k].snpc.toNat = (r.steps[k].pc.toNat + 4) % 2 ^ 32 ∧
      (s.machine.after k).memory.fetch r.steps[k].pc instructionBytes = .ok r.steps[k].inst ∧
      ∃ row ∈ namedRows, row.pattern.Matches r.steps[k].inst ∧
        (∀ other ∈ namedRows, other.pattern.Matches r.steps[k].inst → other = row) ∧
        r.steps[k].name = row.name := by
  obtain ⟨recorded, state⟩ := Recorded.step unfinished few returned
  obtain ⟨all, but_one⟩ := recorded.length_steps
  obtain ⟨last, traced, stop⟩ := recorded.traced
  have records := traced.records
  rw [state]
  refine ⟨all, but_one, fun pos => (records 0 pos).1.pc, fun k hk => ?_,
    stop.trans traced.pc_last, recorded.machine_eq, fun k hk => ?_⟩
  · rw [(records (k + 1) hk).1.pc, (records k (Nat.lt_of_succ_lt hk)).2]
  · obtain ⟨own, -⟩ := records k hk
    rw [own.pc]
    exact ⟨rfl, own.snpc, own.word, own.row⟩

/-- The third instruction stores the fourth one, where there was none.  It is reported as it was
stored, and the breakpoint behind it is not reported. -/
theorem reported_path_connected_stored :
    let s := ((Simulator.create .standard).loadImage (.ofWords
      [0x00000297, 0x53700313, 0x0062a623, 0x00000000, 0x00100073] 0x80000000)).1
    let r : RunReport := ⟨5, [], [
      ⟨0x80000000, 0x80000004, 0x80000004, 0x00000297, "auipc"⟩,
      ⟨0x80000004, 0x80000008, 0x80000008, 0x53700313, "addi"⟩,
      ⟨0x80000008, 0x8000000c, 0x8000000c, 0x0062a623, "sw"⟩,
      ⟨0x8000000c, 0x80000010, 0x80000010, 0x00000537, "lui"⟩], .ended 0x80000010 0⟩
    s.state.isFinished = false ∧ (s.step 10).2 = .ok r ∧ r.steps.length + 1 = r.executed ∧
      s.machine.memory.fetch 0x8000000c instructionBytes = .ok 0x00000000 ∧
      (s.machine.after 3).memory.fetch 0x8000000c instructionBytes = .ok 0x00000537 ∧
      (s.step 10).1.machine.pc = 0x80000010 := by
  intro s r
  have unfinished : s.state.isFinished = false := by decide +kernel
  have returned : (s.step 10).2 = .ok r := by decide +kernel
  obtain ⟨-, but_one, -, -, stop, -, words⟩ :=
    reported_path_connected unfinished (by decide) returned
  obtain ⟨-, -, word, -⟩ := words 3 (by decide)
  exact ⟨unfinished, returned, but_one _ _ rfl, by decide +kernel, word, stop⟩

end HartMonitor
