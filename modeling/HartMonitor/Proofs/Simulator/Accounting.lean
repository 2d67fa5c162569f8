/-
# `HartMonitor.Proofs.Simulator.Accounting` — the counts tell what was executed

The counts class an instruction by its major operation, and take for a computation what
they do not know; the table has a row for it.  On words that can be retired the two agree
(`rowClass?_of_retired`), since every row that is an instruction fixes the major operation.

A course of requests is kept with a journal: the words of the instructions that it has
retired, and the events that its reports have told.  The journal is read off the machine
and the reports alone; the counts are the numbers of its entries.

    turn ⟶ run ⟶ request ⟶ course        Tallies.turn, Tallies.run, Tallies.perform, Tallies.course
-/
import HartMonitor.Proofs.Simulator.Ending
import HartMonitor.Proofs.Simulator.Failure
import HartMonitor.Proofs.Simulator.Request
import HartMonitor.Proofs.Simulator.Transparency

namespace HartMonitor

open Instruction (Row lookup table opcode)

/-! ## Two ways to class an instruction -/

/-- The class of what an action does; what is no instruction has none. -/
def Action.instructionClass? : Action → Option InstructionClass
  | .lui | .auipc | .alu _ => some .alu
  | .load .. => some .load
  | .store _ => some .store
  | .jal | .jalr | .branch _ => some .branch
  | .ebreak => some .system
  | .invalid => none

/-- The class of a word by the row of the table that describes it. -/
def rowClass? (inst : Word) : Option InstructionClass :=
  (lookup table inst).bind fun row => row.action.instructionClass?

theorem ofWord_of_encoding : ∀ row ∈ Rv32i.encodings, ∀ c,
    row.action.instructionClass? = some c →
      opcode row.pattern.mask = BitVec.allOnes 7 ∧
        InstructionClass.ofWord row.pattern.expected = c := by
  decide +kernel

/-- Every row that is an instruction fixes the major operation, to one of its class. -/
theorem ofWord_of_row {row : Row} (mem : row ∈ table) {c : InstructionClass}
    (class_row : row.action.instructionClass? = some c) :
    opcode row.pattern.mask = BitVec.allOnes 7 ∧
      InstructionClass.ofWord row.pattern.expected = c := by
  rw [table, Rv32i.namedRows_eq, List.mem_append, List.mem_singleton] at mem
  obtain named | rfl := mem
  · exact ofWord_of_encoding row named c class_row
  · cases class_row

theorem opcode_of_matches {p : Pattern} {inst : Word} (fits : p.Matches inst)
    (fixed : opcode p.mask = BitVec.allOnes 7) : opcode inst = opcode p.expected := by
  have split : opcode (inst &&& p.mask) = opcode inst &&& opcode p.mask :=
    BitVec.extractLsb'_and
  rw [← (show inst &&& p.mask = p.expected from fits), split, fixed, BitVec.and_allOnes]

theorem rowClass?_of_lookup {inst : Word} {row : Row} {c : InstructionClass}
    (found : lookup table inst = some row) (class_row : row.action.instructionClass? = some c) :
    rowClass? inst = some (.ofWord inst) := by
  have fits : row.pattern.Matches inst := by simpa using List.find?_some found
  obtain ⟨fixed, same⟩ := ofWord_of_row (List.mem_of_find?_eq_some found) class_row
  have agree : InstructionClass.ofWord inst = c := by
    rw [← same, InstructionClass.ofWord, InstructionClass.ofWord, opcode_of_matches fits fixed]
  rw [rowClass?, found, Option.bind_some, class_row, agree]

theorem rowClass?_breakpointWord : rowClass? breakpointWord = some .system := by
  obtain ⟨row, found, action⟩ := @Machine.lookup_of_ebreak breakpointWord (by decide +kernel)
  rw [rowClass?, found, Option.bind_some, action]
  rfl

namespace Machine

/-- The word of the instruction that a machine retires next: one that completes, or the
breakpoint.  An instruction that traps otherwise is not retired. -/
def retired? (m : Machine) : Option Word :=
  match m.step.2 with
  | .ok step => some step.inst
  | .error (.breakpoint ..) => (m.memory.fetch m.pc instructionBytes).toOption
  | .error _ => none

variable {m m' : Machine} {row : Row} {inst : Word}

theorem exists_class_of_apply {o : Instruction.Operands} {next : Machine}
    (done : m.apply row inst o = .ok next) : ∃ c, row.action.instructionClass? = some c := by
  cases action : row.action with
  | invalid => simp only [apply, action] at done; cases done
  | _ => exact ⟨_, rfl⟩

theorem retired?_of_step {step : Step} (h : m.step = (m', .ok step)) :
    m.retired? = some step.inst ∧ rowClass? step.inst = some (.ofWord step.inst) := by
  refine ⟨by rw [retired?, h], ?_⟩
  have executed := m.executed_step
  rw [h] at executed
  cases executed with
  | completed _ found done =>
      obtain ⟨c, class_row⟩ := exists_class_of_apply done
      exact rowClass?_of_lookup found class_row

theorem retired?_of_breakpoint {pc code : Word} (h : m.step = (m', .error (.breakpoint pc code))) :
    m.retired? = some breakpointWord := by
  have there := (breakpoint_of_step h).1
  rw [retired?, h]
  simp only [there.word]
  rfl

theorem retired?_of_trap {t : Trap} (h : m.step = (m', .error t)) (severe : t.isFatal = true) :
    m.retired? = none := by
  rw [retired?, h]
  cases t with
  | breakpoint pc code => cases severe
  | _ => rfl

end Machine

/-! ## The journal of a course of requests -/

namespace Simulator

/-- The words that up to `n` turns retire, in their order. -/
def retiredIn : Nat → Simulator → List Word
  | 0, _ => []
  | n + 1, s =>
    s.machine.retired?.toList ++
      match s.turn with
      | (s', .went _) => retiredIn n s'
      | _ => []

def retiredBy (s : Simulator) : Request → List Word
  | .step n => if s.state.isFinished then [] else retiredIn n { s with state := .running }
  | _ => []

/-- The watch events in the report of a request. -/
def reportedBy (s : Simulator) : Request → List WatchEvent
  | .step n =>
    match (s.step n).2 with
    | .ok report => report.events
    | .error _ => []
  | _ => []

end Simulator

/-- The simulators that requests lead to from a first one, each with the words retired so far and
the events reported so far. -/
inductive Course (start : Simulator) : List Word → List WatchEvent → Simulator → Prop
  | start : Course start [] [] start
  | request {words : List Word} {events : List WatchEvent} {s : Simulator} (r : Request) :
      Course start words events s →
      Course start (words ++ s.retiredBy r) (events ++ s.reportedBy r) (s.perform r)

/-! ## Counts and journals -/

/-- The counts are those of a journal of words and events. -/
structure Tallies (counts : Statistics) (words : List Word) (events : List WatchEvent) : Prop where
  retired : counts.retired = words.length
  sum : counts.retired =
    counts.alu + counts.load + counts.store + counts.branch + counts.system
  count : ∀ c, counts.count c = words.countP fun w => rowClass? w = some c
  hits : counts.hits = events.length

namespace Tallies

variable {counts : Statistics} {words : List Word} {events : List WatchEvent}

theorem zero : Tallies .zero [] [] where
  retired := rfl
  sum := rfl
  count c := by cases c <;> rfl
  hits := rfl

theorem recordClass (h : Tallies counts words events) {inst : Word} {c : InstructionClass}
    (class_word : rowClass? inst = some c) :
    Tallies (counts.recordClass c) (words ++ [inst]) events where
  retired := by
    rw [Statistics.retired_recordClass, h.retired, List.length_append, List.length_singleton]
  sum := by
    have sum := h.sum
    cases c <;> simp only [Statistics.recordClass] <;> omega
  count other := by
    rw [List.countP_append, ← h.count, List.countP_singleton, class_word]
    cases c <;> cases other <;> rfl
  hits := by
    have same : (counts.recordClass c).hits = counts.hits := by cases c <;> rfl
    rw [same, h.hits]

theorem addHits (h : Tallies counts words events) (more : List WatchEvent) :
    Tallies (counts.addHits more.length) words (events ++ more) where
  retired := h.retired
  sum := h.sum
  count c := by
    have same : (counts.addHits more.length).count c = counts.count c := by cases c <;> rfl
    rw [same, h.count]
  hits := by
    rw [List.length_append, ← h.hits]
    rfl

theorem record (h : Tallies counts words events) {m m' : Machine} {step : Step}
    (hs : m.step = (m', .ok step)) :
    Tallies (counts.record step.inst) (words ++ m.retired?.toList) events := by
  obtain ⟨retired, class_word⟩ := Machine.retired?_of_step hs
  rw [retired]
  exact h.recordClass class_word

theorem recordBreakpoint (h : Tallies counts words events) {m m' : Machine} {pc code : Word}
    (hs : m.step = (m', .error (.breakpoint pc code))) :
    Tallies counts.recordBreakpoint (words ++ m.retired?.toList) events := by
  rw [Machine.retired?_of_breakpoint hs]
  exact h.recordClass rowClass?_breakpointWord

end Tallies

def Turn.events : Turn → List WatchEvent
  | .fired _ events => events
  | .went _ | .ended | .failed _ => []

/-- A turn retires at most one instruction, and one that traps is not counted. -/
theorem Tallies.turn {s s' : Simulator} {t : Turn} {words : List Word} {events : List WatchEvent}
    (h : Tallies s.statistics words events) (taken : Taken s (s', t)) :
    Tallies s'.statistics (words ++ s.machine.retired?.toList) (events ++ t.events) := by
  cases taken with
  | went hs | lost hs => rw [Turn.events, List.append_nil]; exact h.record hs
  | fired hs => exact (h.record hs).addHits _
  | ended hs => rw [Turn.events, List.append_nil]; exact h.recordBreakpoint hs
  | trapped hs severe =>
      rw [Machine.retired?_of_trap hs severe, Turn.events, Option.toList_none, List.append_nil,
        List.append_nil]
      exact h

theorem Taken.length_retired? {s s' : Simulator} {t : Turn} (taken : Taken s (s', t))
    (fine : ∀ e, t ≠ .failed e) : s.machine.retired?.toList.length = 1 := by
  cases taken with
  | went hs | fired hs => rw [(Machine.retired?_of_step hs).1]; rfl
  | ended hs => rw [Machine.retired?_of_breakpoint hs]; rfl
  | lost | trapped => exact absurd rfl (fine _)

def eventsOf : Except RunError RunReport → List WatchEvent
  | .ok report => report.events
  | .error _ => []

/-- A run counts the words that it retires and the events that it reports. -/
theorem Tallies.run {n : Nat} : ∀ {s : Simulator} {report : RunReport} {words : List Word}
    {events : List WatchEvent}, report.events = [] → Tallies s.statistics words events →
      Tallies (Simulator.run true n s report).1.statistics (words ++ s.retiredIn n)
        (events ++ eventsOf (Simulator.run true n s report).2) := by
  induction n with
  | zero =>
      intro s report words events quiet h
      simpa [Simulator.run, Simulator.retiredIn, eventsOf, quiet] using h
  | succ n ih =>
      intro s report words events quiet h
      have taken := s.taken_turn
      simp only [Simulator.run, Simulator.retiredIn]
      generalize s.turn = out at taken
      obtain ⟨s', step | ⟨step, found⟩ | _ | e⟩ := out
      · have next := h.turn taken
        rw [Turn.events, List.append_nil] at next
        rw [← List.append_assoc]
        exact ih quiet next
      · rw [List.append_nil]
        exact h.turn taken
      · rw [List.append_nil, eventsOf, quiet]
        exact h.turn taken
      · rw [List.append_nil]
        exact h.turn taken

/-- A run that returns has executed the instructions that it has retired. -/
theorem executed_run {n : Nat} : ∀ {s : Simulator} {report r : RunReport},
    (Simulator.run true n s report).2 = .ok r →
      r.executed = report.executed + (s.retiredIn n).length := by
  induction n with
  | zero =>
      intro s report r returned
      cases returned
      rfl
  | succ n ih =>
      intro s report r returned
      have taken := s.taken_turn
      simp only [Simulator.run, Simulator.retiredIn] at returned ⊢
      generalize s.turn = out at taken returned
      obtain ⟨s', step | ⟨step, found⟩ | _ | e⟩ := out
      · have rest := ih returned
        have one_more : (report.add true step).executed = report.executed + 1 := rfl
        rw [List.length_append, taken.length_retired? (by simp), rest, one_more, Nat.add_assoc]
      · cases returned
        rw [List.append_nil, taken.length_retired? (by simp), RunReport.add]
      · cases returned
        rw [List.append_nil, taken.length_retired? (by simp)]
      · cases returned

/-! ## Requests and courses -/

theorem Tallies.step {s : Simulator} {words : List Word} {events : List WatchEvent}
    (h : Tallies s.statistics words events) (n : Nat) :
    Tallies (s.step n).1.statistics (words ++ s.retiredBy (.step n))
      (events ++ s.reportedBy (.step n)) := by
  cases finished : s.state.isFinished with
  | true =>
      simpa [Simulator.retiredBy, Simulator.reportedBy, finished,
        Simulator.step_of_finished finished]
        using h
  | false =>
      have ran := @Tallies.run n { s with state := .running } .fresh words events rfl h
      have told : s.reportedBy (.step n) =
          eventsOf (Simulator.run true n { s with state := .running } .fresh).2 := by
        rw [Simulator.reportedBy, Simulator.step_of_unfinished finished]
        generalize Simulator.run true n _ _ = out
        obtain ⟨s', e | r⟩ := out <;> rfl
      rw [(Simulator.step_frame finished n).2, told]
      simpa [Simulator.retiredBy, finished] using ran

theorem Tallies.idle {s s' : Simulator} {words : List Word} {events : List WatchEvent}
    (h : Tallies s.statistics words events) (same : s'.statistics = s.statistics) :
    Tallies s'.statistics (words ++ []) (events ++ []) := by
  rw [same, List.append_nil, List.append_nil]
  exact h

/-- Every request keeps the journal. -/
theorem Tallies.perform {s : Simulator} {words : List Word} {events : List WatchEvent}
    (h : Tallies s.statistics words events) (r : Request) :
    Tallies (s.perform r).statistics (words ++ s.retiredBy r) (events ++ s.reportedBy r) := by
  cases r with
  | step n => exact h.step n
  | load image =>
      refine h.idle ?_
      simp only [Simulator.perform, Simulator.loadImage]
      split <;> rfl
  | quit => exact h.idle rfl
  | evaluate text => exact h.idle (Requested.evaluate s text).statistics
  | watch text => exact h.idle (Requested.watch s text).statistics
  | unwatch id => exact h.idle (Requested.unwatch s id).statistics
  | toggle on => exact h.idle rfl
  | examine count addr => exact h.idle (Requested.examine s count addr).statistics
  | registers => exact h.idle rfl

theorem Course.tallies {config : Config} {words : List Word} {events : List WatchEvent}
    {s : Simulator} (h : Course (.create config) words events s) :
    Tallies s.statistics words events := by
  induction h with
  | start => exact .zero
  | request r _ ih => exact ih.perform r

theorem Simulator.retired_of_step {s : Simulator} {n : Nat} {r : RunReport}
    (returned : (s.step n).2 = .ok r) : (s.retiredBy (.step n)).length = r.executed := by
  cases finished : s.state.isFinished with
  | true =>
      rw [step_of_finished finished] at returned
      cases returned
      simp [retiredBy, finished]
  | false =>
      rw [step_of_unfinished finished] at returned
      have ran := @executed_run n { s with state := .running } .fresh
      generalize run true n _ _ = out at ran returned
      obtain ⟨s', e | r'⟩ := out
      · cases returned
      · cases returned
        rw [retiredBy, if_neg (by simp [finished])]
        exact ((ran rfl).trans (Nat.zero_add _)).symm

/-- A call that traps has counted the instructions before the one that trapped. -/
theorem Simulator.statistics_of_trap {s : Simulator} {n : Nat} {t : Trap}
    (trapped : (s.step n).2 = .error (.trap t)) :
    ∃ k < n, ∃ r, (s.step k).2 = .ok r ∧ r.executed = k ∧
      (s.step k).1.machine.step.2 = .error t ∧
      (s.step n).1.statistics = (s.step k).1.statistics := by
  cases finished : s.state.isFinished with
  | true => rw [step_of_finished finished] at trapped; cases trapped
  | false =>
      have failed : (run true n { s with state := .running } .fresh).2 = .error (.trap t) := by
        rw [step_of_unfinished finished] at trapped
        generalize run true n _ _ = out at trapped
        obtain ⟨s', cause | r⟩ := out
        · cases trapped; rfl
        · cases trapped
      obtain ⟨k, lt, before, r, ran, -, executed, -, last⟩ := exists_turn_of_run_error rfl failed
      have part : s.step k = keptFor k (close (before, .ok r)) := by
        rw [step_of_unfinished finished, ran]
      have whole := step_frame finished n
      have before_it := step_frame finished k
      rw [ran] at before_it
      refine ⟨k, lt, _, congrArg Prod.snd part, executed.trans (Nat.zero_add k), ?_⟩
      rw [whole.2, before_it.1, before_it.2]
      generalize run true n _ _ = out at last ⊢
      obtain ⟨s', outcome⟩ := out
      generalize same : Turn.failed (.trap t) = turn at last
      cases last with
      | trapped hs severe => cases same; exact ⟨congrArg Prod.snd hs, rfl⟩
      | @lost machine step watches e => cases e <;> cases same
      | went | fired | ended => cases same

/-- The statistics account for a run exactly.  After any course of requests, the number of retired
instructions is the sum of the five classes, and each class has as many as there are words among
the retired ones whose row of the table is of that class; the number of hits is that of the
events in all reports.  A call of `step` that returns retires as many instructions as it has
executed, and one that traps retires those before the instruction that trapped. -/
theorem statistics_account_for_run {config : Config} {words : List Word} {events : List WatchEvent}
    {s : Simulator} (h : Course (.create config) words events s) :
    s.statistics.retired = words.length ∧
    s.statistics.retired = s.statistics.alu + s.statistics.load + s.statistics.store
      + s.statistics.branch + s.statistics.system ∧
    (∀ c, s.statistics.count c = words.countP fun w => rowClass? w = some c) ∧
    s.statistics.hits = events.length ∧
    (∀ n r, (s.step n).2 = .ok r →
      (s.step n).1.statistics.retired = s.statistics.retired + r.executed) ∧
    ∀ n t, (s.step n).2 = .error (.trap t) →
      ∃ k < n, ∃ r, (s.step k).2 = .ok r ∧ r.executed = k ∧
        (s.step k).1.machine.step.2 = .error t ∧
        (s.step n).1.statistics = (s.step k).1.statistics := by
  have tallies := h.tallies
  refine ⟨tallies.retired, tallies.sum, tallies.count, tallies.hits, fun n r returned => ?_,
    fun n t => Simulator.statistics_of_trap⟩
  rw [(tallies.step n).retired, List.length_append, Simulator.retired_of_step returned,
    tallies.retired]

/-- An instruction that changes a watched register, and one more before the end of memory: the
second call traps behind it.  Two computations are counted, and one event. -/
theorem statistics_account_for_run_at_end :
    let s₁ := ((Simulator.create { memory := ⟨0x80000000, 8⟩ }).perform
      (.load (.ofWords [0x00001537, 0x00000297] 0x80000000))).perform (.watch "$a0")
    let s₂ := (s₁.perform (.step 5)).perform (.step 5)
    Course (.create { memory := ⟨0x80000000, 8⟩ }) [0x00001537, 0x00000297]
        [⟨0, "$a0", 0, 0x1000⟩] s₂ ∧
      s₂.state = .aborted 0x80000008 ∧ s₂.statistics.retired = 2 ∧
      s₂.statistics.count .alu = 2 ∧ s₂.statistics.count .system = 0 ∧
      s₂.statistics.hits = 1 := by
  intro s₁ s₂
  have loaded := (@Course.start (.create { memory := ⟨0x80000000, 8⟩ })).request
    (.load (.ofWords [0x00001537, 0x00000297] 0x80000000))
  have course := ((loaded.request (.watch "$a0")).request (.step 5)).request (.step 5)
  have first : s₁.retiredBy (.step 5) = [0x00001537] ∧
      s₁.reportedBy (.step 5) = [⟨0, "$a0", 0, 0x1000⟩] := by decide +kernel
  have second : (s₁.perform (.step 5)).retiredBy (.step 5) = [0x00000297] ∧
      (s₁.perform (.step 5)).reportedBy (.step 5) = [] := by decide +kernel
  have journal : Course (.create { memory := ⟨0x80000000, 8⟩ }) [0x00001537, 0x00000297]
      [⟨0, "$a0", 0, 0x1000⟩] s₂ := by
    rw [first.1, first.2, second.1, second.2] at course
    exact course
  obtain ⟨retired, -, count, hits, -, -⟩ := statistics_account_for_run journal
  exact ⟨journal, by decide +kernel, retired, (count .alu).trans (by decide +kernel),
    (count .system).trans (by decide +kernel), hits⟩

end HartMonitor
