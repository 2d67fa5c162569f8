/-
# `HartMonitor.Proofs.Shell.ExitStatus` — which sessions are a success

One command leaves a session, `q`; every other one goes on or fails (`flow_answer`).  So a
session over lines of input takes some lines that keep it going (`Reaches`), and then comes
to one of three ends:

    a line with the command `q`     success
    the end of the input            success, wherever the program of the guest stands by then
    a fatal error                   failure

A session in batch mode is a success where the program ends with zero in `a0`.
-/
import HartMonitor.CommandLine
import HartMonitor.Proofs.Simulator.Ending
import HartMonitor.Proofs.Simulator.Failure
import HartMonitor.Proofs.Simulator.Status
import Mathlib.Data.List.DropRight
import Mathlib.Data.List.TakeDrop

namespace HartMonitor

/-! ## The command of a line -/

namespace Text

theorem takeWhile_rdropWhile (cs : List Char) :
    (cs.rdropWhile isBlank).takeWhile (fun c => !isBlank c) =
      cs.takeWhile fun c => !isBlank c := by
  have blanks : (cs.rtakeWhile isBlank).takeWhile (fun c => !isBlank c) = [] := by
    rw [List.takeWhile_eq_nil_iff]
    intro nonempty
    have blank := List.mem_rtakeWhile_imp (List.get_mem (cs.rtakeWhile isBlank) ⟨0, nonempty⟩)
    simpa using blank
  -- only the right side is split, which has the blanks
  conv =>
    rhs
    rw [← List.rdropWhile_append_rtakeWhile (p := isBlank) (l := cs), List.takeWhile_append,
      blanks]
  split
  · next whole => rw [List.append_nil, (List.takeWhile_prefix _).eq_of_length whole]
  · rfl

theorem firstWord?_eq_some_iff {line word : String} (nonempty : word ≠ "") :
    firstWord? line = some word ↔ (Shell.cutCommand (trim line)).1 = word := by
  have cut : (Shell.cutCommand (trim line)).1 =
      String.ofList ((line.toList.dropWhile isBlank).takeWhile fun c => !isBlank c) := by
    have trimmed : (trim line).toList = (line.toList.dropWhile isBlank).rdropWhile isBlank :=
      String.toList_ofList
    rw [← takeWhile_rdropWhile, ← trimmed]
    simp only [Shell.cutCommand, splitAtBlank?, List.span_eq_takeWhile_dropWhile]
    generalize trim line = line
    cases h : line.toList.dropWhile fun c => !isBlank c with
    | cons c rest => rfl
    | nil =>
        have whole := List.takeWhile_append_dropWhile (p := fun c => !isBlank c) (l := line.toList)
        rw [h, List.append_nil] at whole
        rw [whole]
        exact (String.ofList_toList).symm
  rw [cut, firstWord?]
  split
  · next none => rw [none]; exact iff_of_false nofun fun empty => nonempty empty.symm
  · exact Option.some_inj

end Text

/-! ## Answers that leave -/

namespace Shell

variable {sh : Shell}

/-- An answer after which the session goes on or has failed. -/
structure Reply.Stays (r : Reply) : Prop where
  flow : r.flow ≠ .leave

theorem stays_say (sh : Shell) (lines : List String) : (sh.say lines).Stays := ⟨nofun⟩

theorem stays_fail (sh : Shell) (e : Fatal) : (sh.fail e).Stays := ⟨nofun⟩

theorem stays_run (sh : Shell) (n : Nat) : (sh.run n).Stays := by
  simp only [run]
  split
  · exact stays_say ..
  · split
    · exact stays_fail ..
    · exact ⟨nofun⟩

theorem stays_stepCommand (sh : Shell) (argument : String) : (sh.stepCommand argument).Stays := by
  simp only [stepCommand]
  split
  · exact stays_run ..
  · exact stays_say ..

theorem stays_helpCommand (sh : Shell) (argument : String) : (sh.helpCommand argument).Stays := by
  simp only [helpCommand]
  split
  · exact stays_say ..
  · split <;> exact stays_say ..

theorem stays_printCommand (sh : Shell) (argument : String) :
    (sh.printCommand argument).Stays := by
  simp only [printCommand]
  split
  · exact stays_say ..
  · split
    · exact stays_say ..
    · split
      · exact stays_fail ..
      · exact stays_say ..

theorem stays_watchCommand (sh : Shell) (argument : String) :
    (sh.watchCommand argument).Stays := by
  simp only [watchCommand]
  split
  · exact stays_say ..
  · split
    · exact stays_fail ..
    · split <;> exact stays_say ..

theorem stays_infoCommand (sh : Shell) (argument : String) : (sh.infoCommand argument).Stays := by
  simp only [infoCommand]
  split <;> exact stays_say ..

theorem stays_examineCommand (sh : Shell) (argument : String) :
    (sh.examineCommand argument).Stays := by
  simp only [examineCommand]
  split
  · exact stays_say ..
  · split
    · exact stays_say ..
    · split
      · exact stays_fail ..
      · exact stays_say ..
    · exact stays_say ..

theorem stays_deleteCommand (sh : Shell) (argument : String) :
    (sh.deleteCommand argument).Stays := by
  simp only [deleteCommand]
  split
  · exact stays_say ..
  · split <;> exact stays_say ..

theorem stays_toggleCommand (sh : Shell) (argument : String) :
    (sh.toggleCommand argument).Stays := by
  simp only [toggleCommand]
  split <;> exact stays_say ..

theorem stays_perform {name : String} (other : name ≠ "q") (argument : String) :
    (sh.perform name argument).Stays := by
  simp only [perform]
  split
  · exact stays_helpCommand ..
  · exact stays_run ..
  · exact absurd rfl other
  · exact stays_printCommand ..
  · exact stays_watchCommand ..
  · exact stays_stepCommand ..
  · exact stays_infoCommand ..
  · exact stays_examineCommand ..
  · exact stays_deleteCommand ..
  · exact stays_toggleCommand ..
  · exact stays_say ..

theorem answer_quit (sh : Shell) {line : String} (h : Text.firstWord? line = some "q") :
    sh.answer (some line) = ⟨"", sh.withSimulator sh.simulator.quit, .leave⟩ := by
  rw [Text.firstWord?_eq_some_iff (by decide)] at h
  simp only [answer]
  split
  · next blank => rw [blank] at h; exact absurd h (by decide +kernel)
  · rw [h]; rfl

theorem answer_continue (sh : Shell) : sh.answer (some "c") = sh.run Simulator.forever := by
  have nonempty : Text.trim "c" ≠ "" := by decide +kernel
  have cut : cutCommand (Text.trim "c") = ("c", "") := by decide +kernel
  simp only [answer, if_neg nonempty, cut]
  rfl

theorem flow_answer {line : String} :
    (sh.answer (some line)).flow = .leave ↔ Text.firstWord? line = some "q" := by
  refine ⟨fun leaves => ?_, fun h => by rw [answer_quit sh h]⟩
  rw [Text.firstWord?_eq_some_iff (by decide)]
  simp only [answer] at leaves
  split at leaves
  · cases leaves
  · by_contra other
    exact (stays_perform other _).flow leaves

/-! ## Sessions over lines of input -/

/-- A shell with some input answers lines that keep the session going, down to a shell with what
is left of the input. -/
inductive Reaches : Shell → List (Option String) → Shell → List (Option String) → Prop
  | here {sh : Shell} {lines : List (Option String)} : Reaches sh lines sh lines
  | answered {sh last : Shell} {line : Option String} {lines left : List (Option String)} :
      (sh.answer line).flow = .proceed → Reaches (sh.answer line).shell lines last left →
      Reaches sh (line :: lines) last left

theorem reaches_nil {last : Shell} {left : List (Option String)} :
    Reaches sh [] last left ↔ last = sh ∧ left = [] := by
  constructor
  · rintro ⟨⟩
    exact ⟨rfl, rfl⟩
  · rintro ⟨rfl, rfl⟩
    exact .here

theorem reaches_cons {last : Shell} {line : Option String} {lines left : List (Option String)} :
    Reaches sh (line :: lines) last left ↔
      last = sh ∧ left = line :: lines ∨
        (sh.answer line).flow = .proceed ∧ Reaches (sh.answer line).shell lines last left := by
  constructor
  · rintro (_ | ⟨going, reached⟩)
    · exact .inl ⟨rfl, rfl⟩
    · exact .inr ⟨going, reached⟩
  · rintro (⟨rfl, rfl⟩ | ⟨going, reached⟩)
    · exact .here
    · exact .answered going reached

/-- How a session is a success, `input` being its lines. -/
inductive Succeeds (sh : Shell) (input : List (Option String)) : Bool → Prop
  /-- In batch mode the program ends at the breakpoint, with zero in `a0`. -/
  | ended {pc : Word} : (sh.simulator.step Simulator.forever).1.state = .ended pc 0 →
      AtBreakpoint (sh.simulator.step Simulator.forever).1.machine pc 0 → Succeeds sh input true
  /-- A line with the command `q` is reached. -/
  | asked {last : Shell} {line : String} {left : List (Option String)} :
      Reaches sh input last (some line :: left) → Text.firstWord? line = some "q" →
      Succeeds sh input false
  /-- The end of the input is reached. -/
  | exhausted {last : Shell} : Reaches sh input last [] → Succeeds sh input false

variable {input : List (Option String)}

theorem Succeeds.of_atBreakpoint {pc : Word} (unfinished : sh.simulator.state.isFinished = false)
    (h : AtBreakpoint sh.simulator.machine pc 0) : Succeeds sh input true :=
  have ended := Simulator.state_step_of_atBreakpoint (by decide +kernel) unfinished h
  .ended ended (Simulator.atBreakpoint_of_step unfinished ended)

theorem Succeeds.answered {line : Option String} (going : (sh.answer line).flow = .proceed)
    (h : Succeeds (sh.answer line).shell input false) : Succeeds sh (line :: input) false := by
  cases h with
  | asked reached word => exact .asked (.answered going reached) word
  | exhausted reached => exact .exhausted (.answered going reached)

theorem Succeeds.of_answered {line : Option String} (going : (sh.answer line).flow = .proceed)
    (h : Succeeds sh (line :: input) false) : Succeeds (sh.answer line).shell input false := by
  cases h with
  | asked reached word =>
      cases reached with
      | here => rw [answer_quit sh word] at going; cases going
      | answered _ reached => exact .asked reached word
  | exhausted reached =>
      cases reached with
      | answered _ reached => exact .exhausted reached

/-- A session over lines of input fails with an error, or it is a success, and then the run has
been left. -/
theorem converse_fatal {printed : String} :
    ((converse printed sh input).fatal = none ↔ Succeeds sh input false) ∧
      ((converse printed sh input).fatal = none →
        (converse printed sh input).shell.simulator.state = .quit) := by
  induction input generalizing printed sh with
  | nil => exact ⟨iff_of_true rfl (.exhausted .here), fun _ => rfl⟩
  | cons line rest ih =>
      simp only [converse]
      cases flow : (sh.answer line).flow with
      | proceed =>
          exact ⟨ih.1.trans ⟨Succeeds.answered flow, Succeeds.of_answered flow⟩, ih.2⟩
      | leave =>
          cases line with
          | none => cases flow
          | some line =>
              have word := flow_answer.mp flow
              refine ⟨iff_of_true rfl (.asked .here word), fun _ => ?_⟩
              rw [answer_quit sh word]
              rfl
      | fail e =>
          -- a success would have to get past a line at which the session ends
          refine ⟨iff_of_false nofun fun h => ?_, nofun⟩
          cases h with
          | asked reached word =>
              cases reached with
              | here => rw [answer_quit sh word] at flow; cases flow
              | answered going _ => cases flow.symm.trans going
          | exhausted reached =>
              cases reached with
              | answered going _ => cases flow.symm.trans going

/-! ## Sessions in batch mode -/

theorem tellEnding_simulator (sh : Shell) : sh.tellEnding.2.simulator = sh.simulator := by
  simp only [tellEnding]
  split
  · rfl
  · split <;> rfl

theorem simulator_run (unfinished : sh.simulator.state.isFinished = false) (n : Nat) :
    (sh.run n).shell.simulator = (sh.simulator.step n).1 := by
  simp only [run, unfinished, Bool.false_eq_true, if_false]
  generalize sh.simulator.step n = out
  obtain ⟨s, e | report⟩ := out
  · rfl
  · exact tellEnding_simulator (sh.withSimulator s)

theorem flow_run (unfinished : sh.simulator.state.isFinished = false) (n : Nat) :
    (sh.run n).flow = .proceed ∨
      ∃ e pc, (sh.run n).flow = .fail e ∧ (sh.simulator.step n).1.state = .aborted pc := by
  have failure : ∀ e, (sh.simulator.step n).2 = .error e →
      ∃ pc, (sh.simulator.step n).1.state = .aborted pc :=
    fun e failed => ⟨_, (Simulator.exists_turn_of_step_error failed).1⟩
  simp only [run, unfinished, Bool.false_eq_true, if_false]
  generalize sh.simulator.step n = out at failure
  obtain ⟨s, e | report⟩ := out
  · obtain ⟨pc, aborted⟩ := failure e rfl
    exact .inr ⟨_, pc, rfl, aborted⟩
  · exact .inl rfl

/-- A run that ends the program is told, and the session goes on. -/
theorem run_of_ended {n : Nat} {pc code : Word}
    (unfinished : sh.simulator.state.isFinished = false)
    (ended : (sh.simulator.step n).1.state = .ended pc code) :
    (sh.run n).flow = .proceed ∧ (sh.run n).shell.simulator.state = .ended pc code := by
  refine ⟨?_, by rw [simulator_run unfinished, ended]⟩
  obtain going | ⟨e, pc', -, aborted⟩ := flow_run unfinished n
  · exact going
  · cases ended.symm.trans aborted

theorem shell_batch (sh : Shell) : sh.batch.shell = (sh.run Simulator.forever).shell := by
  simp only [batch]
  split <;> rfl

theorem fatal_batch (sh : Shell) :
    sh.batch.fatal = none ↔ ∀ e, (sh.run Simulator.forever).flow ≠ .fail e := by
  simp only [batch]
  split
  · next e failed => exact iff_of_false nofun fun none => none e failed
  · next other => exact iff_of_true rfl other

end Shell

/-- A call of `step` is no success but where it ends the program with zero in `a0`. -/
theorem Simulator.isSuccess_step {s : Simulator} {n : Nat}
    (unfinished : s.state.isFinished = false) :
    (s.step n).1.state.isSuccess = true ↔ ∃ pc, (s.step n).1.state = .ended pc 0 := by
  -- the ways in which a run is left, of which one ends the program
  have left := @left_run n { s with state := .running } .fresh rfl
  rw [step_of_unfinished unfinished]
  simp only [keptFor, close]
  generalize run true n _ _ = out at left
  have never : ∀ state : RunStatus, state.isSuccess = false →
      (state.isSuccess = true ↔ ∃ pc, state = .ended pc 0) := by
    intro state failure
    refine iff_of_false (by rw [failure]; exact Bool.false_ne_true) ?_
    rintro ⟨pc, rfl⟩
    cases failure
  cases left with
  | @running s' r h => exact never _ (by simp only [settle, h, if_true]; rfl)
  | @stopped s' r h => rw [settle_eq (by simp [h])]; exact never _ (by rw [h]; rfl)
  | @failed s' e pc h => rw [settle_eq (by simp [h])]; exact never _ (by rw [h]; rfl)
  | @ended s' r pc code h =>
      rw [settle_eq (by simp [h]), h]
      refine ⟨fun zero => ⟨pc, ?_⟩, ?_⟩
      · rw [eq_of_beq (zero : (code == 0) = true)]
      · rintro ⟨_, same⟩
        cases same
        rfl

namespace CommandLine

open Shell (Succeeds Session)

theorem statusOf_eq_zero_iff {session : Session} :
    statusOf session = 0 ↔
      session.fatal = none ∧ session.shell.simulator.state.isSuccess = true := by
  simp only [statusOf]
  cases session.fatal with
  | some e => exact iff_of_false nofun nofun
  | none => cases session.shell.simulator.state.isSuccess <;> simp

/-- What is told after a fatal error does not change the status. -/
theorem statusOf_conclude (session : Session) :
    statusOf (Shell.conclude session) = statusOf session := by
  cases h : session.fatal with
  | none => simp only [Shell.conclude, h]
  | some e => simp only [Shell.conclude, statusOf, h]

theorem statusOf_batch {sh : Shell} (unfinished : sh.simulator.state.isFinished = false)
    (input : List (Option String)) : statusOf sh.batch = 0 ↔ Succeeds sh input true := by
  rw [statusOf_eq_zero_iff, Shell.shell_batch, Shell.simulator_run unfinished,
    Simulator.isSuccess_step unfinished, Shell.fatal_batch]
  constructor
  · rintro ⟨-, pc, ended⟩
    exact .ended ended (Simulator.atBreakpoint_of_step unfinished ended)
  · rintro ⟨ended⟩
    refine ⟨fun e failed => ?_, _, ended⟩
    have goes := (Shell.run_of_ended unfinished ended).1
    cases goes.symm.trans failed

theorem statusOf_session {sh : Shell} (unfinished : sh.simulator.state.isFinished = false)
    (batch : Bool) (input : List Byte) :
    statusOf (sh.session batch input) = 0 ↔ Succeeds sh (Text.lines input) batch := by
  rw [Shell.session, statusOf_conclude]
  cases batch with
  | true => exact statusOf_batch unfinished _
  | false =>
      rw [if_neg nofun]
      obtain ⟨success, left⟩ := @Shell.converse_fatal sh (Text.lines input) ""
      rw [← success, statusOf_eq_zero_iff]
      exact ⟨fun h => h.1, fun h => ⟨h, by rw [left h]; rfl⟩⟩

/-! ## The status of the program -/

section Start
variable {config : Config} {image : Image} {shell : Shell} {batch : Bool}

theorem state_of_shellWith (h : shellWith config image = .ok (shell, batch)) :
    shell.simulator.state = .stopped := by
  have same := (loadImage_frame (Simulator.create config) image).2
  simp only [shellWith] at h
  split at h
  · cases h
  · next s loaded => cases h; rw [loaded] at same; exact same

/-- An image that is placed starts a session. -/
theorem shellWith_of_loaded (h : ((Simulator.create config).loadImage image).2 = .ok ()) :
    shellWith config image =
      .ok ({ simulator := ((Simulator.create config).loadImage image).1 },
        config.monitor.batchMode) := by
  simp only [shellWith]
  generalize (Simulator.create config).loadImage image = out at h
  obtain ⟨s, e | _⟩ := out
  · cases h
  · rfl

theorem state_of_start {files : Files} {o : Options}
    (h : (start files o).shell = .ok (shell, batch)) : shell.simulator.state = .stopped := by
  simp only [start] at h
  split at h
  · cases h
  · split at h
    · exact state_of_shellWith h
    · split at h
      · cases h
      · exact state_of_shellWith h

end Start

/-- A program that neither tells its usage nor its version has the status of a success where a
session starts and is one. -/
theorem status_runWith {files : Files} {o : Options} {input : List Byte} :
    (runWith files input o).status = 0 ↔
      ∃ shell batch, (start files o).shell = .ok (shell, batch) ∧
        Succeeds shell (Text.lines input) batch := by
  simp only [runWith]
  cases started : (start files o).shell with
  | error e =>
      refine iff_of_false nofun ?_
      rintro ⟨shell, batch, same, -⟩
      cases same
  | ok begun =>
      obtain ⟨shell, batch⟩ := begun
      have unfinished : shell.simulator.state.isFinished = false := by
        rw [state_of_start started]; rfl
      refine (statusOf_session unfinished batch input).trans ⟨fun h => ⟨shell, batch, rfl, h⟩, ?_⟩
      rintro ⟨_, _, same, h⟩
      cases same
      exact h

end CommandLine

/-- A session ends with status zero in three cases: in batch mode, where the program of the guest
ends at the breakpoint with zero in `a0`; otherwise where a line with the command `q` is
reached, or the end of the input. -/
theorem exit_status_zero_iff {config : Config} {image : Image} {shell : Shell} {batch : Bool}
    (started : CommandLine.shellWith config image = .ok (shell, batch)) (input : List Byte) :
    CommandLine.statusOf (shell.session batch input) = 0 ↔
      shell.Succeeds (Text.lines input) batch := by
  have unfinished : shell.simulator.state.isFinished = false := by
    rw [CommandLine.state_of_shellWith started]; rfl
  exact CommandLine.statusOf_session unfinished batch input

/-- In batch mode, a program that consists of the breakpoint. -/
theorem exit_status_zero_at_good_trap :
    let config : Config := { memory := ⟨0x80000000, 4⟩, monitor := { batchMode := true } }
    let image := Image.ofWords [breakpointWord] 0x80000000
    ∃ shell, CommandLine.shellWith config image = .ok (shell, true) ∧
      CommandLine.statusOf (shell.session true []) = 0 := by
  intro config image
  let shell : Shell := { simulator := ((Simulator.create config).loadImage image).1 }
  have started : CommandLine.shellWith config image = .ok (shell, true) :=
    CommandLine.shellWith_of_loaded
      (by decide +kernel : ((Simulator.create config).loadImage image).2 = .ok ())
  have unfinished : shell.simulator.state.isFinished = false := by decide +kernel
  have there : AtBreakpoint shell.simulator.machine 0x80000000 0 := by
    constructor <;> decide +kernel
  exact ⟨shell, started, (exit_status_zero_iff started []).mpr (.of_atBreakpoint unfinished there)⟩

/-- A program that puts a number other than zero into `a0` and ends, run by the only two lines of
the input, `si` and `c`.  The status is zero, but the program ends with another exit code, no
shell that is reached has a run that ended with zero, and no line that is reached has the
command `q`. -/
theorem exit_status_zero_after_bad_trap :
    let image := Image.ofWords [0x00001537, breakpointWord] 0x80000000
    let input : List Byte := [0x73, 0x69, 0x0a, 0x63, 0x0a]
    ∃ shell, CommandLine.shellWith .standard image = .ok (shell, false) ∧
      CommandLine.statusOf (shell.session false input) = 0 ∧
      (∃ last, Shell.Reaches shell (Text.lines input) last [] ∧
        last.simulator.state = .ended 0x80000004 0x1000) ∧
      ∀ last left, Shell.Reaches shell (Text.lines input) last left →
        (∀ pc, last.simulator.state ≠ .ended pc 0) ∧
        ∀ line rest, left = some line :: rest → Text.firstWord? line ≠ some "q" := by
  intro image input
  have started := CommandLine.shellWith_of_loaded
    (by decide +kernel : ((Simulator.create .standard).loadImage image).2 = .ok ())
  generalize hsh : ({ simulator := ((Simulator.create .standard).loadImage image).1 } : Shell) = sh
    at started
  generalize hstepped : (sh.answer (some "si")).shell = stepped
  have lines : Text.lines input = [some "si", some "c"] := by decide +kernel
  have fresh : sh.simulator.state = .stopped := by rw [← hsh]; decide +kernel
  have going : (sh.answer (some "si")).flow = .proceed := by rw [← hsh]; decide +kernel
  have stopped : stepped.simulator.state = .stopped := by rw [← hstepped, ← hsh]; decide +kernel
  have there : AtBreakpoint stepped.simulator.machine 0x80000004 0x1000 := by
    rw [← hstepped, ← hsh]
    constructor <;> decide +kernel
  have unfinished : stepped.simulator.state.isFinished = false := by rw [stopped]; rfl
  obtain ⟨goes, ended⟩ := Shell.run_of_ended unfinished
    (Simulator.state_step_of_atBreakpoint (by decide +kernel : 0 < Simulator.forever) unfinished
      there)
  -- the second line does not leave: the end of the input does
  rw [← Shell.answer_continue] at goes ended
  have all : Shell.Reaches sh (Text.lines input) (stepped.answer (some "c")).shell [] := by
    rw [lines, Shell.reaches_cons, hstepped]
    exact .inr ⟨going, .answered goes .here⟩
  refine ⟨sh, started, ?_, ⟨_, all, ended⟩, fun last left reached => ?_⟩
  · exact (CommandLine.statusOf_session (by rw [fresh]; rfl) false input).mpr (.exhausted all)
  · rw [lines, Shell.reaches_cons, hstepped, Shell.reaches_cons, Shell.reaches_nil] at reached
    obtain ⟨rfl, rfl⟩ | ⟨-, ⟨rfl, rfl⟩ | ⟨-, rfl, rfl⟩⟩ := reached
    · refine ⟨fun pc h => (nomatch fresh.symm.trans h), fun line rest same => ?_⟩
      cases same
      decide +kernel
    · refine ⟨fun pc h => (nomatch stopped.symm.trans h), fun line rest same => ?_⟩
      cases same
      decide +kernel
    · refine ⟨fun pc h => ?_, nofun⟩
      cases ended.symm.trans h

end HartMonitor
