/-
# `HartMonitor.Proofs.Shell.Inspection` — commands that leave no trace

A line may be put into a session without anybody noticing, but for its own answer, where
it only looks (`OnlyLooks`):

    nothing but blanks
    help, info            with any argument
    no command at all
    si, d, wp, x, p       with an argument that they do not understand
    p, x                  where no expression fails so that the run ends
    w                     where it fails, and not so that the run ends
    d                     where there is no such watchpoint

Such a line keeps the session going and leaves the shell as it was (`answer_of_onlyLooks`),
so the lines behind it are answered as without it.
-/
import HartMonitor.Proofs.Shell.Transcript

namespace HartMonitor

theorem Simulator.examine_eq_of_ok {s : Simulator} {count addr : String} {found : Word × List Byte}
    (h : (s.examine count addr).2 = .ok found) : (s.examine count addr).1 = s := by
  have first := @evaluate_eq_of_ok s count
  simp only [examine] at h ⊢
  generalize s.evaluate count = out at first h
  obtain ⟨s₁, cause | len⟩ := out
  · cases h
  · obtain rfl : s₁ = s := first rfl
    have second := @evaluate_eq_of_ok s₁ addr
    dsimp only at h ⊢
    generalize s₁.evaluate addr = out at second h
    obtain ⟨s₂, cause | start⟩ := out
    · cases h
    · exact second rfl

namespace Shell

/-! ## Lines that only look -/

/-- The commands, by name and argument, that look at a simulator and leave it alone. -/
inductive Inspects (s : Simulator) : String → String → Prop
  | help (argument : String) : Inspects s "help" argument
  | info (argument : String) : Inspects s "info" argument
  /-- There is no such command. -/
  | unknown {name : String} (argument : String) :
      name ∉ commands.map Prod.fst → Inspects s name argument
  /-- The number of instructions is none. -/
  | badCount {argument : String} : stepCount? argument = none → Inspects s "si" argument
  /-- The id is no number. -/
  | badId {argument : String} : number? argument = none → Inspects s "d" argument
  /-- The switch is neither on nor off. -/
  | badSwitch {argument : String} : argument ≠ "on" → argument ≠ "off" → Inspects s "wp" argument
  /-- The range is no pair. -/
  | badRange {argument : String} : Text.splitAtBlank? argument = none → Inspects s "x" argument
  /-- There is nothing to print. -/
  | nothing : Inspects s "p" ""
  /-- The expression does not fail fatally. -/
  | print {argument : String} :
      (∀ e, (s.evaluate argument).2 = .error e → e.isFatal = false) → Inspects s "p" argument
  /-- Neither expression fails fatally. -/
  | examine {argument count addr : String} :
      Text.splitAtBlank? argument = some (count, addr) →
      (∀ e, (s.examine count (Text.trim addr)).2 = .error (.expression e) → e.isFatal = false) →
      Inspects s "x" argument
  /-- The expression is not watched, for a reason that is not fatal. -/
  | refused {argument : String} {e : WatchFailure} :
      (s.watch argument).2 = .error e → e.isFatal = false → Inspects s "w" argument
  /-- There is no such watchpoint. -/
  | missing {argument : String} {id : Nat} {e : PoolError} :
      number? argument = some id → (s.unwatch id).2 = .error e → Inspects s "d" argument

/-- A line that only looks at a simulator. -/
def OnlyLooks (s : Simulator) (line : String) : Prop :=
  Text.trim line = "" ∨
    Inspects s (cutCommand (Text.trim line)).1 (cutCommand (Text.trim line)).2

variable {sh mid : Shell} {argument name line : String}

/-- An answer that keeps the session going with the shell as it was. -/
structure Reply.Quiet (r : Reply) (sh : Shell) : Prop where
  flow : r.flow = .proceed
  shell : r.shell = sh

theorem quiet_say (sh : Shell) (lines : List String) : (sh.say lines).Quiet sh := ⟨rfl, rfl⟩

theorem quiet_helpCommand (sh : Shell) (argument : String) :
    (sh.helpCommand argument).Quiet sh := by
  simp only [helpCommand]
  split
  · exact quiet_say ..
  · split <;> exact quiet_say ..

theorem quiet_infoCommand (sh : Shell) (argument : String) :
    (sh.infoCommand argument).Quiet sh := by
  simp only [infoCommand]
  split <;> exact quiet_say ..

theorem perform_of_unknown (other : name ∉ commands.map Prod.fst) :
    sh.perform name argument = sh.say ["Unknown command '" ++ name ++ "'"] := by
  simp only [perform]
  split
  case h_11 => rfl
  all_goals exact absurd (by decide) other

theorem quiet_printCommand
    (mild : ∀ e, (sh.simulator.evaluate argument).2 = .error e → e.isFatal = false) :
    (sh.printCommand argument).Quiet sh := by
  have valued := @Simulator.evaluate_eq_of_ok sh.simulator argument
  have failed := @Simulator.atomic_evaluate sh.simulator argument
  simp only [printCommand]
  split
  · exact quiet_say ..
  · generalize sh.simulator.evaluate argument = out at mild valued failed
    obtain ⟨s, e | value⟩ := out
    · have harmless := mild e rfl
      obtain rfl : s = sh.simulator :=
        (failed rfl).unchanged fun ends =>
          absurd (ExpressionError.isFatal_iff.mpr ends) (by simp [harmless])
      simp only [harmless, Bool.false_eq_true, if_false]
      exact quiet_say ..
    · obtain rfl : s = sh.simulator := valued rfl
      exact quiet_say ..

theorem quiet_examineCommand {count addr : String}
    (range : Text.splitAtBlank? argument = some (count, addr))
    (mild : ∀ e, (sh.simulator.examine count (Text.trim addr)).2 = .error (.expression e) →
      e.isFatal = false) :
    (sh.examineCommand argument).Quiet sh := by
  have found := @Simulator.examine_eq_of_ok sh.simulator count (Text.trim addr)
  have failed := @Simulator.atomic_examine sh.simulator count (Text.trim addr)
  simp only [examineCommand, range]
  generalize sh.simulator.examine count (Text.trim addr) = out at mild found failed
  obtain ⟨s, (e | ⟨start, len⟩) | bytes⟩ := out
  · have harmless := mild e rfl
    obtain rfl : s = sh.simulator :=
      (failed rfl).unchanged fun ends =>
        absurd (ExpressionError.isFatal_iff.mpr ends) (by simp [harmless])
    simp only [harmless, Bool.false_eq_true, if_false]
    exact quiet_say ..
  · obtain rfl : s = sh.simulator := (failed rfl).unchanged id
    exact quiet_say ..
  · obtain rfl : s = sh.simulator := found rfl
    exact quiet_say ..

theorem quiet_watchCommand {e : WatchFailure} (refused : (sh.simulator.watch argument).2 = .error e)
    (mild : e.isFatal = false) : (sh.watchCommand argument).Quiet sh := by
  obtain ⟨atomic, fatal⟩ := Simulator.atomic_watch refused
  have same : (sh.simulator.watch argument).1 = sh.simulator :=
    atomic.unchanged (by rw [← fatal, mild]; exact Bool.false_ne_true)
  have out : sh.simulator.watch argument = (sh.simulator, .error e) := Prod.ext same refused
  simp only [watchCommand, out, mild, Bool.false_eq_true, if_false]
  cases e <;> exact quiet_say ..

theorem quiet_deleteCommand {id : Nat} {e : PoolError} (number : number? argument = some id)
    (missing : (sh.simulator.unwatch id).2 = .error e) : (sh.deleteCommand argument).Quiet sh := by
  have same := (Simulator.unwatch_eq_of_error missing).1
  have out : sh.simulator.unwatch id = (sh.simulator, .error e) := Prod.ext same missing
  simp only [deleteCommand, number, out]
  exact quiet_say ..

theorem quiet_perform (h : Inspects sh.simulator name argument) :
    (sh.perform name argument).Quiet sh := by
  cases h with
  | help argument => exact quiet_helpCommand sh argument
  | info argument => exact quiet_infoCommand sh argument
  | unknown argument other => rw [perform_of_unknown other]; exact quiet_say ..
  | badCount none =>
      show (sh.stepCommand argument).Quiet sh
      rw [stepCommand, none]
      exact quiet_say ..
  | badId none =>
      show (sh.deleteCommand argument).Quiet sh
      rw [deleteCommand, none]
      exact quiet_say ..
  | badSwitch notOn notOff =>
      show (sh.toggleCommand argument).Quiet sh
      rw [toggleCommand]
      exacts [quiet_say .., notOn, notOff]
  | badRange none =>
      show (sh.examineCommand argument).Quiet sh
      rw [examineCommand, none]
      exact quiet_say ..
  | nothing => exact quiet_say ..
  | print mild => exact quiet_printCommand mild
  | examine range mild => exact quiet_examineCommand range mild
  | refused failed mild => exact quiet_watchCommand failed mild
  | missing number vacant => exact quiet_deleteCommand number vacant

/-- The answer to a line that only looks. -/
theorem answer_of_onlyLooks (h : OnlyLooks sh.simulator line) :
    (sh.answer (some line)).Quiet sh := by
  simp only [answer]
  split
  · exact quiet_say ..
  · next nonempty => exact quiet_perform (h.resolve_left nonempty)

theorem reaches_of_onlyLook {looks : List String} (h : ∀ line ∈ looks, OnlyLooks sh.simulator line)
    (after : List (Option String)) : Reaches sh (looks.map some ++ after) sh after := by
  induction looks with
  | nil => exact .here
  | cons line rest ih =>
      have quiet := answer_of_onlyLooks (h line List.mem_cons_self)
      refine .answered quiet.flow ?_
      rw [quiet.shell]
      exact ih fun line listed => h line (List.mem_cons_of_mem _ listed)

end Shell

/-- Lines that only look are invisible.  Put into a session at any place that it comes to, they
change neither the shell that it leaves nor the error that it ends with, and so not its status.
All other lines are answered as without them, and nothing is printed but the answers and the same
ending. -/
theorem inspection_invisible {sh mid : Shell} {before after : List (Option String)}
    {looks : List String} (place : Shell.Reaches sh (before ++ after) mid after)
    (look : ∀ line ∈ looks, Shell.OnlyLooks mid.simulator line) :
    let plain := sh.interactive (before ++ after)
    let observed := sh.interactive (before ++ looks.map some ++ after)
    observed.shell = plain.shell ∧ observed.fatal = plain.fatal ∧
      CommandLine.statusOf observed = CommandLine.statusOf plain ∧
      ∃ first shown rest ending, first.length = before.length ∧ shown.length = looks.length ∧
        sh.replies (before ++ after) = first ++ rest ∧
        sh.replies (before ++ looks.map some ++ after) = first ++ shown ++ rest ∧
        plain.output = Shell.transcript (first ++ rest) ++ ending ∧
        observed.output = Shell.transcript (first ++ shown ++ rest) ++ ending := by
  intro plain observed
  obtain ⟨first, firstLength, front⟩ := Shell.replies_of_reaches place
  obtain ⟨shown, shownLength, middle⟩ :=
    Shell.replies_of_reaches (Shell.reaches_of_onlyLook look after)
  rw [List.length_map] at shownLength
  -- behind the lines put in, both sessions are one session of the shell at that place
  have plainSession := (front after).2 ""
  have observedSession := (front (looks.map some ++ after)).2 ""
  rw [(middle after).2, ← List.append_assoc] at observedSession
  have same := @Shell.converse_printed mid after ("" ++ Shell.transcript first)
    ("" ++ Shell.transcript first ++ Shell.transcript shown)
  rw [← plainSession, ← observedSession] at same
  obtain ⟨sameShell, sameFatal⟩ := same
  have sameEnding := Shell.ending_congr sameShell sameFatal
  have fatal : observed.fatal = plain.fatal := by
    simp only [observed, plain, Shell.interactive, Shell.fatal_conclude, sameFatal]
  have shell : observed.shell = plain.shell := by
    simp only [observed, plain, Shell.interactive]
    rw [Shell.shell_conclude_congr sameShell sameFatal]
  have plainReplies := (front after).1
  have observedReplies := (front (looks.map some ++ after)).1
  rw [(middle after).1, ← List.append_assoc, ← List.append_assoc] at observedReplies
  refine ⟨shell, fatal, ?_, first, shown, mid.replies after,
    (Shell.converse "" sh (before ++ after)).ending, firstLength, shownLength, plainReplies,
    observedReplies, ?_, ?_⟩
  · simp only [CommandLine.statusOf, shell, fatal]
  · rw [← plainReplies]; exact Shell.output_interactive ..
  · rw [sameEnding, ← observedReplies]; exact Shell.output_interactive ..

/-- After one instruction, an expression that lacks an operand is neither printed nor watched,
memory behind the end is not shown, and a watchpoint that does not exist is not deleted. -/
theorem inspection_invisible_after_step :
    let s := (Simulator.create { memory := ⟨0x80000000, 4⟩ }).perform
      (.load (.ofWords [0x00000297] 0x80000000))
    let sh : Shell := { simulator := s }
    let plain := sh.interactive [some "si", some "q"]
    let observed := sh.interactive
      [some "si", some "p 1 /", some "w 1 /", some "x 8 $pc", some "d 40", some "q"]
    (sh.answer (some "si")).shell.simulator.machine.pc = 0x80000004 ∧
      observed.shell = plain.shell ∧ observed.fatal = plain.fatal ∧
      CommandLine.statusOf observed = CommandLine.statusOf plain ∧
      ∃ first shown rest ending, first.length = 1 ∧ shown.length = 4 ∧
        sh.replies [some "si", some "q"] = first ++ rest ∧
        plain.output = Shell.transcript (first ++ rest) ++ ending ∧
        observed.output = Shell.transcript (first ++ shown ++ rest) ++ ending := by
  intro s sh plain observed
  generalize hmid : (sh.answer (some "si")).shell = mid
  have going : (sh.answer (some "si")).flow = .proceed := by decide +kernel
  have pc : mid.simulator.machine.pc = 0x80000004 := by rw [← hmid]; decide +kernel
  have place : Shell.Reaches sh ([some "si"] ++ [some "q"]) mid [some "q"] :=
    .answered going (hmid ▸ .here)
  have lacking : (mid.simulator.evaluate "1 /").2 = .error (.missingOperand 3) := by
    rw [← hmid]; decide +kernel
  have unwatched : (mid.simulator.watch "1 /").2 = .error (.expression (.missingOperand 3)) := by
    rw [← hmid]; decide +kernel
  have outside : (mid.simulator.examine "8" "$pc").2 = .error (.outOfWindow 0x80000004 8) := by
    rw [← hmid]; decide +kernel
  have vacant : (mid.simulator.unwatch 40).2 = .error (.noSuchSlot 40) := by
    rw [← hmid]; decide +kernel
  have look : ∀ line ∈ ["p 1 /", "w 1 /", "x 8 $pc", "d 40"],
      Shell.OnlyLooks mid.simulator line := by
    simp only [List.forall_mem_cons, List.not_mem_nil, false_imp_iff, forall_const, and_true]
    refine ⟨.inr ?_, .inr ?_, .inr ?_, .inr ?_⟩
    · exact (.print fun e failed => by cases lacking.symm.trans failed; rfl :
        Shell.Inspects mid.simulator "p" "1 /")
    · exact (.refused unwatched rfl : Shell.Inspects mid.simulator "w" "1 /")
    · have range : Text.splitAtBlank? "8 $pc" = some ("8", "$pc") := by decide +kernel
      exact (.examine range fun e failed => (nomatch outside.symm.trans failed) :
        Shell.Inspects mid.simulator "x" "8 $pc")
    · exact (.missing (by decide +kernel) vacant : Shell.Inspects mid.simulator "d" "40")
  obtain ⟨shell, fatal, status, first, shown, rest, ending, firstLength, shownLength, replies, -,
    plainOutput, observedOutput⟩ := inspection_invisible place look
  exact ⟨pc, shell, fatal, status, first, shown, rest, ending, firstLength, shownLength, replies,
    plainOutput, observedOutput⟩

end HartMonitor
