/-
# `HartMonitor.Proofs.Shell.Report` — the end of a run is told once

A session stands between two answers in an orderly way, and each answer keeps it so as long as the
session goes on (`Reply.Tells.orderly`).  By induction on the lines of the input, the lines that
are shown are plain but for one place, where they tell the first end that the run came to:

    not told, and no answer ends the run      plain lines
    not told, and some answer ends it         plain lines, the closing of that run, plain lines
    told                                      plain lines

A run may be finished anew after its end was told, by an expression that fails fatally, and it is
left at the end of the session; neither is told.
-/
import HartMonitor.Proofs.Shell.Answer

namespace HartMonitor

open Text (OneLine)
open WatchPool (Maintained)

namespace Shell

variable {sh : Shell} {r : Reply} {line : Option String} {lines : List (Option String)}

theorem Reply.Tells.endedHere (h : r.Tells sh) (orderly : sh.Orderly)
    (finished : r.shell.simulator.state.isFinished = true) : r.shell.simulator.EndedHere := by
  cases h with
  | goes asked | fails _ asked => exact Simulator.endedHere_perform orderly.ending asked finished
  | leaves => cases finished

theorem Reply.Tells.orderly (h : r.Tells sh) (orderly : sh.Orderly) (going : r.flow = .proceed) :
    r.shell.Orderly := by
  cases h with
  | @goes q _ asked plain =>
      exact ⟨rfl, (Reply.Tells.goes asked plain).endedHere orderly,
        maintained_perform orderly.watches q⟩
  | leaves | fails => cases going

/-! ## The first end of a run -/

/-- The lines that tell the first end among some simulators of a session. -/
def firstClosing (states : List Simulator) : List String :=
  match states.find? (·.state.isFinished) with
  | none => []
  | some s => s.closing

theorem firstClosing_cons_of_finished {s : Simulator} (finished : s.state.isFinished = true)
    (rest : List Simulator) : firstClosing (s :: rest) = s.closing := by
  simp only [firstClosing, List.find?_cons, finished]

theorem firstClosing_cons_of_unfinished {s : Simulator} (unfinished : s.state.isFinished = false)
    (rest : List Simulator) : firstClosing (s :: rest) = firstClosing rest := by
  simp only [firstClosing, List.find?_cons, unfinished]

theorem firstClosing_singleton (s : Simulator) : firstClosing [s] = s.closing := by
  cases finished : s.state.isFinished with
  | true => exact firstClosing_cons_of_finished finished []
  | false =>
      rw [firstClosing_cons_of_unfinished finished, Simulator.closing_of_unfinished finished]
      rfl

/-- The lines that a session has still to tell about the end of its run, with its simulators. -/
def pending (sh : Shell) (states : List Simulator) : List String :=
  if sh.reported then [] else firstClosing states

theorem pending_singleton (sh : Shell) (s : Simulator) : sh.pending [s] = sh.news s := by
  rw [pending, news, firstClosing_singleton]

/-- Lines that are plain but for one place, where some others stand. -/
def PlainAround (told shown : List String) : Prop :=
  ∃ before after, (∀ line ∈ before ++ after, Plain line) ∧ shown = before ++ told ++ after

theorem PlainAround.prepend {told shown plain : List String} (h : PlainAround told shown)
    (more : ∀ line ∈ plain, Plain line) : PlainAround told (plain ++ shown) := by
  obtain ⟨before, after, rest, rfl⟩ := h
  refine ⟨plain ++ before, after, ?_, by simp only [List.append_assoc]⟩
  rw [List.append_assoc]
  exact List.forall_mem_append.mpr ⟨more, rest⟩

/-- Where there is nothing else, something else may be put in front. -/
theorem PlainAround.insert {told shown : List String} (h : PlainAround [] shown) :
    PlainAround told (told ++ shown) := by
  obtain ⟨before, after, rest, rfl⟩ := h
  exact ⟨[], before ++ after, rest, by simp⟩

theorem plainAround_last {told : List String} : PlainAround told (told ++ [""]) :=
  ⟨[], [""], by decide, rfl⟩

/-! ## Sessions -/

theorem shown_news (sh : Shell) (s : Simulator) : ∀ line ∈ sh.news s, Shown line := by
  rw [news]
  split
  · exact List.forall_mem_nil Shown
  · exact s.shown_closing

theorem tellEnding_fst (sh : Shell) : sh.tellEnding.1 = text (sh.news sh.simulator) := by
  cases reported : sh.reported with
  | true => simp only [tellEnding, news, reported, if_true]; rfl
  | false => rw [tellEnding_of_fresh reported, news, if_neg (by simp [reported])]

/-- The last answer of a session, and what is told after it. -/
theorem plainAround_last_reply (tells : r.Tells sh) :
    PlainAround (sh.pending [r.shell.simulator]) (shownLines (r.output ++ r.ending)) := by
  rw [pending_singleton]
  cases tells with
  | @goes q lines asked plain =>
      have shown := List.forall_mem_append.mpr
        ⟨fun line mem => (plain line mem).shown, shown_news sh (sh.simulator.perform q)⟩
      dsimp only [Reply.ending]
      rw [shownLines_text shown, shownLines_empty, List.append_assoc]
      exact plainAround_last.prepend plain
  | @leaves lines plain =>
      have nothing : sh.news sh.simulator.quit = [] := by
        rw [news, Simulator.closing_of_unfinished rfl, ite_self]
      dsimp only [Reply.ending, withSimulator]
      rw [nothing, shownLines_text fun line mem => (plain line mem).shown, shownLines_empty]
      exact (@plainAround_last []).prepend plain
  | @fails q e asked =>
      dsimp only [Reply.ending, fail]
      rw [tellEnding_fst, String.empty_append, ← @String.append_empty (text _)]
      rw [shownLines_text (shown_news _ _), shownLines_empty]
      exact plainAround_last

/-- An answer with which the session goes on, before what is shown of the rest of it. -/
theorem plainAround_goes {rest : List Simulator} {shown : String} (orderly : sh.Orderly)
    (tells : r.Tells sh) (going : r.flow = .proceed)
    (later : PlainAround (r.shell.pending rest) (shownLines shown)) :
    PlainAround (sh.pending (r.shell.simulator :: rest)) (shownLines (r.output ++ shown)) := by
  cases tells with
  | @goes q lines asked plain =>
      have allShown := List.forall_mem_append.mpr
        ⟨fun line mem => (plain line mem).shown, shown_news sh (sh.simulator.perform q)⟩
      dsimp only [pending] at later ⊢
      rw [shownLines_text allShown, List.append_assoc]
      refine PlainAround.prepend ?_ plain
      cases reported : sh.reported with
      | true =>
          -- what was told stays told
          have before := orderly.reported.symm.trans reported
          have stays : (sh.simulator.perform q).state.isFinished = true :=
            isFinished_perform before (by rintro rfl; exact asked)
          rw [stays, if_pos rfl] at later
          simpa [news, reported] using later
      | false =>
          cases finished : (sh.simulator.perform q).state.isFinished with
          | true =>
              rw [finished, if_pos rfl] at later
              simpa [news, reported, firstClosing_cons_of_finished finished] using later.insert
          | false =>
              rw [finished, if_neg Bool.false_ne_true] at later
              simpa [news, reported, firstClosing_cons_of_unfinished finished,
                Simulator.closing_of_unfinished finished] using later
  | leaves | fails => cases going

/-- A session over lines of input shows plain lines, but for the end of its run. -/
theorem plainAround_replies :
    ∀ {sh : Shell}, sh.Orderly → (∀ text, some text ∈ lines → OneLine text) →
      PlainAround (sh.pending ((sh.replies lines).map (·.shell.simulator)))
        (shownLines (transcript (sh.replies lines) ++ (converse "" sh lines).ending)) := by
  induction lines with
  | nil =>
      intro sh orderly _
      have tells : sh.endOfInput.Tells sh := .leaves (by decide : ∀ line ∈ [""], Plain line)
      rw [replies, transcript_cons_append, shownLines_prompt]
      exact plainAround_last_reply tells
  | cons line rest ih =>
      intro sh orderly texts
      have tells := orderly.tells_answer fun text typed => texts text (typed ▸ List.mem_cons_self)
      by_cases going : (sh.answer line).flow = .proceed
      · rw [replies_of_proceed going, ending_of_proceed going, transcript_cons_append,
          shownLines_prompt, List.map_cons]
        exact plainAround_goes orderly tells going (ih (tells.orderly orderly going)
          fun text typed => texts text (List.mem_cons_of_mem _ typed))
      · obtain ⟨last, ending⟩ := ending_of_last going rest
        rw [last, ending, transcript_cons_append, shownLines_prompt]
        exact plainAround_last_reply tells

/-- Wherever a session finds its run finished, it ended where the machine stands. -/
theorem endedHere_replies :
    ∀ {sh : Shell}, sh.Orderly → (∀ text, some text ∈ lines → OneLine text) →
      ∀ r ∈ sh.replies lines, r.shell.simulator.state.isFinished = true →
        r.shell.simulator.EndedHere := by
  induction lines with
  | nil =>
      intro sh _ _ r mem
      rw [List.mem_singleton.mp mem]
      exact fun finished => absurd finished Bool.false_ne_true
  | cons line rest ih =>
      intro sh orderly texts r mem
      have tells := orderly.tells_answer fun text typed => texts text (typed ▸ List.mem_cons_self)
      by_cases going : (sh.answer line).flow = .proceed
      · rw [replies_of_proceed going] at mem
        obtain rfl | later := List.mem_cons.mp mem
        · exact tells.endedHere orderly
        · exact ih (tells.orderly orderly going)
            (fun text typed => texts text (List.mem_cons_of_mem _ typed)) r later
      · rw [(ending_of_last going rest).1, List.mem_singleton] at mem
        rw [mem]
        exact tells.endedHere orderly

/-- The simulators that a session comes to, before its input and after every answer. -/
def history (sh : Shell) (batchMode : Bool) (input : List Byte) : List Simulator :=
  sh.simulator ::
    if batchMode then [sh.batch.shell.simulator]
    else (sh.replies (Text.lines input)).map (·.shell.simulator)

theorem ending_batch (sh : Shell) : sh.batch.ending = (sh.run Simulator.forever).ending := by
  simp only [batch, Reply.ending]
  cases (sh.run Simulator.forever).flow <;> rfl

theorem output_batch (sh : Shell) : sh.batch.output = (sh.run Simulator.forever).output := by
  simp only [batch]
  split <;> rfl

namespace Orderly

variable (orderly : sh.Orderly) (unfinished : sh.simulator.state.isFinished = false)
  (batchMode : Bool) (input : List Byte)
include orderly unfinished

/-- A session that begins with a run that is not finished shows plain lines, but for its first
end. -/
theorem plainAround_session :
    PlainAround (firstClosing (sh.history batchMode input))
      (shownLines (sh.session batchMode input).output) := by
  have fresh : sh.reported = false := orderly.reported.trans unfinished
  rw [history, firstClosing_cons_of_unfinished unfinished]
  cases batchMode with
  | true =>
      have last := plainAround_last_reply (orderly.tells_run Simulator.forever)
      rw [← shell_batch, ← ending_batch, ← output_batch, ← output_conclude] at last
      simpa [pending, fresh, session] using last
  | false =>
      have all := @plainAround_replies (Text.lines input) sh orderly
        fun text typed => Text.oneLine_of_mem_lines typed
      rw [← output_interactive sh (Text.lines input), ← session_interactive] at all
      simpa [pending, fresh] using all

theorem endedHere_history {s : Simulator} (mem : s ∈ sh.history batchMode input)
    (finished : s.state.isFinished = true) : s.EndedHere := by
  obtain rfl | later := List.mem_cons.mp mem
  · rw [unfinished] at finished
    cases finished
  · cases batchMode with
    | true =>
        obtain rfl := List.mem_singleton.mp later
        rw [shell_batch] at finished ⊢
        exact (orderly.tells_run Simulator.forever).endedHere orderly finished
    | false =>
        obtain ⟨r, answered, rfl⟩ := List.mem_map.mp later
        exact endedHere_replies orderly (fun text typed => Text.oneLine_of_mem_lines typed) r
          answered finished

end Orderly

end Shell

namespace CommandLine

theorem orderly_of_shellWith {config : Config} {image : Image} {shell : Shell} {batch : Bool}
    (h : shellWith config image = .ok (shell, batch)) : shell.Orderly := by
  have unfinished : shell.simulator.state.isFinished = false := by
    rw [state_of_shellWith h]; rfl
  have created : Maintained (Simulator.create config).watches := .toggle _ (.create _)
  have watches : Maintained ((Simulator.create config).loadImage image).1.watches :=
    maintained_perform created (.load image)
  simp only [shellWith] at h
  split at h
  · cases h
  · next s loaded =>
    cases h
    rw [loaded] at watches
    exact ⟨unfinished.symm, fun finished => absurd finished (by simp [unfinished]), watches⟩

end CommandLine

/-- The end of a run is told once.  Where no answer of a session finds the run finished, no line
that is shown tells the end of a run or heads the statistics.  Otherwise take the first simulator
that is found finished: what is shown is the line on the end of its run, followed by its
statistics, and around them lines of which none tells the end of a run or heads the statistics.
That run ended where the machine stands: at the breakpoint, with the exit code in `a0`, or
aborted at its `pc`.

Of the statistics themselves, one line is the heading, and none tells the end of a run. -/
theorem run_end_told_once {config : Config} {image : Image} {shell : Shell} {batch : Bool}
    (started : CommandLine.shellWith config image = .ok (shell, batch)) (input : List Byte) :
    let lines := Shell.shownLines (shell.session batch input).output
    match (shell.history batch input).find? (·.state.isFinished) with
    | none => ∀ line ∈ lines, Shell.Ordinary line
    | some s => ∃ ending before after,
        s.state.endLine? = some ending ∧ s.EndedHere ∧
          lines = before ++ ending :: s.statistics.reportLines ++ after ∧
          (∀ line ∈ before ++ after, Shell.Ordinary line) ∧
          (∀ line ∈ s.statistics.reportLines, ¬ Shell.EndLine line) ∧
          s.statistics.reportLines.count Shell.heading = 1 := by
  intro lines
  have unfinished : shell.simulator.state.isFinished = false := by
    rw [CommandLine.state_of_shellWith started]; rfl
  have orderly := CommandLine.orderly_of_shellWith started
  obtain ⟨before, after, plain, shown⟩ := orderly.plainAround_session unfinished batch input
  have ordinary : ∀ line ∈ before ++ after, Shell.Ordinary line :=
    fun line mem => (plain line mem).ordinary
  rw [Shell.firstClosing] at shown
  cases first : (shell.history batch input).find? (·.state.isFinished) with
  | none =>
      rw [first, List.append_nil] at shown
      dsimp only
      rw [show lines = before ++ after from shown]
      exact ordinary
  | some s =>
      rw [first] at shown
      have finished := List.find?_some (p := fun s : Simulator => s.state.isFinished) first
      obtain ⟨ending, told, closing⟩ := Simulator.closing_of_finished finished
      dsimp only at shown
      rw [closing] at shown
      obtain ⟨noEnd, one⟩ := Shell.heading_reportLines s.statistics
      exact ⟨ending, before, after, told,
        orderly.endedHere_history unfinished batch input (List.mem_of_find?_eq_some first) finished,
        shown, ordinary, noEnd, one⟩

/-- The program is the breakpoint, and the lines of the input are `c` and `p 1/0`.  The division by
zero aborts a run that has ended, and what is told is how it ended. -/
theorem run_end_told_once_before_division :
    let image := Image.ofWords [breakpointWord] 0x80000000
    let input : List Byte := [0x63, 0x0a, 0x70, 0x20, 0x31, 0x2f, 0x30, 0x0a]
    ∃ shell, CommandLine.shellWith .standard image = .ok (shell, false) ∧
      (shell.session false input).shell.simulator.state = .aborted 0x80000000 ∧
      ∃ before counts after,
        Shell.shownLines (shell.session false input).output =
          before ++ "HIT GOOD TRAP at pc = 0x80000000" :: counts ++ after ∧
        (∀ line ∈ before ++ after, Shell.Ordinary line) ∧
        (∀ line ∈ counts, ¬ Shell.EndLine line) ∧ counts.count Shell.heading = 1 := by
  intro image input
  have loaded : ((Simulator.create .standard).loadImage image).2 = .ok () := by decide +kernel
  obtain ⟨sh, hsh⟩ : ∃ sh : Shell,
      sh = { simulator := ((Simulator.create .standard).loadImage image).1 } := ⟨_, rfl⟩
  have started : CommandLine.shellWith .standard image = .ok (sh, false) := by
    rw [hsh]
    exact CommandLine.shellWith_of_loaded loaded
  have lines : Text.lines input = [some "c", some "p 1/0"] := by decide +kernel
  have unfinished : sh.simulator.state.isFinished = false := by rw [hsh]; decide +kernel
  have there : AtBreakpoint sh.simulator.machine 0x80000000 0 := by
    rw [hsh]
    constructor <;> decide +kernel
  -- the first line ends the run at the breakpoint
  have stepped := Simulator.state_step_of_atBreakpoint (by decide +kernel : 0 < Simulator.forever)
    unfinished there
  have pc := (Simulator.atBreakpoint_of_step unfinished stepped).pc
  rw [← Shell.simulator_run unfinished, ← Shell.answer_continue] at pc
  obtain ⟨goes, ended⟩ := Shell.run_of_ended unfinished stepped
  rw [← Shell.answer_continue] at goes ended
  -- the second one fails, in any machine
  have divided : ∀ m, evaluate m "1/0" = .error .divisionByZero := by
    have cut : tokenize "1/0" = .ok [⟨.decimal, "1"⟩, ⟨.div, "/"⟩, ⟨.decimal, "0"⟩] := by
      decide +kernel
    intro m
    rw [evaluate, cut]
    with_unfolding_all rfl
  have fails : ∀ mid : Shell, mid.answer (some "p 1/0") =
      (mid.withSimulator mid.simulator.abort).fail
        (.simulator (.expression .divisionByZero)) := by
    have trimmed : Text.trim "p 1/0" = "p 1/0" := by decide +kernel
    have command : Shell.cutCommand "p 1/0" = ("p", "1/0") := by decide +kernel
    intro mid
    simp only [Shell.answer, trimmed, command]
    show mid.printCommand "1/0" = _
    simp only [Shell.printCommand, Simulator.evaluate, divided]
    rfl
  have session : sh.session false input =
      Shell.conclude (Shell.converse "" sh [some "c", some "p 1/0"]) := by
    rw [Shell.session, lines, if_neg Bool.false_ne_true]
  have history : sh.history false input =
      sh.simulator :: (sh.replies [some "c", some "p 1/0"]).map (·.shell.simulator) := by
    rw [Shell.history, lines, if_neg Bool.false_ne_true]
  refine ⟨sh, started, ?_, ?_⟩
  · rw [session, Shell.converse_of_proceed goes, Shell.converse, fails]
    simp only [Shell.fail, Shell.conclude, Shell.tellEnding_simulator]
    exact congrArg RunStatus.aborted pc
  · have first : (sh.history false input).find? (·.state.isFinished) =
        some (sh.answer (some "c")).shell.simulator := by
      rw [history, Shell.replies_of_proceed goes]
      simp only [List.map_cons, List.find?_cons, unfinished, ended]
      rfl
    have told := run_end_told_once started input
    dsimp only at told
    rw [first] at told
    obtain ⟨ending, before, after, line, -, shown, ordinary, noEnd, one⟩ := told
    have good : (sh.answer (some "c")).shell.simulator.state.endLine? =
        some "HIT GOOD TRAP at pc = 0x80000000" := by rw [ended]; decide +kernel
    cases line.symm.trans good
    exact ⟨before, _, after, shown, ordinary, noEnd, one⟩

end HartMonitor
