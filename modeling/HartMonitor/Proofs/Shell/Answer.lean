/-
# `HartMonitor.Proofs.Shell.Answer` — what one answer asks for and tells

An answer that does not leave the session makes one request of the simulator, which neither loads
nor quits, and prints plain lines.  Between two answers the end of the run has been told where it
is finished, and not otherwise (`Orderly`).  So there are three kinds of answers (`Tells`):

    goes       plain lines; behind them the end of the run, where it was not told before
    leaves     plain lines; the run is left
    fails      nothing; the end of the run is told when the session is concluded
-/
import HartMonitor.Proofs.Shell.Inspection
import HartMonitor.Proofs.Shell.Screen
import HartMonitor.Proofs.Simulator.Loss

namespace HartMonitor

open Text (OneLine)
open WatchPool (Maintained)

/-! ## What is watched -/

namespace WatchPool

variable {p p' : WatchPool}

theorem exists_of_mem_events {eval : String → Except ExpressionError Word}
    {events : List WatchEvent} (h : p.check eval = (p', .ok events)) :
    ∀ event ∈ events, ∃ w ∈ p.toList, w.expression = event.expression := by
  intro event mem
  cases enabled : p.enabled with
  | false =>
      simp only [check, sweep, enabled] at h
      cases h
      cases mem
  | true =>
      obtain ⟨-, -, -, rfl, -⟩ := check_ok enabled h
      obtain ⟨w, listed, changed⟩ := List.mem_filterMap.mp mem
      refine ⟨w, listed, ?_⟩
      simp only [change?] at changed
      split at changed
      · split at changed
        · cases changed
        · cases changed; rfl
      · cases changed

/-- What is watched had a value once, so it is one line. -/
theorem Maintained.oneLine (h : Maintained p) : ∀ w ∈ p.toList, OneLine w.expression := by
  refine (forall_mem_liveFrom (P := fun text _ => OneLine text)).mpr fun w mem => ?_
  obtain ⟨m, value, valued⟩ := h.valued w mem
  exact oneLine_of_evaluate valued

end WatchPool

/-! ## Requests -/

/-- The requests of a session that goes on: none loads or quits. -/
def Request.InSession : Request → Prop
  | .load _ | .quit => False
  | _ => True

namespace Simulator

variable {s : Simulator}

/-- A run that is over ended where the machine stands: at the breakpoint with the exit code in `a0`,
or aborted. -/
def EndedHere (s : Simulator) : Prop :=
  s.state = .aborted s.machine.pc ∨
    ∃ code, s.state = .ended s.machine.pc code ∧ AtBreakpoint s.machine s.machine.pc code

theorem oneLine_of_step (h : Maintained s.watches) {n : Nat} {r : RunReport}
    (returned : (s.step n).2 = .ok r) : ∀ event ∈ r.events, OneLine event.expression := by
  intro event mem
  obtain none | ⟨s₁, s₂, step, kept, taken⟩ := maintained_lasting.fired_of_step h returned
  · rw [none] at mem
    cases mem
  · cases taken with
    | fired _ swept =>
        obtain ⟨w, listed, same⟩ := WatchPool.exists_of_mem_events swept event mem
        exact same ▸ kept.oneLine w listed

theorem not_aborted_of_step (unfinished : s.state.isFinished = false) {n : Nat} {r : RunReport}
    (returned : (s.step n).2 = .ok r) (pc : Word) : (s.step n).1.state ≠ .aborted pc := by
  have left := @left_run n { s with state := .running } .fresh rfl
  rw [step_of_unfinished unfinished] at returned ⊢
  simp only [keptFor, close] at returned ⊢
  generalize run true n _ _ = out at left returned
  cases left with
  | @running s' r h => simp only [settle, h, if_true]; exact RunStatus.noConfusion
  | @stopped s' r h => rw [settle_eq (by simp [h]), h]; exact RunStatus.noConfusion
  | @ended s' r pc code h => rw [settle_eq (by simp [h]), h]; exact RunStatus.noConfusion
  | failed => cases returned

theorem endedHere_step (unfinished : s.state.isFinished = false) {n : Nat}
    (finished : (s.step n).1.state.isFinished = true) : (s.step n).1.EndedHere := by
  cases outcome : (s.step n).2 with
  | error e => exact .inl (exists_turn_of_step_error outcome).1
  | ok r =>
      cases state : (s.step n).1.state with
      | ended pc code =>
          have there := atBreakpoint_of_step unfinished state
          exact .inr ⟨code, by rw [there.pc, state], by rw [there.pc]; exact there⟩
      | aborted pc => exact absurd state (not_aborted_of_step unfinished outcome pc)
      | running | stopped | quit => rw [state] at finished; cases finished

theorem oneLine_message_of_evaluate {text : String} (line : OneLine text) {e : ExpressionError}
    (h : (s.evaluate text).2 = .error e) : OneLine e.message := by
  simp only [evaluate] at h
  split at h
  · cases h
  · next failed =>
    cases h
    exact HartMonitor.oneLine_message_of_evaluate failed line

theorem oneLine_message_of_examine {count addr : String} (length : OneLine count)
    (start : OneLine addr) {e : ExpressionError}
    (h : (s.examine count addr).2 = .error (.expression e)) : OneLine e.message := by
  have first := @oneLine_message_of_evaluate s count length
  simp only [examine] at h
  generalize s.evaluate count = out at first h
  obtain ⟨s₁, cause | len⟩ := out
  · cases h
    exact first rfl
  · have second := @oneLine_message_of_evaluate s₁ addr start
    dsimp only at h
    generalize s₁.evaluate addr = out at second h
    obtain ⟨s₂, cause | found⟩ := out
    · cases h
      exact second rfl
    · simp only [bytesIn] at h
      split at h
      · split at h <;> cases h
      · cases h

theorem state_of_watch {text : String} {id : Nat} (h : (s.watch text).2 = .ok id) :
    (s.watch text).1.state = s.state := by
  simp only [watch] at h ⊢
  split at h
  · rfl
  · cases h

theorem state_of_unwatch (s : Simulator) (id : Nat) : (s.unwatch id).1.state = s.state := by
  simp only [unwatch]
  split <;> rfl

theorem endedHere_perform (h : s.state.isFinished = true → s.EndedHere) {q : Request}
    (asked : q.InSession) (finished : (s.perform q).state.isFinished = true) :
    (s.perform q).EndedHere := by
  have idle : Requested s (s.perform q) → (s.perform q).EndedHere := by
    intro requested
    obtain same | aborted := requested.state
    · rw [same] at finished
      simpa only [EndedHere, same, requested.machine] using h finished
    · exact .inl (by rw [requested.machine]; exact aborted)
  match q with
  | .step n =>
      cases ended : s.state.isFinished with
      | false => exact endedHere_step ended finished
      | true =>
          show (s.step n).1.EndedHere
          rw [step_of_finished ended]
          exact h ended
  | .evaluate _ | .watch _ | .unwatch _ | .toggle _ | .examine _ _ | .registers =>
      exact idle (Request.Idle.requested (by trivial) s)

end Simulator

/-! ## The end of a run -/

theorem RunStatus.isSome_endLine? (state : RunStatus) :
    state.endLine?.isSome = state.isFinished := by
  cases state with
  | ended pc code => rw [endLine?]; split <;> rfl
  | running | stopped | aborted | quit => rfl

namespace Simulator

variable {s : Simulator}

/-- The lines that tell the end of a run, none where it is not finished. -/
def closing (s : Simulator) : List String :=
  match s.state.endLine? with
  | none => []
  | some line => line :: s.statistics.reportLines

theorem closing_of_unfinished (h : s.state.isFinished = false) : s.closing = [] := by
  rw [← RunStatus.isSome_endLine?, Option.isSome_eq_false_iff, Option.isNone_iff_eq_none] at h
  rw [closing, h]

theorem closing_of_finished (h : s.state.isFinished = true) :
    ∃ line, s.state.endLine? = some line ∧ s.closing = line :: s.statistics.reportLines := by
  rw [← RunStatus.isSome_endLine?] at h
  obtain ⟨line, told⟩ := Option.isSome_iff_exists.mp h
  exact ⟨line, told, by rw [closing, told]⟩

theorem shown_closing (s : Simulator) : ∀ line ∈ s.closing, Shell.Shown line := by
  intro line mem
  cases finished : s.state.isFinished with
  | false => rw [closing_of_unfinished finished] at mem; cases mem
  | true =>
      obtain ⟨first, told, lines⟩ := closing_of_finished finished
      obtain ⟨rest, report, rule, plain⟩ := Shell.reportLines_eq s.statistics
      rw [lines, report] at mem
      obtain rfl | rfl | rfl | listed : line = first ∨ line = _ ∨ line = _ ∨ line ∈ rest := by
        simpa using mem
      · exact Shell.EndLine.shown ⟨s.state, told⟩
      · exact rule.shown
      · exact ⟨by decide, by decide⟩
      · exact (plain line listed).shown

end Simulator

namespace Shell

variable {sh : Shell} {argument : String}

theorem tellEnding_of_fresh (fresh : sh.reported = false) :
    sh.tellEnding =
      (text sh.simulator.closing, ⟨sh.simulator, sh.simulator.state.isFinished⟩) := by
  have finished := sh.simulator.state.isSome_endLine?
  simp only [tellEnding, fresh, Bool.false_eq_true, if_false, Simulator.closing]
  cases told : sh.simulator.state.endLine? with
  | none =>
      rw [told] at finished
      rw [← finished, Option.isSome_none, ← fresh]
      rfl
  | some line =>
      rw [told] at finished
      rw [← finished, text_cons]
      rfl

theorem text_append (lines more : List String) :
    text (lines ++ more) = text lines ++ text more := by
  rw [text, text, text, List.map_append, String.join_append]

/-! ## Answers -/

/-- A shell between two answers: the end of its run has been told where it is finished. -/
structure Orderly (sh : Shell) : Prop where
  reported : sh.reported = sh.simulator.state.isFinished
  ending : sh.simulator.state.isFinished = true → sh.simulator.EndedHere
  watches : Maintained sh.simulator.watches

/-- The lines on the end of a run that a shell has not told yet. -/
def news (sh : Shell) (s : Simulator) : List String :=
  if sh.reported then [] else s.closing

/-- What an answer asks of the simulator, what it prints, and how the session goes on. -/
inductive Reply.Tells (sh : Shell) : Reply → Prop
  | goes {q : Request} {lines : List String} : q.InSession → (∀ line ∈ lines, Plain line) →
      Tells sh ⟨text (lines ++ sh.news (sh.simulator.perform q)),
        ⟨sh.simulator.perform q, (sh.simulator.perform q).state.isFinished⟩, .proceed⟩
  | leaves {lines : List String} : (∀ line ∈ lines, Plain line) →
      Tells sh ⟨text lines, sh.withSimulator sh.simulator.quit, .leave⟩
  | fails {q : Request} (e : Fatal) : q.InSession →
      Tells sh ((sh.withSimulator (sh.simulator.perform q)).fail e)

namespace Orderly

variable (orderly : sh.Orderly)
include orderly

/-- The answer of a shell that says something after a request which does not end the run. -/
theorem tells_after {q : Request} {s : Simulator} (reached : sh.simulator.perform q = s)
    (asked : q.InSession) {lines : List String} (plain : ∀ line ∈ lines, Plain line)
    (same : s.state.isFinished = sh.simulator.state.isFinished) :
    ((sh.withSimulator s).say lines).Tells sh := by
  have nothing : sh.news s = [] := by
    rw [news, orderly.reported, ← same]
    split
    · rfl
    · next other => exact Simulator.closing_of_unfinished (Bool.eq_false_of_not_eq_true other)
  have goes := @Reply.Tells.goes sh q lines asked plain
  rw [reached, nothing, List.append_nil, same, ← orderly.reported] at goes
  exact goes

theorem tells_say {lines : List String} (plain : ∀ line ∈ lines, Plain line) :
    (sh.say lines).Tells sh :=
  orderly.tells_after (q := .registers) rfl trivial plain rfl

omit orderly in
theorem tells_fail {q : Request} {s : Simulator} (reached : sh.simulator.perform q = s)
    (asked : q.InSession) (e : Fatal) : ((sh.withSimulator s).fail e).Tells sh := by
  subst reached
  exact .fails e asked

theorem tells_run (n : Nat) : (sh.run n).Tells sh := by
  simp only [run]
  split
  · exact orderly.tells_say (by decide)
  · next other =>
    have unfinished := Bool.eq_false_of_not_eq_true other
    have fresh : sh.reported = false := orderly.reported.trans unfinished
    have events := @Simulator.oneLine_of_step _ orderly.watches n
    have reached : sh.simulator.perform (.step n) = (sh.simulator.step n).1 := rfl
    generalize sh.simulator.step n = out at events reached
    obtain ⟨s, e | report⟩ := out
    · exact tells_fail reached trivial _
    · have goes := @Reply.Tells.goes sh (.step n) _ trivial
        (@plain_reportLines s.tracing report (events rfl))
      rw [reached, news, if_neg (by rw [fresh]; exact Bool.false_ne_true), text_append] at goes
      dsimp only
      rw [@tellEnding_of_fresh (sh.withSimulator s) fresh]
      exact goes

theorem tells_stepCommand (argument : String) : (sh.stepCommand argument).Tells sh := by
  simp only [stepCommand]
  split
  · exact orderly.tells_run _
  · exact orderly.tells_say (by decide)

theorem tells_helpCommand (line : OneLine argument) : (sh.helpCommand argument).Tells sh := by
  simp only [helpCommand]
  split
  · exact orderly.tells_say (List.forall_mem_map.mpr plain_commandLine)
  · next name word =>
    have known := line.of_subset (Text.firstWord?_subset word)
    split
    · next command found =>
      refine orderly.tells_say (List.forall_mem_singleton.mpr ?_)
      exact plain_commandLine command (List.mem_of_find?_eq_some found)
    · exact orderly.tells_say (by simp +decide [known])

theorem tells_printCommand (line : OneLine argument) : (sh.printCommand argument).Tells sh := by
  simp only [printCommand]
  split
  · exact orderly.tells_say (by decide)
  · have reached : sh.simulator.perform (.evaluate argument) = (sh.simulator.evaluate argument).1 :=
      rfl
    have valued := @Simulator.evaluate_eq_of_ok sh.simulator argument
    have failed := @Simulator.atomic_evaluate sh.simulator argument
    have message := @Simulator.oneLine_message_of_evaluate sh.simulator argument line
    generalize sh.simulator.evaluate argument = out at reached valued failed message
    obtain ⟨s, e | value⟩ := out
    · dsimp only at reached ⊢
      split
      · exact tells_fail reached trivial _
      · next mild =>
        have same : s = sh.simulator :=
          (failed rfl).unchanged fun ends => mild (ExpressionError.isFatal_iff.mpr ends)
        refine orderly.tells_after reached trivial ?_ (by rw [same])
        simp +decide [message rfl]
    · have same : s = sh.simulator := valued rfl
      refine orderly.tells_after reached trivial ?_ (by rw [same])
      simp +decide [String.append_assoc]

theorem tells_watchCommand (argument : String) : (sh.watchCommand argument).Tells sh := by
  have reached : sh.simulator.perform (.watch argument) = (sh.simulator.watch argument).1 := rfl
  have kept := @Simulator.state_of_watch sh.simulator argument
  have failed := @Simulator.atomic_watch sh.simulator argument
  simp only [watchCommand]
  generalize sh.simulator.watch argument = out at reached kept failed
  obtain ⟨s, e | id⟩ := out
  · obtain ⟨atomic, fatal⟩ := failed rfl
    dsimp only at reached ⊢
    split
    · exact tells_fail reached trivial _
    · next mild =>
      have same : s = sh.simulator := atomic.unchanged fun ends => mild (fatal.mpr ends)
      have told := fun lines plain => @tells_after sh orderly _ s reached trivial lines plain
        (by rw [same])
      cases e with
      | expression e => exact told _ (by decide)
      | pool e =>
          have message := PoolError.oneLine_message (Bool.eq_false_of_not_eq_true mild)
          exact told _ (by simp +decide [message])
  · refine orderly.tells_after reached trivial ?_ (by rw [kept rfl])
    simp +decide

theorem tells_infoCommand (argument : String) : (sh.infoCommand argument).Tells sh := by
  simp only [infoCommand]
  split
  · exact orderly.tells_say (List.forall_mem_map.mpr (plain_registerLine sh.simulator))
  · exact orderly.tells_say (plain_watchpointLines orderly.watches.oneLine)
  · exact orderly.tells_say (by decide)

theorem tells_examineCommand (line : OneLine argument) : (sh.examineCommand argument).Tells sh := by
  simp only [examineCommand]
  split
  · exact orderly.tells_say (by decide)
  · next count addr range =>
    obtain ⟨left, right⟩ := Text.splitAtBlank?_subset range
    have reached : sh.simulator.perform (.examine count (Text.trim addr)) =
        (sh.simulator.examine count (Text.trim addr)).1 := rfl
    have found := @Simulator.examine_eq_of_ok sh.simulator count (Text.trim addr)
    have failed := @Simulator.atomic_examine sh.simulator count (Text.trim addr)
    have message := @Simulator.oneLine_message_of_examine sh.simulator count (Text.trim addr)
      (line.of_subset left) ((line.of_subset right).of_subset (Text.trim_subset addr))
    generalize sh.simulator.examine count (Text.trim addr) = out at reached found failed message
    obtain ⟨s, (e | ⟨start, len⟩) | ⟨start, bytes⟩⟩ := out
    · dsimp only at reached ⊢
      split
      · exact tells_fail reached trivial _
      · next mild =>
        have same : s = sh.simulator :=
          (failed rfl).unchanged fun ends => mild (ExpressionError.isFatal_iff.mpr ends)
        refine orderly.tells_after reached trivial ?_ (by rw [same])
        simp +decide [message rfl]
    · have same : s = sh.simulator := (failed rfl).unchanged id
      refine orderly.tells_after reached trivial ?_ (by rw [same])
      simp +decide
    · have same : s = sh.simulator := found rfl
      have told := orderly.tells_after reached trivial (plain_dump start.toNat bytes) (by rw [same])
      rw [say, ← text_render] at told
      exact told

theorem tells_deleteCommand (argument : String) : (sh.deleteCommand argument).Tells sh := by
  simp only [deleteCommand]
  split
  · exact orderly.tells_say (by decide)
  · next id _ =>
    have reached : sh.simulator.perform (.unwatch id) = (sh.simulator.unwatch id).1 := rfl
    have kept := sh.simulator.state_of_unwatch id
    generalize sh.simulator.unwatch id = out at reached kept
    obtain ⟨s, e | _⟩ := out
    · refine orderly.tells_after reached trivial ?_ (by rw [kept])
      simp +decide
    · refine orderly.tells_after reached trivial ?_ (by rw [kept])
      simp +decide

theorem tells_toggleCommand (argument : String) : (sh.toggleCommand argument).Tells sh := by
  simp only [toggleCommand]
  split
  · exact orderly.tells_after (q := .toggle true) rfl trivial (by decide) rfl
  · exact orderly.tells_after (q := .toggle false) rfl trivial (by decide) rfl
  · exact orderly.tells_say (by decide)

theorem tells_perform {name : String} (command : OneLine name) (line : OneLine argument) :
    (sh.perform name argument).Tells sh := by
  simp only [perform]
  split
  · exact orderly.tells_helpCommand line
  · exact orderly.tells_run _
  · exact .leaves (List.forall_mem_nil Plain)
  · exact orderly.tells_printCommand line
  · exact orderly.tells_watchCommand argument
  · exact orderly.tells_stepCommand argument
  · exact orderly.tells_infoCommand argument
  · exact orderly.tells_examineCommand line
  · exact orderly.tells_deleteCommand argument
  · exact orderly.tells_toggleCommand argument
  · exact orderly.tells_say (by simp +decide [command])

theorem tells_answer {line : Option String} (h : ∀ text ∈ line, OneLine text) :
    (sh.answer line).Tells sh := by
  cases line with
  | none => exact .fails (q := .registers) .notUtf8 trivial
  | some line =>
      have trimmed := (h line rfl).of_subset (Text.trim_subset line)
      simp only [answer]
      split
      · exact orderly.tells_say (List.forall_mem_nil Plain)
      · simp only [cutCommand]
        split
        · exact orderly.tells_perform trimmed (by decide : OneLine "")
        · next name rest cut =>
          obtain ⟨left, right⟩ := Text.splitAtBlank?_subset cut
          exact orderly.tells_perform (trimmed.of_subset left)
            ((trimmed.of_subset right).of_subset (Text.trim_subset rest))

end Orderly

end Shell

end HartMonitor
