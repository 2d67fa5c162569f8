/-
# `HartMonitor.Proofs.Shell.Transcript` — a session as the list of its answers

A session over lines of input answers one line after the other.  Its answers, down to the
one that ends it, hold all there is to know about it:

    what it prints       the prompt before every answer, and after a fatal error the ending
    where it comes to    the shell of the last answer, or the shell the ending leaves
    how it ends          the flow of the last answer
-/
import HartMonitor.Proofs.Shell.ExitStatus

namespace HartMonitor.Shell

variable {sh mid : Shell} {line : Option String} {before after lines : List (Option String)}

/-- The answers to lines of input, down to the one that ends the session. -/
def replies (sh : Shell) : List (Option String) → List Reply
  | [] => [sh.endOfInput]
  | line :: rest =>
    let reply := sh.answer line
    match reply.flow with
    | .proceed => reply :: replies reply.shell rest
    | .leave | .fail _ => [reply]

def transcript (answers : List Reply) : String :=
  String.join (answers.map fun reply => prompt ++ reply.output)

def interactive (sh : Shell) (lines : List (Option String)) : Session :=
  conclude (converse "" sh lines)

theorem session_interactive (sh : Shell) (input : List Byte) :
    sh.session false input = sh.interactive (Text.lines input) := rfl

theorem transcript_cons (reply : Reply) (answers : List Reply) :
    transcript (reply :: answers) = prompt ++ reply.output ++ transcript answers :=
  String.join_cons

theorem transcript_cons_append (r : Reply) (answers : List Reply) (ending : String) :
    transcript (r :: answers) ++ ending =
      prompt ++ (r.output ++ (transcript answers ++ ending)) := by
  rw [transcript_cons]
  simp only [String.append_assoc]

theorem replies_of_proceed (going : (sh.answer line).flow = .proceed)
    (lines : List (Option String)) :
    sh.replies (line :: lines) = sh.answer line :: (sh.answer line).shell.replies lines := by
  simp only [replies, going]

theorem converse_of_proceed (going : (sh.answer line).flow = .proceed) (printed : String)
    (lines : List (Option String)) :
    converse printed sh (line :: lines) =
      converse (printed ++ prompt ++ (sh.answer line).output) (sh.answer line).shell lines := by
  simp only [converse, going]

theorem output_converse (printed : String) :
    (converse printed sh lines).output = printed ++ transcript (sh.replies lines) := by
  induction lines generalizing printed sh with
  | nil => simp [converse, replies, transcript, String.append_assoc]
  | cons line rest ih =>
      simp only [converse, replies]
      cases (sh.answer line).flow with
      | proceed =>
          dsimp only
          rw [ih, transcript_cons]
          simp only [String.append_assoc]
      | leave | fail e => simp [transcript, String.append_assoc]

theorem converse_printed (printed printed' : String) :
    (converse printed sh lines).shell = (converse printed' sh lines).shell ∧
      (converse printed sh lines).fatal = (converse printed' sh lines).fatal := by
  induction lines generalizing printed printed' sh with
  | nil => exact ⟨rfl, rfl⟩
  | cons line rest ih =>
      simp only [converse]
      cases (sh.answer line).flow with
      | proceed => exact ih ..
      | leave | fail e => exact ⟨rfl, rfl⟩

theorem Reaches.length_le (reached : Reaches sh lines mid after) : after.length ≤ lines.length := by
  induction reached with
  | here => exact Nat.le_refl _
  | answered _ _ ih => exact Nat.le_succ_of_le ih

/-- Lines that are answered one after the other have their answers in front, whatever lines come
behind them. -/
theorem replies_of_reaches (reached : Reaches sh (before ++ after) mid after) :
    ∃ first : List Reply, first.length = before.length ∧
      ∀ lines, sh.replies (before ++ lines) = first ++ mid.replies lines ∧
        ∀ printed, converse printed sh (before ++ lines) =
          converse (printed ++ transcript first) mid lines := by
  induction before generalizing sh with
  | nil =>
      obtain rfl : mid = sh := by
        cases reached with
        | here => rfl
        | answered _ later => exact absurd later.length_le (by simp)
      exact ⟨[], rfl, fun lines => ⟨rfl, fun printed => by simp [transcript]⟩⟩
  | cons line rest ih =>
      obtain ⟨-, all⟩ | ⟨going, later⟩ := reaches_cons.mp reached
      · exact absurd (congrArg List.length all) (by simp; omega)
      · obtain ⟨first, length, same⟩ := ih later
        refine ⟨sh.answer line :: first, congrArg (· + 1) length,
          fun lines => ⟨?_, fun printed => ?_⟩⟩
        · rw [List.cons_append, replies_of_proceed going, (same lines).1, List.cons_append]
        · rw [List.cons_append, converse_of_proceed going, (same lines).2, transcript_cons]
          simp only [String.append_assoc]

/-! ## The end of a session -/

def Session.ending (session : Session) : String :=
  match session.fatal with
  | none => ""
  | some _ => session.shell.tellEnding.1

theorem output_conclude (session : Session) :
    (conclude session).output = session.output ++ session.ending := by
  simp only [conclude, Session.ending]
  cases session.fatal with
  | none => exact String.append_empty.symm
  | some e => rfl

theorem fatal_conclude (session : Session) : (conclude session).fatal = session.fatal := by
  simp only [conclude]
  cases h : session.fatal with
  | none => exact h
  | some e => rfl

variable {session session' : Session}

theorem ending_congr (shell : session.shell = session'.shell)
    (fatal : session.fatal = session'.fatal) : session.ending = session'.ending := by
  simp only [Session.ending, shell, fatal]

theorem shell_conclude_congr (shell : session.shell = session'.shell)
    (fatal : session.fatal = session'.fatal) :
    (conclude session).shell = (conclude session').shell := by
  simp only [conclude, fatal]
  cases session'.fatal with
  | none => exact shell
  | some e => exact congrArg (fun sh => sh.tellEnding.2) shell

def Reply.ending (r : Reply) : String :=
  match r.flow with
  | .fail _ => r.shell.tellEnding.1
  | .proceed | .leave => ""

theorem ending_of_proceed (going : (sh.answer line).flow = .proceed)
    (lines : List (Option String)) :
    (converse "" sh (line :: lines)).ending =
      (converse "" (sh.answer line).shell lines).ending := by
  rw [converse_of_proceed going]
  obtain ⟨shell, fatal⟩ := @converse_printed (sh.answer line).shell lines
    ("" ++ prompt ++ (sh.answer line).output) ""
  exact ending_congr shell fatal

/-- The last answer ends the session. -/
theorem ending_of_last (last : (sh.answer line).flow ≠ .proceed)
    (lines : List (Option String)) :
    sh.replies (line :: lines) = [sh.answer line] ∧
      (converse "" sh (line :: lines)).ending = (sh.answer line).ending := by
  simp only [replies, converse, Reply.ending]
  cases flow : (sh.answer line).flow with
  | proceed => exact absurd flow last
  | leave => exact ⟨rfl, rfl⟩
  | fail e => exact ⟨rfl, rfl⟩

theorem output_interactive (sh : Shell) (lines : List (Option String)) :
    (sh.interactive lines).output =
      transcript (sh.replies lines) ++ (converse "" sh lines).ending := by
  rw [interactive, output_conclude, output_converse, String.empty_append]

end HartMonitor.Shell
