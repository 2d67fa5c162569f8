/-
# `HartMonitor.Proofs.Shell.Screen` — what is printed, line by line

What a session prints is cut at its line feeds, and the prompts in front of a line are taken off,
of which there are several where a line of the input was answered with nothing:

    (rvsdb) (rvsdb) HIT GOOD TRAP at pc = 0x80000000

A line that does not begin with a parenthesis is read back as it was printed (`Shown`).  The
lines that tell the end of a run are of this kind, and so are those of the statistics; they are
the only ones that are not plain.
-/
import HartMonitor.Proofs.Shell.Wording

namespace HartMonitor

open Text (OneLine)

namespace Shell

/-- The characters behind the prompts with which they begin. -/
def afterPrompts (cs : List Char) : List Char :=
  if prompt.toList <+: cs then afterPrompts (cs.drop prompt.length) else cs
termination_by cs.length
decreasing_by
  next begins =>
  have shorter := begins.length_le
  have some : 0 < prompt.length := by decide
  rw [String.length_toList] at shorter
  rw [List.length_drop]
  omega

/-- The lines that are printed, without the prompts in front of them. -/
def shownLines (output : String) : List String :=
  (output.toList.splitOn '\n').map fun cs => String.ofList (afterPrompts cs)

/-- A line that is shown as it is printed. -/
structure Shown (line : String) : Prop where
  oneLine : OneLine line
  head : line.toList.head? ≠ some '('

theorem Plain.shown {line : String} (h : Plain line) : Shown line where
  oneLine := h.1
  head first := absurd (h.2 '(' first) (by decide)

theorem afterPrompts_prompt (cs : List Char) :
    afterPrompts (prompt.toList ++ cs) = afterPrompts cs := by
  rw [afterPrompts, if_pos (List.prefix_append _ _), ← String.length_toList, List.drop_left]

theorem afterPrompts_eq {cs : List Char} (h : cs.head? ≠ some '(') : afterPrompts cs = cs := by
  rw [afterPrompts, if_neg]
  rintro ⟨rest, rfl⟩
  exact h rfl

theorem splitOn_append {front cs : List Char} (none : '\n' ∉ front) :
    (front ++ cs).splitOn '\n' = (cs.splitOn '\n').modifyHead (front ++ ·) := by
  induction front with
  | nil =>
      show cs.splitOn '\n' = (cs.splitOn '\n').modifyHead id
      rw [List.modifyHead_id, id]
  | cons c rest ih =>
      obtain ⟨other, later⟩ := List.ne_and_not_mem_of_not_mem_cons none
      rw [List.cons_append, List.splitOn_cons_eq_if_modifyHead, ih later]
      simp [Ne.symm other, List.modifyHead_modifyHead, Function.comp_def]

theorem shownLines_prompt (rest : String) : shownLines (prompt ++ rest) = shownLines rest := by
  rw [shownLines, shownLines, String.toList_append, splitOn_append (by decide)]
  cases pieces : rest.toList.splitOn '\n' with
  | nil => rfl
  | cons first more =>
      rw [List.modifyHead_cons, List.map_cons, List.map_cons, afterPrompts_prompt]

theorem shownLines_empty : shownLines "" = [""] := by
  have nothing : afterPrompts [] = [] := afterPrompts_eq (by decide)
  rw [shownLines, String.toList_empty, List.splitOn_nil, List.map_singleton, nothing]

theorem shownLines_line {line : String} (h : Shown line) (rest : String) :
    shownLines (line ++ "\n" ++ rest) = line :: shownLines rest := by
  have cut : (line ++ "\n" ++ rest).toList = line.toList ++ '\n' :: rest.toList := by simp
  rw [shownLines, cut, List.splitOn_append_cons_self_of_not_mem h.oneLine, List.map_cons,
    afterPrompts_eq h.head, String.ofList_toList]
  rfl

theorem text_cons (line : String) (lines : List String) :
    text (line :: lines) = line ++ "\n" ++ text lines := by
  rw [text, List.map_cons, String.join_cons, text]

theorem shownLines_text {lines : List String} (h : ∀ line ∈ lines, Shown line) (rest : String) :
    shownLines (text lines ++ rest) = lines ++ shownLines rest := by
  induction lines with
  | nil => rw [text, List.map_nil, String.join_nil, String.empty_append, List.nil_append]
  | cons line lines ih =>
      obtain ⟨first, later⟩ := List.forall_mem_cons.mp h
      rw [text_cons, String.append_assoc, shownLines_line first, ih later, List.cons_append]

/-! ## The end of a run -/

/-- A line that tells how a run came to its end. -/
def EndLine (line : String) : Prop :=
  ∃ state : RunStatus, state.endLine? = some line

def heading : String := "SIMULATION STATISTICS"

/-- A line on the end of a run begins with an initial of its own. -/
theorem EndLine.head {line : String} (h : EndLine line) :
    line.toList.head? = some 'H' ∨ line.toList.head? = some 'A' := by
  obtain ⟨state, told⟩ := h
  cases state with
  | ended pc code =>
      simp only [RunStatus.endLine?] at told
      split at told
      · cases told; simp
      · cases told; simp
  | aborted pc => cases told; simp
  | running | stopped | quit => cases told

theorem EndLine.shown {line : String} (h : EndLine line) : Shown line where
  oneLine := by
    obtain ⟨state, told⟩ := h
    cases state with
    | ended pc code =>
        simp only [RunStatus.endLine?] at told
        split at told
        · cases told; simp +decide
        · cases told; simp +decide
    | aborted pc => cases told; simp +decide
    | running | stopped | quit => cases told
  head := by obtain first | first := h.head <;> rw [first] <;> decide

/-- Neither the end of a run nor the heading of its statistics. -/
structure Ordinary (line : String) : Prop where
  endLine : ¬ EndLine line
  heading : line ≠ heading

theorem Plain.ordinary {line : String} (h : Plain line) : Ordinary line where
  endLine ends := by
    obtain first | first := ends.head <;> exact absurd (h.2 _ first) (by decide)
  heading := by
    rintro rfl
    exact absurd h (by decide)

theorem not_endLine_heading : ¬ EndLine heading := by
  intro ends
  obtain first | first := ends.head <;> exact absurd first (by decide)

theorem reportLines_eq (counts : Statistics) :
    ∃ rest, counts.reportLines = Statistics.rule '=' :: heading :: rest ∧
      Plain (Statistics.rule '=') ∧ ∀ line ∈ rest, Plain line := by
  refine ⟨_, rfl, by decide, ?_⟩
  simp +decide [Statistics.entry, Statistics.share, Text.padRight, Statistics.rule]

theorem heading_reportLines (counts : Statistics) :
    (∀ line ∈ counts.reportLines, ¬ EndLine line) ∧ counts.reportLines.count heading = 1 := by
  obtain ⟨rest, lines, rule, plain⟩ := reportLines_eq counts
  have others : heading ∉ rest := fun mem => (plain heading mem).ordinary.heading rfl
  rw [lines]
  refine ⟨?_, ?_⟩
  · intro line mem
    obtain rfl | rfl | later : line = _ ∨ line = _ ∨ line ∈ rest := by simpa using mem
    · exact rule.ordinary.endLine
    · exact not_endLine_heading
    · exact (plain line later).ordinary.endLine
  · rw [List.count_cons_of_ne rule.ordinary.heading, List.count_cons_self,
      List.count_eq_zero_of_not_mem others]

end Shell

end HartMonitor
