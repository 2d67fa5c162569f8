/-
# `HartMonitor.Proofs.Expression.Pairing` — parentheses that do not pair are found first

A text pairs its parentheses where no beginning of it closes more of them than it opens, and
the whole of it closes as many as it opens (`Paired`).  That is said of characters; the
evaluator follows the depth of tokens:

    depthIn_eq_some_iff     the depth of characters, from how many of them open and close
    depthAfter_tokensOf     the tokens of a text have the depth of its characters

A pair that encloses tokens, or an operator that cuts them, is only there where they are
balanced, and then the parts are balanced again.  So tokens that are not balanced are refused
as they stand, nothing in them having been worked out, and in balanced ones no part is refused
for its parentheses.
-/
import HartMonitor.Proofs.Expression.Dereference

namespace HartMonitor

open Evaluation Lexer

/-- No beginning of a text closes more parentheses than it opens, and the text closes as many as it
opens. -/
def Paired (cs : List Char) : Prop :=
  (∀ front, front <+: cs → front.count ')' ≤ front.count '(') ∧ cs.count ')' = cs.count '('

/-! ## The depth of a text -/

/-- The number of parentheses open after some characters, `depth` of them being open before;
`none` if one of the characters closes a parenthesis that is not open. -/
def depthIn (depth : Nat) : List Char → Option Nat
  | [] => some depth
  | '(' :: rest => depthIn (depth + 1) rest
  | ')' :: rest => if depth = 0 then none else depthIn (depth - 1) rest
  | _ :: rest => depthIn depth rest

theorem depthIn_cons_of_ne {c : Char} (hl : c ≠ '(') (hr : c ≠ ')') (depth : Nat)
    (rest : List Char) : depthIn depth (c :: rest) = depthIn depth rest := by
  rw [depthIn]
  · exact hl
  · exact hr

theorem depthIn_append (xs ys : List Char) :
    ∀ depth, depthIn depth (xs ++ ys) = (depthIn depth xs).bind fun d => depthIn d ys := by
  induction xs with
  | nil => intro depth; rfl
  | cons c rest ih =>
      intro depth
      by_cases hl : c = '('
      · subst hl
        exact ih (depth + 1)
      by_cases hr : c = ')'
      · subst hr
        by_cases zero : depth = 0
        · simp [depthIn, zero]
        · simpa [depthIn, zero] using ih (depth - 1)
      · simp only [List.cons_append, depthIn_cons_of_ne hl hr, ih]

theorem depthIn_of_notMem {cs : List Char} (hl : '(' ∉ cs) (hr : ')' ∉ cs) (depth : Nat) :
    depthIn depth cs = some depth := by
  induction cs with
  | nil => rfl
  | cons c rest ih =>
      rw [List.mem_cons, not_or] at hl hr
      rw [depthIn_cons_of_ne (Ne.symm hl.1) (Ne.symm hr.1)]
      exact ih hl.2 hr.2

/-- There is a depth after some characters where none of them closes a parenthesis that is not
open, and the depth is what is left open. -/
theorem depthIn_eq_some_iff {cs : List Char} :
    ∀ {depth after : Nat}, depthIn depth cs = some after ↔
      (∀ front, front <+: cs → front.count ')' ≤ depth + front.count '(') ∧
        after + cs.count ')' = depth + cs.count '(' := by
  induction cs with
  | nil =>
      intro depth after
      simp [depthIn, eq_comm]
  | cons c rest ih =>
      intro depth after
      have fronts : ∀ {P : List Char → Prop}, (∀ front, front <+: c :: rest → P front) ↔
          P [] ∧ ∀ front, front <+: rest → P (c :: front) := by
        intro P
        simp only [List.prefix_cons_iff]
        constructor
        · exact fun all => ⟨all [] (.inl rfl), fun front h => all _ (.inr ⟨front, rfl, h⟩)⟩
        · rintro ⟨empty, longer⟩ _ (rfl | ⟨front, rfl, h⟩)
          · exact empty
          · exact longer front h
      rw [fronts]
      by_cases hl : c = '('
      · subst hl
        rw [depthIn, ih]
        simp [Nat.add_assoc, Nat.add_comm 1]
      by_cases hr : c = ')'
      · subst hr
        have opens : ∀ front : List Char, (')' :: front).count '(' = front.count '(' :=
          fun front => List.count_cons_of_ne (by decide)
        simp only [List.count_cons_self, opens]
        by_cases zero : depth = 0
        · subst zero
          refine iff_of_false nofun fun h => ?_
          have closed := h.1.2 [] List.nil_prefix
          exact absurd closed (by decide)
        · rw [depthIn, if_neg zero, ih]
          have first : [].count ')' ≤ depth + [].count '(' := Nat.zero_le _
          simp only [first, true_and]
          refine and_congr (forall₂_congr fun front _ => ?_) ?_
          · omega
          · omega
      · rw [depthIn_cons_of_ne hl hr, ih]
        simp [hl, hr]

theorem paired_iff {cs : List Char} : Paired cs ↔ depthIn 0 cs = some 0 := by
  simp [depthIn_eq_some_iff, Paired]

/-! ## The tokens of a text -/

namespace Lexer

theorem kind_token_ne {l : Lexeme} {kind : TokenKind} (before : List Token) (other : .deref ≠ kind)
    (h : l.kind ≠ kind) : (l.token before).kind ≠ kind := by
  simp only [Lexeme.token]
  split
  · exact other
  · exact h

/-- The tokens of some lexemes have the depth of their characters. -/
theorem depthAfter_tokensOf {ls : List Lexeme} (spells : ∀ l ∈ ls, l.kind.Spells l.chars) :
    ∀ before depth, depthAfter depth (tokensOf before ls) = depthIn depth (spelling ls) := by
  induction ls with
  | nil => intro before depth; rfl
  | cons l ls ih =>
      obtain ⟨here, later⟩ := List.forall_mem_cons.mp spells
      intro before depth
      have whole : spelling (l :: ls) = l.chars ++ spelling ls := List.flatMap_cons
      rw [whole, depthIn_append, tokensOf]
      by_cases hl : l.kind = .leftParen
      · have chars : l.chars = ['('] := by rw [hl] at here; exact here
        have kind : (l.token before).kind = .leftParen := by simp [Lexeme.token, hl]
        rw [chars]
        simp only [depthAfter, kind, ih later]
        rfl
      by_cases hr : l.kind = .rightParen
      · have chars : l.chars = [')'] := by rw [hr] at here; exact here
        have kind : (l.token before).kind = .rightParen := by simp [Lexeme.token, hr]
        rw [chars]
        by_cases zero : depth = 0
        · simp [depthAfter, depthIn, kind, zero]
        · simp only [depthAfter, depthIn, kind, zero, if_false, ih later, Option.bind_some]
      · have noLeft : '(' ∉ l.chars :=
          fun mem => hl (eq_leftParen_of_has (has_of_spells here _ mem))
        have noRight : ')' ∉ l.chars :=
          fun mem => hr (eq_rightParen_of_has (has_of_spells here _ mem))
        rw [depthIn_of_notMem noLeft noRight, Option.bind_some,
          ← ih later (before ++ [l.token before])]
        have kl := kind_token_ne before (fun h => by cases h) hl
        have kr := kind_token_ne before (fun h => by cases h) hr
        simp only [depthAfter]

theorem balanced_iff_paired {text : String} {tokens : List Token}
    (cut : tokenize text = .ok tokens) : Evaluation.Balanced tokens ↔ Paired text.toList := by
  obtain ⟨tokenized, -⟩ := @scan_iff text maxTokens none 0 text.toList [] rfl
  obtain ⟨ls, cuts, -, -, rfl⟩ := (tokenized tokens).mp cut
  have whole : spelling ls = text.toList := by
    rw [← cuts.spelling_append, List.append_nil]
  rw [Evaluation.Balanced, depthAfter_tokensOf (spells_of_cuts cuts), whole, paired_iff]

end Lexer

/-! ## Tokens that are balanced, and tokens that are not -/

namespace Evaluation

variable {m : Machine} {tokens span : List Token} {start : Nat}

theorem balanced_trimBlanks : Balanced (trimBlanks span) ↔ Balanced span := by
  rw [← balanced_significant, significant_trimBlanks, balanced_significant]

theorem exists_trimBlanks_of_several (several : 2 ≤ (significant span).length) :
    ∃ t u more, trimBlanks span = t :: u :: more := by
  have kept : (significant (trimBlanks span)).length ≤ (trimBlanks span).length :=
    List.length_filter_le _ _
  rw [significant_trimBlanks] at kept
  match trimmed : trimBlanks span with
  | [] | [_] =>
      rw [trimmed] at kept
      have few := Nat.le_trans several kept
      simp at few
  | t :: u :: more => exact ⟨t, u, more, rfl⟩

/-- A span that nothing encloses has no value where it has no pivot. -/
theorem evalSpan_of_pivot_error (m : Machine) {cause : ExpressionError}
    (several : 2 ≤ (significant span).length) (apart : ¬ enclosed (trimBlanks span) = true)
    (failed : pivot (start + leadingBlanks span) (trimBlanks span) = .error cause) :
    evalSpan m start span = .error cause := by
  obtain ⟨t, u, more, trimmed⟩ := exists_trimBlanks_of_several several
  rw [trimmed] at apart failed
  rw [evalSpan_several m start trimmed, if_neg apart, failed]

theorem balanced_of_enclosed (few : FewParens span) (h : enclosed span = true) :
    Balanced span := by
  obtain ⟨l, middle, r, rfl, hl, hr, balanced⟩ := (enclosed_iff few).mp h
  exact balanced.group hl hr

theorem Cut.balanced {left right : List Token} {t : Token} {op : Operator}
    (cut : Cut span left t op right) : Balanced span := by
  rw [cut.shape]
  exact (balanced_append_operator cut.operator cut.left_balanced).mpr cut.right_balanced

/-- The pivot of balanced tokens may be missing, but not for their parentheses. -/
theorem ne_unbalanced_of_pivot {cause : ExpressionError} (few : FewParens span)
    (balanced : Balanced span) (failed : pivot start span = .error cause) (i : Nat) :
    cause ≠ .unbalanced i := by
  rw [pivot_eq_parting few] at failed
  simp only [parting, unpaired?_eq_none.mpr balanced] at failed
  split at failed
  · cases failed
  · cases failed
    intro h
    cases h

theorem pivot_of_not_balanced (few : FewParens span) (unbalanced : ¬ Balanced span)
    (start : Nat) : ∃ i, pivot start span = .error (.unbalanced i) := by
  obtain ⟨i, found⟩ := Option.ne_none_iff_exists'.mp
    fun none => unbalanced ((@unpaired?_eq_none span start 0).mp none)
  exact ⟨i, by simp only [pivot_eq_parting few, parting, found]⟩

theorem ne_unbalanced_of_fails {cause : ExpressionError} (fails : Fails m start span cause)
    (i : Nat) : FewParens span → Balanced span → cause ≠ .unbalanced i := by
  induction fails with
  | empty | misplaced | missing => exact fun _ _ => nofun
  | operand _ failed =>
      obtain rfl | rfl | rfl := cause_of_operand failed <;> exact fun _ _ => nofun
  | pair shape _ _ balanced _ ih =>
      exact fun few _ => ih (few.trimmed shape).tail.front balanced
  | pivot failed =>
      intro few balanced
      exact ne_unbalanced_of_pivot (few.trimmed rfl) (balanced_trimBlanks.mpr balanced) failed i
  | address cut _ ih =>
      exact fun few _ => ih (few.trimmed cut.shape).tail cut.right_balanced
  | byte _ _ failed =>
      obtain rfl := cause_of_dereference failed
      exact fun _ _ => nofun
  | left cut _ _ ih => exact fun few _ => ih (few.trimmed cut.shape).front cut.left_balanced
  | right cut _ _ _ ih =>
      exact fun few _ => ih (few.trimmed cut.shape).back.tail cut.right_balanced
  | apply _ _ _ _ failed =>
      obtain ⟨-, -, rfl⟩ := cause_of_apply failed
      exact fun _ _ => nofun

end Evaluation

section Reached
variable {tokens span : List Token} {start : Nat}

theorem Reached.balanced (h : Reached tokens start span) (few : FewParens tokens)
    (balanced : Evaluation.Balanced tokens) : Evaluation.Balanced span := by
  induction h with
  | whole => exact balanced
  | @pair _ span middle l r reached shape closed _ =>
      obtain ⟨l', middle', r', shape', -, -, inside⟩ :=
        (enclosed_iff ((reached.fewParens few).trimmed rfl)).mp closed
      obtain ⟨-, same⟩ := List.cons.inj (shape.symm.trans shape')
      obtain ⟨rfl, -⟩ := List.append_inj' same rfl
      exact inside
  | address _ cut _ => exact cut.right_balanced
  | left _ cut _ => exact cut.left_balanced
  | right _ cut _ => exact cut.right_balanced

/-- Something in some tokens is worked out: in a span that evaluation goes into, a token stands
alone and is looked up, or an operator is applied. -/
def Evaluated (tokens : List Token) : Prop :=
  ∃ start span, Reached tokens start span ∧
    ((∃ t, trimBlanks span = [t]) ∨ ∃ left t op right, Cut (trimBlanks span) left t op right)

/-- Evaluation goes into no part of tokens that are not balanced. -/
theorem Reached.eq_whole (h : Reached tokens start span) (few : FewParens tokens)
    (unbalanced : ¬ Evaluation.Balanced tokens) : span = tokens := by
  have balanced_of_trimBlanks : ∀ {inner : List Token}, inner = tokens →
      Evaluation.Balanced (trimBlanks inner) → Evaluation.Balanced tokens := by
    rintro _ rfl
    exact balanced_trimBlanks.mp
  induction h with
  | whole => rfl
  | pair reached _ closed ih =>
      have paired := balanced_of_enclosed ((reached.fewParens few).trimmed rfl) closed
      exact absurd (balanced_of_trimBlanks ih paired) unbalanced
  | address _ cut ih => exact absurd (balanced_of_trimBlanks ih cut.balanced) unbalanced
  | left _ cut ih => exact absurd (balanced_of_trimBlanks ih cut.balanced) unbalanced
  | right _ cut ih => exact absurd (balanced_of_trimBlanks ih cut.balanced) unbalanced

theorem not_evaluated_of_not_balanced (few : FewParens tokens)
    (several : 2 ≤ (significant tokens).length) (unbalanced : ¬ Evaluation.Balanced tokens) : ¬ Evaluated tokens := by
  rintro ⟨start, span, reached, ⟨t, single⟩ | ⟨left, t, op, right, cut⟩⟩
  · obtain rfl := reached.eq_whole few unbalanced
    obtain ⟨_, _, _, more⟩ := exists_trimBlanks_of_several several
    cases single.symm.trans more
  · obtain rfl := reached.eq_whole few unbalanced
    exact unbalanced (balanced_trimBlanks.mp cut.balanced)

theorem evalTokens_of_not_balanced (few : FewParens tokens)
    (several : 2 ≤ (significant tokens).length) (unbalanced : ¬ Evaluation.Balanced tokens) :
    ∃ i, ∀ m, evalTokens m tokens = .error (.unbalanced i) := by
  have visible : ¬ tokens.all Token.isBlank = true := by
    intro blank
    rw [significant_eq_nil_iff.mpr blank] at several
    cases several
  obtain ⟨i, found⟩ := pivot_of_not_balanced (few.trimmed rfl)
    (mt balanced_trimBlanks.mp unbalanced)    (0 + leadingBlanks tokens)
  refine ⟨i, fun m => ?_⟩
  rw [evalTokens, if_neg visible]
  refine evalSpan_of_pivot_error m several (fun closed => unbalanced ?_) found
  exact balanced_trimBlanks.mp (balanced_of_enclosed (few.trimmed rfl) closed)

end Reached

/-- Parentheses that do not pair are what is wrong with a text of several tokens, and the first
thing wrong with it: nothing in it is worked out, and the answer is the same in every machine.  Of a
text whose parentheses pair, no part that evaluation goes into is refused for its parentheses. -/
theorem unbalanced_first {text : String} {tokens : List Token} (cut : tokenize text = .ok tokens)
    (several : 2 ≤ (significant tokens).length) :
    (∀ m, (∃ i, evaluate m text = .error (.unbalanced i)) ↔ ¬ Paired text.toList) ∧
      (¬ Paired text.toList →
        ¬ Evaluated tokens ∧ ∃ i, ∀ m, evaluate m text = .error (.unbalanced i)) ∧
      (Paired text.toList → ∀ start span, Reached tokens start span →
        ∀ m i, evalSpan m start span ≠ .error (.unbalanced i)) := by
  have same : ∀ m, evaluate m text = evalTokens m tokens := by
    intro m
    rw [evaluate, cut]
    rfl
  have pairs := balanced_iff_paired cut
  have few := fewParens_of_tokenize cut
  have parts : Balanced tokens → ∀ start span, Reached tokens start span →
      ∀ m i, evalSpan m start span ≠ .error (.unbalanced i) :=
    fun balanced start span reached m i failed =>
      have few' := reached.fewParens few
      ne_unbalanced_of_fails (fails_of_evalSpan few' failed) i few' (reached.balanced few balanced)
        rfl
  simp only [same, ← pairs]
  refine ⟨fun m => ⟨?_, fun unbalanced => ?_⟩, fun unbalanced => ⟨?_, ?_⟩, parts⟩
  · rintro ⟨i, failed⟩ balanced
    simp only [evalTokens] at failed
    split at failed
    · cases failed
    · exact parts balanced 0 tokens .whole m i failed
  · obtain ⟨i, refused⟩ := evalTokens_of_not_balanced few several unbalanced
    exact ⟨i, refused m⟩
  · exact not_evaluated_of_not_balanced few several unbalanced
  · exact evalTokens_of_not_balanced few several unbalanced

/-- As many parentheses close as open, in the wrong order, around a division by zero. -/
theorem unbalanced_first_quotient :
    let tokens : List Token := [⟨.rightParen, ")"⟩, ⟨.decimal, "1"⟩, ⟨.div, "/"⟩, ⟨.decimal, "0"⟩,
      ⟨.leftParen, "("⟩]
    tokenize ")1/0(" = .ok tokens ∧ 2 ≤ (significant tokens).length ∧ ¬ Paired ")1/0(".toList ∧
      ¬ Evaluated tokens ∧ ∃ i, ∀ m, evaluate m ")1/0(" = .error (.unbalanced i) := by
  intro tokens
  have cut : tokenize ")1/0(" = .ok tokens := by decide +kernel
  have several : 2 ≤ (significant tokens).length := by decide
  have unpaired : ¬ Paired ")1/0(".toList :=
    fun paired => absurd (paired.1 [')'] ⟨['1', '/', '0', '('], rfl⟩) (by decide)
  obtain ⟨-, refused, -⟩ := unbalanced_first cut several
  exact ⟨cut, several, unpaired, refused unpaired⟩

end HartMonitor
