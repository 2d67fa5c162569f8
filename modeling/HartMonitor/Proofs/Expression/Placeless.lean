/-
# `HartMonitor.Proofs.Expression.Placeless` — evaluation does not see blanks

Two spans with the same significant tokens have the same value, or fail for the same cause.
What blanks do change is where the tokens stand, and so the positions that some causes name
(`ExpressionError.placeless` leaves them out).

The evaluator looks at a span in three ways, and in each of them the significant tokens decide:

    enclosed_significant      whether a pair encloses it
    Cut.of_significant        where an operator cuts it
    pivot_of_significant      why no operator does

The rest is an induction on the number of significant tokens, the same in both spans.
-/
import HartMonitor.Proofs.Expression.Pairing

namespace HartMonitor

/-- A cause without the positions of tokens that it names. -/
def ExpressionError.placeless : ExpressionError → ExpressionError
  | missingOperand _ => missingOperand 0
  | unbalanced _ => unbalanced 0
  | noOperator _ _ => noOperator 0 0
  | misplacedUnary _ => misplacedUnary 0
  | cause => cause

/-- Two outcomes are the same but for the positions of tokens. -/
def SameButPlace (x y : Except ExpressionError Word) : Prop :=
  x.mapError ExpressionError.placeless = y.mapError ExpressionError.placeless

namespace SameButPlace

variable {x y : Except ExpressionError Word} {f g : Word → Except ExpressionError Word}

theorem of_error {cause cause' : ExpressionError} (h : cause.placeless = cause'.placeless) :
    SameButPlace (.error cause) (.error cause') :=
  congrArg Except.error h

theorem bind (h : SameButPlace x y) (hf : ∀ a, SameButPlace (f a) (g a)) :
    SameButPlace (x >>= f) (y >>= g) := by
  cases x with
  | error cause =>
      cases y with
      | error cause' => exact h
      | ok b => cases h
  | ok a =>
      cases y with
      | error cause' => cases h
      | ok b =>
          cases h
          exact hf a

end SameButPlace

namespace Evaluation

variable {m : Machine} {span : List Token} {start : Nat}

/-! ## The ways of looking at a span -/

theorem trimBlanks_eq_nil (hs : significant span = []) : trimBlanks span = [] := by
  match trimmed : trimBlanks span with
  | [] => rfl
  | t :: rest =>
      have visible : t.isBlank = false := not_isBlank_of_head?_trimBlanks (by rw [trimmed]; rfl)
      rw [← significant_trimBlanks, trimmed] at hs
      simp [significant, visible] at hs

theorem enclosed_significant (few : FewParens span) :
    enclosed (significant span) = true ↔ enclosed (trimBlanks span) = true := by
  rw [enclosed_iff (fewParens_significant.mpr few), enclosed_iff (few.trimmed rfl)]
  constructor
  · rintro ⟨l, middle, r, shape, hl, hr, balanced⟩
    obtain ⟨middle', trimmed, rfl⟩ := trimBlanks_eq_group shape
    exact ⟨l, middle', r, trimmed, hl, hr, balanced_significant.mp balanced⟩
  · rintro ⟨l, middle, r, trimmed, hl, hr, balanced⟩
    have visible : ∀ {t : Token} {kind : TokenKind}, t.kind = kind → kind ≠ .blank →
        t.kind ≠ .blank := by
      rintro _ _ rfl
      exact id
    refine ⟨l, significant middle, r, ?_, hl, hr, balanced_significant.mpr balanced⟩
    rw [← significant_trimBlanks, trimmed, significant_cons_of_ne_blank (visible hl nofun),
      significant_append, significant_cons_of_ne_blank (visible hr nofun)]
    rfl

/-- Where the significant tokens are cut, the span is cut. -/
theorem Cut.of_significant {left right : List Token} {t : Token} {op : Operator}
    (cut : Cut (significant span) left t op right) :
    ∃ left' right', Cut (trimBlanks span) left' t op right' ∧ significant left' = left ∧
      significant right' = right := by
  obtain ⟨shape, operator, balanced, balanced', looser, noTighter⟩ := cut
  obtain ⟨left', right', trimmed, rfl, rfl⟩ := trimBlanks_eq_append shape
  rw [outer_significant] at looser noTighter
  exact ⟨left', right', ⟨trimmed, operator, balanced_significant.mp balanced,
    balanced_significant.mp balanced', looser, noTighter⟩, rfl, rfl⟩

theorem Cut.left_eq_nil {left right : List Token} {t : Token} {op : Operator}
    (cut : Cut (trimBlanks span) left t op right) (blank : significant left = []) : left = [] := by
  cases left with
  | nil => rfl
  | cons u more =>
      have visible : u.isBlank = false :=
        not_isBlank_of_head?_trimBlanks (by rw [cut.shape]; rfl)
      simp [significant, visible] at blank

/-- Where the significant tokens have no pivot, the span has none, for the same cause. -/
theorem pivot_of_significant {cause : ExpressionError} {place : Nat} (few : FewParens span)
    (failed : pivot place (significant span) = .error cause) (start : Nat) :
    ∃ cause', pivot start (trimBlanks span) = .error cause' ∧
      cause'.placeless = cause.placeless := by
  have same : Balanced (trimBlanks span) ↔ Balanced (significant span) :=
    balanced_trimBlanks.trans balanced_significant.symm
  have few' := fewParens_significant.mpr few
  by_cases balanced : Balanced (significant span)
  · have bare : ∀ inner : List Token, loosest? (outerOperators 0 0 inner) = none ↔
        outer 0 inner = [] := by
      intro inner
      rw [loosest?_eq_none, outer, List.map_eq_nil_iff]
    have outside : outer 0 (trimBlanks span) = outer 0 (significant span) := by
      rw [← outer_significant, significant_trimBlanks]
    rw [pivot_eq_parting few'] at failed
    rw [pivot_eq_parting (few.trimmed rfl)]
    simp only [parting, unpaired?_eq_none.mpr balanced] at failed
    simp only [parting, unpaired?_eq_none.mpr (same.mpr balanced)]
    split at failed
    · cases failed
    · next none =>
      cases failed
      rw [bare, ← outside, ← bare] at none
      rw [none]
      exact ⟨_, rfl, rfl⟩
  · obtain ⟨i, found⟩ := pivot_of_not_balanced few' balanced place
    obtain ⟨i', found'⟩ := pivot_of_not_balanced (few.trimmed rfl) (mt same.mp balanced) start
    cases found.symm.trans failed
    exact ⟨_, found', rfl⟩

/-! ## What a cut comes to -/

section Cut
variable {left right : List Token} {t : Token} (few : FewParens span)
include few

theorem evalSpan_of_deref (m : Machine) (start : Nat)
    (cut : Cut (trimBlanks span) [] t .deref right) (some : right ≠ []) :
    evalSpan m start span =
      evalSpan m (start + leadingBlanks span + 1) right >>= dereference m := by
  have found := cut.pivot_eq (few.trimmed rfl) (start + leadingBlanks span)
  have shape : trimBlanks span = t :: right := cut.shape
  rw [shape] at found
  exact evalSpan_deref m start few shape some found

theorem evalSpan_of_misplaced (m : Machine) (start : Nat)
    (cut : Cut (trimBlanks span) left t .deref right) (some : left ≠ []) :
    evalSpan m start span =
      .error (.misplacedUnary (start + leadingBlanks span + left.length)) := by
  have found := cut.pivot_eq (few.trimmed rfl) (start + leadingBlanks span)
  obtain ⟨x, rest, rfl⟩ := List.exists_cons_of_ne_nil some
  obtain ⟨y, more, tail⟩ : ∃ y more, rest ++ t :: right = y :: more :=
    List.exists_cons_of_ne_nil (by simp)
  have shape := cut.shape
  rw [List.cons_append, tail] at shape
  rw [shape] at found
  rw [evalSpan_several m start shape, if_neg (enclosed_of_pivot (few.trimmed shape) found), found]
  rfl

theorem evalSpan_of_missing (m : Machine) (start : Nat) {op : BinaryOp}
    (cut : Cut (trimBlanks span) [] t (.binary op) right) (some : right ≠ []) :
    evalSpan m start span = .error (.missingOperand (start + leadingBlanks span)) := by
  have found := cut.pivot_eq (few.trimmed rfl) (start + leadingBlanks span)
  obtain ⟨y, more, rfl⟩ := List.exists_cons_of_ne_nil some
  have shape : trimBlanks span = t :: y :: more := cut.shape
  rw [shape] at found
  rw [evalSpan_several m start shape, if_neg (enclosed_of_pivot (few.trimmed shape) found), found]
  rfl

theorem evalSpan_of_binary (m : Machine) (start : Nat) {op : BinaryOp}
    (cut : Cut (trimBlanks span) left t (.binary op) right) (some : left ≠ []) :
    evalSpan m start span = (do
      let a ← evalSpan m (start + leadingBlanks span) left
      let b ← evalSpan m (start + leadingBlanks span + left.length + 1) right
      op.apply a b) := by
  have found := cut.pivot_eq (few.trimmed rfl) (start + leadingBlanks span)
  have shape := cut.shape
  rw [shape] at found
  exact evalSpan_binary m start few shape some found

end Cut

/-! ## The value of the significant tokens -/

/-- All spans with these significant tokens have the same value, or fail for the same cause. -/
def Settled (m : Machine) (ts : List Token) : Prop :=
  ∀ {part part' : List Token} (start start' : Nat), significant part = ts →
    significant part' = ts → SameButPlace (evalSpan m start part) (evalSpan m start' part')

/-- Several significant tokens that are cut are settled where the two sides are. -/
theorem settled_of_cut {ts left right : List Token} {t : Token} {op : Operator}
    (few : FewParens ts) (cut : Cut ts left t op right) (several : 2 ≤ ts.length)
    (settled : Settled m left) (settled' : Settled m right) : Settled m ts := by
  rintro span span' start start' rfl same
  have few₁ : FewParens span := fewParens_significant.mp few
  have few₂ : FewParens span' := fewParens_significant.mp (by rwa [same])
  have whole := congrArg List.length cut.shape
  rw [List.length_append, List.length_cons] at whole
  have cut' : Cut (significant span') left t op right := by rwa [same]
  obtain ⟨left₁, right₁, cut₁, hl₁, hr₁⟩ := cut.of_significant
  obtain ⟨left₂, right₂, cut₂, hl₂, hr₂⟩ := cut'.of_significant
  by_cases bare : left = []
  · -- nothing is to the left, so that something is to the right
    subst bare
    have some : right ≠ [] := by
      rintro rfl
      rw [whole] at several
      exact absurd several (by decide)
    obtain rfl := cut₁.left_eq_nil hl₁
    obtain rfl := cut₂.left_eq_nil hl₂
    have some₁ : right₁ ≠ [] := ne_nil_of_significant (by rwa [hr₁])
    have some₂ : right₂ ≠ [] := ne_nil_of_significant (by rwa [hr₂])
    cases op with
    | deref =>
        rw [evalSpan_of_deref few₁ m start cut₁ some₁, evalSpan_of_deref few₂ m start' cut₂ some₂]
        exact (settled' _ _ hr₁ hr₂).bind fun addr => rfl
    | binary op =>
        rw [evalSpan_of_missing few₁ m start cut₁ some₁, evalSpan_of_missing few₂ m start' cut₂ some₂]
        exact .of_error rfl
  · have some₁ : left₁ ≠ [] := ne_nil_of_significant (by rwa [hl₁])
    have some₂ : left₂ ≠ [] := ne_nil_of_significant (by rwa [hl₂])
    cases op with
    | deref =>
        rw [evalSpan_of_misplaced few₁ m start cut₁ some₁, evalSpan_of_misplaced few₂ m start' cut₂ some₂]
        exact .of_error rfl
    | binary op =>
        rw [evalSpan_of_binary few₁ m start cut₁ some₁, evalSpan_of_binary few₂ m start' cut₂ some₂]
        exact (settled _ _ hl₁ hl₂).bind fun a => (settled' _ _ hr₁ hr₂).bind fun b => rfl

/-- Significant tokens settle the value of a span, or the cause for which it fails. -/
theorem settled (m : Machine) {ts : List Token} (few : FewParens ts) : Settled m ts := by
  induction hn : ts.length using Nat.strong_induction_on generalizing ts with
  | _ n ih =>
      subst hn
      intro span span' start start' hs hs'
      have few₁ : FewParens span := fewParens_significant.mp (by rwa [hs])
      have few₂ : FewParens span' := fewParens_significant.mp (by rwa [hs'])
      match ts with
      | [] =>
          rw [evalSpan_nil m start (trimBlanks_eq_nil hs),
            evalSpan_nil m start' (trimBlanks_eq_nil hs')]
          exact .of_error rfl
      | [t] =>
          rw [evalSpan_singleton m start (trimBlanks_eq_singleton hs),
            evalSpan_singleton m start' (trimBlanks_eq_singleton hs')]
          rfl
      | t :: u :: more =>
          have several : 2 ≤ (t :: u :: more).length := by simp
          generalize t :: u :: more = ts at *
          by_cases closed : enclosed ts = true
          · obtain ⟨l, inner, r, rfl, hl, hr, balanced⟩ := (enclosed_iff few).mp closed
            obtain ⟨middle, trimmed, rfl⟩ := trimBlanks_eq_group hs
            obtain ⟨middle', trimmed', inside⟩ := trimBlanks_eq_group hs'
            have balanced' : Balanced (significant middle') := by rwa [inside]
            rw [evalSpan_group m start few₁ trimmed hl hr (balanced_significant.mp balanced),
              evalSpan_group m start' few₂ trimmed' hl hr (balanced_significant.mp balanced')]
            refine ih _ ?_ few.tail.front rfl _ _ rfl inside
            simp only [List.length_cons, List.length_append]
            omega
          cases found : pivot 0 ts with
          | error cause =>
              subst hs
              obtain ⟨cause₁, found₁, same₁⟩ :=
                pivot_of_significant few₁ found (start + leadingBlanks span)
              rw [← hs'] at found
              obtain ⟨cause₂, found₂, same₂⟩ :=
                pivot_of_significant few₂ found (start' + leadingBlanks span')
              rw [evalSpan_of_pivot_error m several (mt (enclosed_significant few₁).mpr closed) found₁]
              rw [← hs'] at several closed
              rw [evalSpan_of_pivot_error m several (mt (enclosed_significant few₂).mpr closed) found₂]
              exact .of_error (same₁.trans same₂.symm)
          | ok pair =>
              obtain ⟨left, t, right, cut, -⟩ := exists_cut few found
              have whole := congrArg List.length cut.shape
              rw [List.length_append, List.length_cons] at whole
              have parts := cut.shape ▸ few
              refine settled_of_cut few cut several ?_ ?_ start start' hs hs'
              · exact ih _ (by omega) parts.front rfl
              · exact ih _ (by omega) parts.back.tail rfl

/-- Lists of tokens with the same significant tokens have the same value, or fail for the same
cause. -/
theorem evalTokens_sameButPlace (m : Machine) {tokens tokens' : List Token}
    (few : FewParens tokens') (same : significant tokens = significant tokens') :
    SameButPlace (evalTokens m tokens) (evalTokens m tokens') := by
  by_cases blank : significant tokens = []
  · have blank' : significant tokens' = [] := same.symm.trans blank
    rw [evalTokens, evalTokens, if_pos (significant_eq_nil_iff.mp blank),
      if_pos (significant_eq_nil_iff.mp blank')]
    rfl
  · have some : significant tokens' ≠ [] := same ▸ blank
    rw [evalTokens, evalTokens, if_neg (mt significant_eq_nil_iff.mpr blank),
      if_neg (mt significant_eq_nil_iff.mpr some)]
    exact settled m (fewParens_significant.mpr few) 0 0 same rfl

end Evaluation

end HartMonitor
