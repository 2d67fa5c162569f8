/-
# `HartMonitor.Proofs.Expression.Failing` — the ways in which a span fails

A span that has no value has none for a reason of its own, or because a part of it has none
that was asked for its value before (`Fails`):

    of its own     empty, an operand, the pivot, a byte, an operator at the wrong place,
                   what an operator makes of two values
    of a part      inside a pair, the address of a dereference, the left side of an
                   operator, the right side of one whose left side has a value

Whatever is to be shown of the errors of evaluation is shown for one way after the other, by
induction on `Fails`, and `fails_of_evalSpan` is the only place where the evaluator is taken
apart.
-/
import HartMonitor.Proofs.Expression.Agreement

namespace HartMonitor.Evaluation

/-- Some tokens are cut at an operator outside parentheses, looser than every one to its left and
no tighter than those to its right. -/
structure Cut (inner left : List Token) (t : Token) (op : Operator) (right : List Token) :
    Prop where
  shape : inner = left ++ t :: right
  operator : t.kind.operator? = some op
  left_balanced : Balanced left
  right_balanced : Balanced right
  looser : ∀ o ∈ outer 0 left, o.precedence < op.precedence
  noTighter : ∀ o ∈ outer 0 right, o.precedence ≤ op.precedence

theorem exists_cut {start place : Nat} {inner : List Token} {op : Operator}
    (few : FewParens inner) (h : pivot start inner = .ok (place, op)) :
    ∃ left t right, Cut inner left t op right ∧ left.length = place := by
  obtain ⟨left, t, right, shape, length, operator, hl, hr, looser, noTighter⟩ :=
    (pivot_eq_ok_iff few).mp h
  exact ⟨left, t, right, ⟨shape, operator, hl, hr, looser, noTighter⟩, length⟩

theorem Cut.pivot_eq {inner left right : List Token} {t : Token} {op : Operator}
    (cut : Cut inner left t op right) (few : FewParens inner) (start : Nat) :
    pivot start inner = .ok (left.length, op) :=
  (pivot_eq_ok_iff few).mpr ⟨left, t, right, cut.shape, rfl, cut.operator, cut.left_balanced,
    cut.right_balanced, cut.looser, cut.noTighter⟩

/-- `Fails m start span cause`: the span, whose first token has the position `start`, fails for a
reason of its own or of a part. -/
inductive Fails (m : Machine) : Nat → List Token → ExpressionError → Prop
  | empty {start : Nat} {span : List Token} : trimBlanks span = [] →
      Fails m start span (.missingOperand (start + span.length))
  | operand {start : Nat} {span : List Token} {t : Token} {cause : ExpressionError} :
      trimBlanks span = [t] → operand m t = .error cause → Fails m start span cause
  | pair {start : Nat} {span middle : List Token} {l r : Token} {cause : ExpressionError} :
      trimBlanks span = l :: (middle ++ [r]) → l.kind = .leftParen → r.kind = .rightParen →
      Balanced middle → Fails m (start + leadingBlanks span + 1) middle cause →
      Fails m start span cause
  | pivot {start : Nat} {span : List Token} {cause : ExpressionError} :
      pivot (start + leadingBlanks span) (trimBlanks span) = .error cause →
      Fails m start span cause
  | address {start : Nat} {span rest : List Token} {t : Token} {cause : ExpressionError} :
      Cut (trimBlanks span) [] t .deref rest →
      Fails m (start + leadingBlanks span + 1) rest cause → Fails m start span cause
  | byte {start : Nat} {span rest : List Token} {t : Token} {addr : Word}
      {cause : ExpressionError} :
      Cut (trimBlanks span) [] t .deref rest →
      evalSpan m (start + leadingBlanks span + 1) rest = .ok addr →
      dereference m addr = .error cause → Fails m start span cause
  | misplaced {start : Nat} {span left right : List Token} {t : Token} :
      Cut (trimBlanks span) left t .deref right → left ≠ [] →
      Fails m start span (.misplacedUnary (start + leadingBlanks span + left.length))
  | missing {start : Nat} {span right : List Token} {t : Token} {op : BinaryOp} :
      Cut (trimBlanks span) [] t (.binary op) right →
      Fails m start span (.missingOperand (start + leadingBlanks span))
  | left {start : Nat} {span left right : List Token} {t : Token} {op : BinaryOp}
      {cause : ExpressionError} :
      Cut (trimBlanks span) left t (.binary op) right → left ≠ [] →
      Fails m (start + leadingBlanks span) left cause → Fails m start span cause
  | right {start : Nat} {span left right : List Token} {t : Token} {op : BinaryOp} {a : Word}
      {cause : ExpressionError} :
      Cut (trimBlanks span) left t (.binary op) right → left ≠ [] →
      evalSpan m (start + leadingBlanks span) left = .ok a →
      Fails m (start + leadingBlanks span + left.length + 1) right cause →
      Fails m start span cause
  | apply {start : Nat} {span left right : List Token} {t : Token} {op : BinaryOp} {a b : Word}
      {cause : ExpressionError} :
      Cut (trimBlanks span) left t (.binary op) right → left ≠ [] →
      evalSpan m (start + leadingBlanks span) left = .ok a →
      evalSpan m (start + leadingBlanks span + left.length + 1) right = .ok b →
      op.apply a b = .error cause → Fails m start span cause

/-- A span that has no value fails in one of these ways. -/
theorem fails_of_evalSpan {m : Machine} {start : Nat} {span : List Token}
    {cause : ExpressionError} : FewParens span →
    evalSpan m start span = .error cause → Fails m start span cause := by
  fun_induction evalSpan m start span with
  | case1 start span trimmed => intro _ h; cases h; exact .empty trimmed
  | case2 start span t trimmed => intro _ h; exact .operand trimmed h
  | case3 start span t u more trimmed first inner closed ih =>
      intro few h
      have few : FewParens inner := few.trimmed trimmed
      obtain ⟨l, middle, r, shape, hl, hr, balanced⟩ := (enclosed_iff few).mp closed
      obtain ⟨rfl, tail⟩ := List.cons.inj shape
      rw [tail, List.dropLast_concat] at h ih
      rw [shape] at few
      exact .pair (trimmed.trans shape) hl hr balanced (ih few.tail.front h)
  | case4 start span t u more trimmed first inner _ e cut =>
      intro _ h
      cases h
      exact .pivot (by rw [trimmed]; exact cut)
  | case5 start span t u more trimmed first inner _ found ih =>
      intro few h
      have few : FewParens inner := few.trimmed trimmed
      obtain ⟨left, t', right, cut, none⟩ := exists_cut few found
      obtain rfl := List.length_eq_zero_iff.mp none
      obtain ⟨rfl, rfl⟩ := List.cons.inj cut.shape
      have cut : Cut (trimBlanks span) [] t .deref (u :: more) := by rw [trimmed]; exact cut
      obtain failed | ⟨addr, valued, failed⟩ := cases_of_bind_eq_error h
      · exact .address cut (ih few.tail failed)
      · exact .byte cut valued failed
  | case6 start span t u more trimmed first inner _ place found some =>
      intro few h
      cases h
      have few : FewParens inner := few.trimmed trimmed
      obtain ⟨left, t', right, cut, rfl⟩ := exists_cut few found
      exact .misplaced (by rw [trimmed]; exact cut) (mt List.length_eq_zero_iff.mpr some)
  | case7 start span t u more trimmed first inner _ op found =>
      intro few h
      cases h
      have few : FewParens inner := few.trimmed trimmed
      obtain ⟨left, t', right, cut, none⟩ := exists_cut few found
      obtain rfl := List.length_eq_zero_iff.mp none
      exact .missing (by rw [trimmed]; exact cut)
  | case8 start span t u more trimmed first inner _ place op found some ihl ihr =>
      intro few h
      have few : FewParens inner := few.trimmed trimmed
      obtain ⟨left, t', right, cut, rfl⟩ := exists_cut few found
      have nonempty : left ≠ [] := mt List.length_eq_zero_iff.mpr some
      have front : inner.take left.length = left := by rw [cut.shape, List.take_left]
      have back : inner.drop (left.length + 1) = right := by
        rw [cut.shape, ← List.drop_drop, List.drop_left]
        rfl
      rw [front, back] at h
      rw [front] at ihl
      rw [back] at ihr
      rw [cut.shape] at few
      have cut : Cut (trimBlanks span) left t' (.binary op) right := by rw [trimmed]; exact cut
      obtain failed | ⟨a, valued, h⟩ := cases_of_bind_eq_error h
      · exact .left cut nonempty (ihl few.front failed)
      · obtain failed | ⟨b, valued', failed⟩ := cases_of_bind_eq_error h
        · exact .right cut nonempty valued (ihr few.back.tail failed)
        · exact .apply cut nonempty valued valued' failed

/-! ## The reasons of a span itself -/

section Causes
variable {m : Machine} {cause : ExpressionError}

theorem cause_of_operand {t : Token} (h : operand m t = .error cause) :
    cause = .badOperand t.text ∨ cause = .invalidLiteral t.text ∨
      cause = .unknownRegister t.text := by
  have literal : ∀ {base : Nat} {digits : List Char},
      literal base t.text digits = .error cause → cause = .invalidLiteral t.text := by
    intro base digits h
    simp only [Evaluation.literal] at h
    split at h <;> cases h
    rfl
  simp only [operand] at h
  split at h
  · exact .inr (.inl (literal h))
  · exact .inr (.inl (literal h))
  · simp only [registerValue] at h
    split at h
    · cases h
    · split at h <;> cases h
      exact .inr (.inr rfl)
  · cases h
    exact .inl rfl

theorem cause_of_findPivot {start : Nat} {inner : List Token} :
    ∀ {place : Nat} {depth : Int32} {found : Option (Nat × Operator)},
      findPivot start place depth found inner = .error cause →
      (∃ i, cause = .unbalanced i) ∨ ∃ first last, cause = .noOperator first last := by
  induction inner with
  | nil =>
      intro place depth found h
      simp only [findPivot] at h
      split at h
      · cases h
        exact .inl ⟨_, rfl⟩
      · split at h <;> cases h
        exact .inr ⟨_, _, rfl⟩
  | cons t rest ih =>
      intro place depth found h
      simp only [findPivot] at h
      split at h
      · exact ih h
      · split at h
        · cases h
          exact .inl ⟨_, rfl⟩
        · exact ih h
      · split at h
        · exact ih h
        · split at h <;> exact ih h

theorem cause_of_pivot {start : Nat} {inner : List Token} (h : pivot start inner = .error cause) :
    (∃ i, cause = .unbalanced i) ∨ ∃ first last, cause = .noOperator first last :=
  cause_of_findPivot h

theorem cause_of_dereference {addr : Word} (h : dereference m addr = .error cause) :
    cause = .outsideWindow addr := by
  simp only [dereference] at h
  split at h
  · split at h <;> cases h
    rfl
  · cases h
    rfl

theorem cause_of_apply {op : BinaryOp} {a b : Word} (h : op.apply a b = .error cause) :
    op = .div ∧ b = 0 ∧ cause = .divisionByZero := by
  cases op with
  | div =>
      simp only [BinaryOp.apply] at h
      split at h
      · next zero => cases h; exact ⟨rfl, zero, rfl⟩
      · cases h
  | add | sub | mul | and | or | eq | neq => cases h

end Causes

end HartMonitor.Evaluation
