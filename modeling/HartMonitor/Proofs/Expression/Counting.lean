/-
# `HartMonitor.Proofs.Expression.Counting` — counting parentheses in 32 bits

The scans of the evaluator count parentheses in 32 bits with a sign.  A count is never more than
the number of parentheses that were opened, so in tokens that open fewer than `2 ^ 31` of them
(`FewParens`) no count wraps around, and the scans find what there is:

    enclosed_eq_wrapped      counting how often all parentheses are closed tells whether the last
                             token closes the first one
    pivot_eq_parting         keeping the loosest operator so far tells where a span parts

With `2 ^ 31` of them the count of those that are open turns negative.  Then a pair around the whole
is missed, and what it encloses is taken to stand outside (`enclosed_nest`, `pivot_nest`).
-/
import HartMonitor.Proofs.Expression.Nesting
import Mathlib.Algebra.Group.Nat.Defs

namespace HartMonitor

theorem Operator.precedence_pos : ∀ op : Operator, 0 < op.precedence
  | deref => by decide
  | binary op => by cases op <;> decide

namespace Evaluation

variable {t : Token} {span part rest : List Token}

/-! ## Few parentheses -/

def openings (span : List Token) : Nat :=
  span.countP fun t => t.kind == .leftParen

/-- Some tokens open fewer parentheses than can be counted in 32 bits with a sign. -/
def FewParens (span : List Token) : Prop :=
  openings span < 2 ^ 31

theorem openings_cons_leftParen (h : t.kind = .leftParen) :
    openings (t :: rest) = openings rest + 1 :=
  List.countP_cons_of_pos (beq_iff_eq.mpr h)

theorem openings_cons_other (h : t.kind ≠ .leftParen) : openings (t :: rest) = openings rest :=
  List.countP_cons_of_neg (mt beq_iff_eq.mp h)

theorem FewParens.of_sublist (few : FewParens span) (within : part.Sublist span) :
    FewParens part :=
  Nat.lt_of_le_of_lt within.countP_le few

theorem FewParens.front (few : FewParens (span ++ rest)) : FewParens span :=
  few.of_sublist (List.sublist_append_left _ _)

theorem FewParens.back (few : FewParens (span ++ rest)) : FewParens rest :=
  few.of_sublist (List.sublist_append_right _ _)

theorem FewParens.tail (few : FewParens (t :: rest)) : FewParens rest :=
  few.of_sublist (List.sublist_cons_self _ _)

theorem FewParens.of_length_lt (short : span.length < 2 ^ 31) : FewParens span :=
  Nat.lt_of_le_of_lt List.countP_le_length short

/-! ## Counts -/

section Count
variable {n : Nat}

theorem count_succ (n : Nat) : Int32.ofNat n + 1 = Int32.ofNat (n + 1) :=
  (Int32.ofNat_add n 1).symm

theorem count_pred (n : Nat) : Int32.ofNat (n + 1) - 1 = Int32.ofNat n := by
  rw [← count_succ, Int32.add_sub_cancel]

theorem count_pos_iff (fits : n < 2 ^ 31) : 0 < Int32.ofNat n ↔ 0 < n :=
  Int32.ofNat_lt_iff_lt (by decide) fits

theorem count_not_neg (fits : n < 2 ^ 31) : ¬ Int32.ofNat n < 0 :=
  mt (Int32.ofNat_lt_iff_lt fits (by decide)).mp (Nat.not_lt_zero n)

theorem count_eq_iff {k : Nat} (fits : n < 2 ^ 31) (fits' : k < 2 ^ 31) :
    Int32.ofNat n = Int32.ofNat k ↔ n = k := by
  rw [← Int32.toInt_inj, Int32.toInt_ofNat_of_lt fits, Int32.toInt_ofNat_of_lt fits', Int.ofNat_inj]

theorem count_succ_ne_zero (fits : n + 1 < 2 ^ 31) : Int32.ofNat (n + 1) ≠ 0 :=
  mt (count_eq_iff fits (by decide : 0 < 2 ^ 31)).mp (Nat.succ_ne_zero n)

end Count

/-! ## A pair around a whole span -/

section Closing
variable {depth closings : Nat}

/-! One step of the count, by the kind of the token. -/

theorem closesOnce_leftParen (h : t.kind = .leftParen) (fits : depth + 1 < 2 ^ 31)
    (closings : Int32) :
    closesOnce (Int32.ofNat depth) closings (t :: rest) =
      closesOnce (Int32.ofNat (depth + 1)) closings rest := by
  have opened := beq_eq_false_iff_ne.mpr (count_succ_ne_zero fits)
  simp only [closesOnce, h, count_succ, count_not_neg fits, opened, Bool.and_false, if_false,
    Bool.false_eq_true]

theorem closesOnce_rightParen_zero (h : t.kind = .rightParen) (closings : Int32) :
    closesOnce (Int32.ofNat 0) closings (t :: rest) = false := by
  simp only [closesOnce, h]
  rfl

theorem closesOnce_rightParen_one (h : t.kind = .rightParen) :
    closesOnce (Int32.ofNat 1) (Int32.ofNat closings) (t :: rest) =
      closesOnce (Int32.ofNat 0) (Int32.ofNat (closings + 1)) rest := by
  simp only [closesOnce, h, count_succ]
  rfl

theorem closesOnce_rightParen_succ (h : t.kind = .rightParen) (fits : depth + 1 < 2 ^ 31)
    (closings : Int32) :
    closesOnce (Int32.ofNat (depth + 2)) closings (t :: rest) =
      closesOnce (Int32.ofNat (depth + 1)) closings rest := by
  have opened := beq_eq_false_iff_ne.mpr (count_succ_ne_zero fits)
  simp only [closesOnce, h, count_pred, count_not_neg fits, opened, Bool.and_false, if_false,
    Bool.false_eq_true]

theorem closesOnce_other (left : t.kind ≠ .leftParen) (right : t.kind ≠ .rightParen)
    (fits : depth < 2 ^ 31) (closings : Int32) :
    closesOnce (Int32.ofNat depth) closings (t :: rest) =
      closesOnce (Int32.ofNat depth) closings rest := by
  have still : (decide (0 < Int32.ofNat depth) && Int32.ofNat depth == 0) = false := by
    cases depth with
    | zero => rfl
    | succ n => rw [beq_eq_false_iff_ne.mpr (count_succ_ne_zero fits), Bool.and_false]
  simp only [closesOnce, count_not_neg fits, still, if_false, Bool.false_eq_true]

/-- What was closed, and is open again, is not closed once. -/
theorem closesOnce_again :
    ∀ {depth closings : Nat}, depth + closings + openings span < 2 ^ 31 → 1 ≤ closings →
      2 ≤ depth + closings → closesOnce (Int32.ofNat depth) (Int32.ofNat closings) span = false := by
  induction span with
  | nil =>
      intro depth closings fits _ again
      rw [closesOnce, Bool.and_eq_false_imp, beq_iff_eq, beq_eq_false_iff_ne]
      intro one zero
      have one := (count_eq_iff (by omega) (by decide : 1 < 2 ^ 31)).mp one
      have zero := (count_eq_iff (by omega) (by decide : 0 < 2 ^ 31)).mp zero
      omega
  | cons t rest ih =>
      intro depth closings fits closed again
      by_cases left : t.kind = .leftParen
      · rw [openings_cons_leftParen left] at fits
        rw [closesOnce_leftParen left (by omega)]
        exact ih (by omega) closed (by omega)
      rw [openings_cons_other left] at fits
      by_cases right : t.kind = .rightParen
      · obtain _ | _ | depth := depth
        · exact closesOnce_rightParen_zero right _
        · rw [Nat.zero_add, closesOnce_rightParen_one right]
          exact ih (by omega) (by omega) (by omega)
        · rw [closesOnce_rightParen_succ right (by omega)]
          exact ih (by omega) closed (by omega)
      · rw [closesOnce_other left right (by omega)]
        exact ih fits closed again

/-- The last of some tokens, if there are any, is a right parenthesis. -/
def EndsRight (span : List Token) : Prop :=
  ∀ t, span.getLast? = some t → t.kind = .rightParen

theorem EndsRight.tail (h : EndsRight (t :: rest)) : EndsRight rest := by
  intro u last
  refine h u ?_
  rw [List.getLast?_cons, last]
  rfl

theorem closesOnce_closed (nonempty : span ≠ []) (ends : EndsRight span)
    (fits : 1 + openings span < 2 ^ 31) :
    closesOnce (Int32.ofNat 0) (Int32.ofNat 1) span = false := by
  induction span with
  | nil => exact absurd rfl nonempty
  | cons t rest ih =>
      by_cases left : t.kind = .leftParen
      · rw [openings_cons_leftParen left] at fits
        rw [closesOnce_leftParen left (by omega)]
        exact closesOnce_again (by omega) (by omega) (by omega)
      rw [openings_cons_other left] at fits
      by_cases right : t.kind = .rightParen
      · exact closesOnce_rightParen_zero right _
      · rw [closesOnce_other left right (by omega)]
        refine ih (fun empty => right (ends t ?_)) ends.tail fits
        rw [empty]
        rfl

/-- Counting the closings is looking whether the last token closes the first one. -/
theorem closesOnce_eq_closesLast :
    ∀ {depth : Nat}, EndsRight span → depth + 1 + openings span < 2 ^ 31 →
      closesOnce (Int32.ofNat (depth + 1)) (Int32.ofNat 0) span = closesLast (depth + 1) span := by
  induction span with
  | nil => intro _ _ _; rfl
  | cons t rest ih =>
      intro depth ends fits
      by_cases left : t.kind = .leftParen
      · rw [openings_cons_leftParen left] at fits
        rw [closesOnce_leftParen left (by omega), ih ends.tail (by omega)]
        simp only [closesLast, left]
      rw [openings_cons_other left] at fits
      by_cases right : t.kind = .rightParen
      · cases depth with
        | zero =>
          rw [Nat.zero_add, closesOnce_rightParen_one right]
          simp only [closesLast, right]
          cases rest with
          | nil => rfl
          | cons u more =>
              rw [closesOnce_closed (List.cons_ne_nil _ _) ends.tail (by omega)]
              rfl
        | succ depth =>
          rw [closesOnce_rightParen_succ right (by omega), ih ends.tail (by omega)]
          simp only [closesLast, right]
          rw [if_neg (by omega), Nat.add_sub_cancel]
      · rw [closesOnce_other left right (by omega), ih ends.tail (by omega)]
        simp only [closesLast]

end Closing

/-- A pair encloses a span of few parentheses where its last token closes the first one. -/
theorem enclosed_eq_wrapped (few : FewParens span) : enclosed span = wrapped span := by
  cases span with
  | nil => rfl
  | cons t rest =>
      obtain ⟨u, last⟩ : ∃ u, (t :: rest).getLast? = some u := ⟨_, List.getLast?_cons⟩
      simp only [enclosed, List.head?_cons, last, wrapped]
      by_cases left : t.kind = .leftParen
      · rw [FewParens, openings_cons_leftParen left] at few
        by_cases right : u.kind = .rightParen
        · have ends : EndsRight (t :: rest) := by
            intro v same
            cases last.symm.trans same
            exact right
          have first : closesOnce 0 0 (t :: rest) = closesOnce (Int32.ofNat 1) (Int32.ofNat 0) rest :=
            @closesOnce_leftParen t rest 0 left (by decide) 0
          rw [left, right, first, closesOnce_eq_closesLast ends.tail (by omega)]
          rfl
        · have other : wrapped (t :: rest) = false := by
            refine Bool.eq_false_iff.mpr fun group => ?_
            obtain ⟨l, middle, r, same, -, closes, -⟩ := wrapped_iff.mp group
            rw [same, ← List.cons_append, List.getLast?_concat] at last
            cases last
            exact right closes
          rw [wrapped] at other
          rw [other, beq_eq_false_iff_ne.mpr right, Bool.and_false, Bool.false_and]
      · rw [beq_eq_false_iff_ne.mpr left, Bool.false_and, Bool.false_and, Bool.false_and]

/-- A pair encloses a span of few parentheses exactly where the span is a balanced one in
parentheses. -/
theorem enclosed_iff (few : FewParens span) :
    enclosed span = true ↔
      ∃ l middle r, span = l :: (middle ++ [r]) ∧ l.kind = .leftParen ∧ r.kind = .rightParen ∧
        Balanced middle := by
  rw [enclosed_eq_wrapped few]
  exact wrapped_iff

/-! ## The operator that cuts a span -/

/-- The operator at which a span parts, or why there is none, where a scan has come to `place` with
`span` left of it. -/
def outcome (start place depth : Nat) (found : Option (Nat × Operator)) (span : List Token) :
    Except ExpressionError (Nat × Operator) :=
  match unpaired? (start + place) depth span with
  | some position => .error (.unbalanced position)
  | none =>
    match loosest? (found.toList ++ outerOperators place depth span) with
    | some cut => .ok cut
    | none => .error (.noOperator start (start + place + span.length - 1))

section Steps
variable {start place depth : Nat} {found : Option (Nat × Operator)}

/-! One step of the scan, by the kind of the token, and what it leaves of the outcome. -/

theorem findPivot_leftParen (h : t.kind = .leftParen) :
    findPivot start place (Int32.ofNat depth) found (t :: rest) =
      findPivot start (place + 1) (Int32.ofNat (depth + 1)) found rest := by
  simp only [findPivot, h, count_succ]

theorem outcome_leftParen (h : t.kind = .leftParen) :
    outcome start place depth found (t :: rest) =
      outcome start (place + 1) (depth + 1) found rest := by
  simp only [outcome, unpaired?, outerOperators, h, List.length_cons, Nat.add_assoc,
    Nat.add_comm 1]

theorem findPivot_rightParen_zero (h : t.kind = .rightParen) :
    findPivot start place (Int32.ofNat 0) found (t :: rest) =
      .error (.unbalanced (start + place)) := by
  simp only [findPivot, h]
  exact if_pos (by decide)

theorem outcome_rightParen_zero (h : t.kind = .rightParen) :
    outcome start place 0 found (t :: rest) = .error (.unbalanced (start + place)) := by
  simp only [outcome, unpaired?, h, if_true]

theorem findPivot_rightParen_succ (h : t.kind = .rightParen) (fits : depth < 2 ^ 31) :
    findPivot start place (Int32.ofNat (depth + 1)) found (t :: rest) =
      findPivot start (place + 1) (Int32.ofNat depth) found rest := by
  simp only [findPivot, h, count_pred, count_not_neg fits, if_false]

theorem outcome_rightParen_succ (h : t.kind = .rightParen) :
    outcome start place (depth + 1) found (t :: rest) =
      outcome start (place + 1) depth found rest := by
  simp only [outcome, unpaired?, outerOperators, h, Nat.succ_ne_zero, if_false,
    Nat.add_sub_cancel, List.length_cons, Nat.add_assoc, Nat.add_comm 1]

/-! A token that is no parenthesis, and no operator outside of them, is passed over. -/

section Other
variable (left : t.kind ≠ .leftParen) (right : t.kind ≠ .rightParen)
  (other : depth = 0 → t.kind.operator? = none)
include left right other

theorem findPivot_other (fits : depth < 2 ^ 31) :
    findPivot start place (Int32.ofNat depth) found (t :: rest) =
      findPivot start (place + 1) (Int32.ofNat depth) found rest := by
  cases depth with
  | zero => simp only [findPivot, other rfl, ite_self]
  | succ depth =>
      have inside := (count_pos_iff fits).mpr (Nat.succ_pos depth)
      simp only [findPivot, inside, if_true]

theorem outcome_other :
    outcome start place depth found (t :: rest) =
      outcome start (place + 1) depth found rest := by
  cases depth with
  | zero =>
      simp only [outcome, unpaired?, outerOperators, other rfl, List.length_cons, Nat.add_assoc,
        Nat.add_comm 1]
  | succ depth =>
      simp only [outcome, unpaired?, outerOperators, List.length_cons, Nat.add_assoc,
        Nat.add_comm 1]

end Other

theorem loosest?_cons_cons (a b : Nat × Operator) (ops : List (Nat × Operator)) :
    loosest? (a :: b :: ops) =
      if a.2.precedence < b.2.precedence then loosest? (b :: ops) else loosest? (a :: ops) := by
  simp only [loosest?]
  cases loosest? ops with
  | none => rfl
  | some c =>
      dsimp only
      by_cases bc : b.2.precedence < c.2.precedence
      · by_cases ab : a.2.precedence < b.2.precedence
        · simp only [bc, ab, Nat.lt_trans ab bc, if_true]
        · simp only [bc, ab, if_true, if_false]
      · by_cases ab : a.2.precedence < b.2.precedence
        · simp only [bc, ab, if_true, if_false]
        · have ac : ¬ a.2.precedence < c.2.precedence := by omega
          simp only [bc, ab, ac, if_false]

theorem loosest?_looser (found : Option (Nat × Operator)) (next : Nat × Operator)
    (ops : List (Nat × Operator)) :
    loosest? (found.toList ++ next :: ops) = loosest? ((looser found next).toList ++ ops) := by
  cases found with
  | none =>
      have positive := Operator.precedence_pos next.2
      simp only [looser, Option.map_none, Option.getD_none, positive, if_true]
      rfl
  | some cut =>
      simp only [looser, Option.map_some, Option.getD_some, Option.toList_some,
        List.singleton_append, loosest?_cons_cons]
      split <;> rfl

section Operator
variable {op : Operator} (h : t.kind.operator? = some op)
include h

theorem findPivot_operator :
    findPivot start place (Int32.ofNat 0) found (t :: rest) =
      findPivot start (place + 1) (Int32.ofNat 0) (looser found (place, op)) rest := by
  have left := ne_leftParen_of_operator h
  have right := ne_rightParen_of_operator h
  simp only [findPivot, h]
  exact if_neg (by decide)

theorem outcome_operator :
    outcome start place 0 found (t :: rest) =
      outcome start (place + 1) 0 (looser found (place, op)) rest := by
  have left := ne_leftParen_of_operator h
  have right := ne_rightParen_of_operator h
  simp only [outcome, unpaired?, outerOperators, h, loosest?_looser, List.length_cons,
    Nat.add_assoc, Nat.add_comm 1]

end Operator

end Steps

/-- From any place on, the scan comes to its outcome. -/
theorem findPivot_eq_outcome {start : Nat} :
    ∀ {place depth : Nat} {found : Option (Nat × Operator)},
      depth + openings span < 2 ^ 31 →
      findPivot start place (Int32.ofNat depth) found span =
        outcome start place depth found span := by
  induction span with
  | nil =>
      intro place depth found fits
      simp only [findPivot]
      cases depth with
      | zero => cases found <;> rfl
      | succ depth =>
          rw [if_pos (count_succ_ne_zero (by omega))]
          rfl
  | cons t rest ih =>
      intro place depth found fits
      by_cases left : t.kind = .leftParen
      · rw [openings_cons_leftParen left] at fits
        rw [findPivot_leftParen left, outcome_leftParen left]
        exact ih (by omega)
      rw [openings_cons_other left] at fits
      by_cases right : t.kind = .rightParen
      · cases depth with
        | zero => rw [findPivot_rightParen_zero right, outcome_rightParen_zero right]
        | succ depth =>
            rw [findPivot_rightParen_succ right (by omega), outcome_rightParen_succ right]
            exact ih (by omega)
      by_cases other : depth = 0 → t.kind.operator? = none
      · rw [findPivot_other left right other (by omega), outcome_other left right other]
        exact ih fits
      · obtain ⟨rfl, some⟩ := Classical.not_imp.mp other
        obtain ⟨op, h⟩ := Option.ne_none_iff_exists'.mp some
        rw [findPivot_operator h, outcome_operator h]
        exact ih fits

/-- The pivot of a span of few parentheses is the operator at which it parts. -/
theorem pivot_eq_parting (few : FewParens span) (start : Nat) :
    pivot start span = parting start span := by
  have scanned := @findPivot_eq_outcome span start 0 0 none (by rwa [Nat.zero_add])
  exact scanned

/-- The pivot of a span of few parentheses is the operator outside parentheses that is looser than
every one before it and no tighter than those behind it; what it cuts apart is balanced. -/
theorem pivot_eq_ok_iff {start place : Nat} {op : Operator} (few : FewParens span) :
    pivot start span = .ok (place, op) ↔
      ∃ left t right, span = left ++ t :: right ∧ left.length = place ∧
        t.kind.operator? = some op ∧ Balanced left ∧ Balanced right ∧
        (∀ o ∈ outer 0 left, o.precedence < op.precedence) ∧
        ∀ o ∈ outer 0 right, o.precedence ≤ op.precedence := by
  rw [pivot_eq_parting few]
  exact parting_eq_ok_iff

/-! ## Too many parentheses -/

def nest (n : Nat) (t : Token) : List Token :=
  List.replicate n ⟨.leftParen, "("⟩ ++ t :: List.replicate n ⟨.rightParen, ")"⟩

theorem nest_succ (n : Nat) (t : Token) :
    nest (n + 1) t = ⟨.leftParen, "("⟩ :: (nest n t ++ [⟨.rightParen, ")"⟩]) := by
  simp only [nest, List.replicate_succ, List.cons_append, List.append_assoc, List.cons.injEq,
    List.append_cancel_left_eq, true_and]
  exact List.replicate_succ'.symm ▸ rfl

theorem forall_mem_nest {P : Token → Prop} (opening : P ⟨.leftParen, "("⟩) (middle : P t)
    (closing : P ⟨.rightParen, ")"⟩) (n : Nat) : ∀ u ∈ nest n t, P u := by
  induction n with
  | zero => exact List.forall_mem_singleton.mpr middle
  | succ n ih =>
      rw [nest_succ]
      refine List.forall_mem_cons.mpr ⟨opening, List.forall_mem_append.mpr ⟨ih, ?_⟩⟩
      exact List.forall_mem_singleton.mpr closing

theorem length_nest (n : Nat) (t : Token) : (nest n t).length = 2 * n + 1 := by
  rw [nest, List.length_append, List.length_cons, List.length_replicate, List.length_replicate]
  omega

theorem balanced_nest (left : t.kind ≠ .leftParen) (right : t.kind ≠ .rightParen) (n : Nat) :
    Balanced (nest n t) := by
  induction n with
  | zero => simp only [nest, List.replicate_zero, List.nil_append, Balanced, depthAfter]
  | succ n ih =>
      rw [nest_succ]
      exact ih.group rfl rfl

section Nest
variable {n depth start place : Nat}

theorem closesOnce_replicate (fits : depth + n < 2 ^ 31) (closings : Int32) :
    closesOnce (Int32.ofNat depth) closings (List.replicate n ⟨.leftParen, "("⟩ ++ rest) =
      closesOnce (Int32.ofNat (depth + n)) closings rest := by
  induction n generalizing depth with
  | zero => rfl
  | succ n ih =>
      rw [List.replicate_succ, List.cons_append, closesOnce_leftParen rfl (by omega),
        ih (by omega), Nat.add_right_comm, Nat.add_assoc]

theorem findPivot_replicate_leftParen (depth : Int32) :
    findPivot start place depth none (List.replicate n ⟨.leftParen, "("⟩ ++ rest) =
      findPivot start (place + n) (depth + Int32.ofNat n) none rest := by
  induction n generalizing place depth with
  | zero => exact congrArg (findPivot start place · none rest) (Int32.add_zero depth).symm
  | succ n ih =>
      rw [List.replicate_succ, List.cons_append, findPivot, ih, Int32.add_assoc, Int32.add_comm 1,
        count_succ, Nat.add_right_comm, Nat.add_assoc]

theorem findPivot_replicate_rightParen (fits : n < 2 ^ 31) :
    findPivot start place (Int32.ofNat n) none (List.replicate n ⟨.rightParen, ")"⟩) =
      .error (.noOperator start (start + (place + n) - 1)) := by
  induction n generalizing place with
  | zero => rfl
  | succ n ih =>
      simp only [List.replicate_succ, findPivot, count_pred]
      rw [if_neg (count_not_neg (by omega)), ih (by omega), Nat.add_right_comm, Nat.add_assoc]

/-- With one parenthesis too many the count turns negative, and the pair around the whole is
missed. -/
theorem enclosed_nest (many : n = 2 ^ 31) (t : Token) : enclosed (nest n t) = false := by
  obtain ⟨k, rfl⟩ : ∃ k, n = k + 1 := ⟨2 ^ 31 - 1, many⟩
  have last : (nest (k + 1) t).getLast? = some ⟨.rightParen, ")"⟩ := by
    rw [nest_succ, ← List.cons_append, List.getLast?_concat]
  have turned : Int32.ofNat (0 + k) + 1 < 0 := by
    rw [Nat.zero_add, count_succ, many]
    decide
  have head : (nest (k + 1) t).head? = some ⟨.leftParen, "("⟩ := by rw [nest_succ, List.head?_cons]
  have counted : closesOnce 0 0 (nest (k + 1) t) = false := by
    rw [nest, List.replicate_succ', List.append_assoc]
    have up := @closesOnce_replicate (⟨.leftParen, "("⟩ :: t :: List.replicate (k + 1)
      ⟨.rightParen, ")"⟩) k 0 (by omega) 0
    refine Eq.trans up ?_
    rw [closesOnce, if_pos turned]
  simp only [enclosed, head, last, counted, Bool.and_false]

/-- What that many parentheses enclose is taken to stand outside, and is no operator. -/
theorem pivot_nest (many : n = 2 ^ 31) (start : Nat) (left : t.kind ≠ .leftParen)
    (right : t.kind ≠ .rightParen) (other : t.kind.operator? = none) :
    pivot start (nest n t) = .error (.noOperator start (start + 2 * n)) := by
  obtain ⟨k, rfl⟩ : ∃ k, n = k + 1 := ⟨2 ^ 31 - 1, many⟩
  have turned : ¬ 0 < 0 + Int32.ofNat (k + 1) := by
    rw [many]
    decide
  have back : 0 + Int32.ofNat (k + 1) - 1 = Int32.ofNat k := by
    rw [Int32.zero_add, count_pred]
  rw [pivot, nest, findPivot_replicate_leftParen]
  simp only [findPivot, other, turned, if_false, List.replicate_succ, back]
  rw [if_neg (count_not_neg (by omega)), findPivot_replicate_rightParen (by omega)]
  congr 2
  omega

end Nest

end Evaluation

end HartMonitor
