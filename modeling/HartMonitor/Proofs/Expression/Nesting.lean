/-
# `HartMonitor.Proofs.Expression.Nesting` — parentheses and the operators outside them

What a span is cut into goes by the depth of its parentheses, `depthAfter`, a number that can
grow without end.  Three questions are asked about them, and each is answered here by what
there is in the span:

    unpaired?_eq_none      no position fails to pair     the depth comes back to zero
    wrapped_iff            a pair is around it all       `( … )` with a balanced middle
    parting_eq_ok_iff      it parts at an operator       balanced sides, looser than every
                                                         operator before it, no tighter than
                                                         those after it

The last one is what an evaluator that never builds a tree knows about the tree.  That its
scans, which count in 32 bits, find the same is another matter (`Proofs.Expression.Counting`).
-/
import HartMonitor.Expression.Evaluation

namespace HartMonitor.Evaluation

/-! ## The depth -/

/-- The number of parentheses open after some tokens, `depth` of them being open before;
`none` if one of the tokens closes a parenthesis that is not open. -/
def depthAfter (depth : Nat) : List Token → Option Nat
  | [] => some depth
  | t :: rest =>
    match t.kind with
    | .leftParen => depthAfter (depth + 1) rest
    | .rightParen => if depth = 0 then none else depthAfter (depth - 1) rest
    | _ => depthAfter depth rest

/-- Every parenthesis of a span has its partner in it. -/
def Balanced (span : List Token) : Prop :=
  depthAfter 0 span = some 0

theorem depthAfter_append (depth : Nat) (xs ys : List Token) :
    depthAfter depth (xs ++ ys) = (depthAfter depth xs).bind fun d => depthAfter d ys := by
  induction xs generalizing depth with
  | nil => rfl
  | cons t rest ih =>
      simp only [List.cons_append, depthAfter]
      split
      · exact ih _
      · split
        · rfl
        · exact ih _
      · exact ih _

/-- A span that leads from one depth to another does so under any number of further
parentheses. -/
theorem depthAfter_add (k : Nat) {span : List Token} :
    ∀ {depth after : Nat}, depthAfter depth span = some after →
      depthAfter (depth + k) span = some (after + k) := by
  induction span with
  | nil =>
      intro depth after h
      simp only [depthAfter, Option.some.injEq] at h ⊢
      omega
  | cons t rest ih =>
      intro depth after h
      simp only [depthAfter] at h ⊢
      split at h
      · have := ih h
        rwa [show depth + 1 + k = depth + k + 1 by omega] at this
      · split at h
        · cases h
        · next hd =>
          have := ih h
          rw [if_neg (by omega : ¬ depth + k = 0)]
          rwa [show depth - 1 + k = depth + k - 1 by omega] at this
      · exact ih h

theorem Balanced.group {middle : List Token} {l r : Token} (h : Balanced middle)
    (hl : l.kind = .leftParen) (hr : r.kind = .rightParen) :
    Balanced (l :: (middle ++ [r])) := by
  have inside : depthAfter 1 middle = some 1 := depthAfter_add 1 h
  simp only [Balanced, depthAfter, hl, depthAfter_append, inside, Option.bind_some, hr,
    Nat.zero_add, Nat.sub_self, Nat.one_ne_zero, if_false]

/-- The position at which parentheses fail to pair: that of the first one that closes nothing, or
of the last token where one stays open. -/
def unpaired? (position depth : Nat) : List Token → Option Nat
  | [] => if depth = 0 then none else some (position - 1)
  | t :: rest =>
    match t.kind with
    | .leftParen => unpaired? (position + 1) (depth + 1) rest
    | .rightParen => if depth = 0 then some position else unpaired? (position + 1) (depth - 1) rest
    | _ => unpaired? (position + 1) depth rest

/-- No position fails to pair exactly where the depth comes back to zero. -/
theorem unpaired?_eq_none {span : List Token} :
    ∀ {position depth : Nat},
      unpaired? position depth span = none ↔ depthAfter depth span = some 0 := by
  induction span with
  | nil =>
      intro position depth
      by_cases h : depth = 0 <;> simp [unpaired?, depthAfter, h]
  | cons t rest ih =>
      intro position depth
      simp only [unpaired?]
      split
      · next hk => simpa only [depthAfter, hk] using ih
      · next hk =>
        by_cases h : depth = 0
        · simp [depthAfter, hk, h]
        · simpa only [depthAfter, hk, h, if_false] using ih
      · next hl hr => simpa only [depthAfter, hl, hr] using ih

/-! ## A pair around a whole span -/

/-- With `depth` parentheses open, whether the last token closes the outermost one and no earlier
token does. -/
def closesLast : (depth : Nat) → List Token → Bool
  | _, [] => false
  | depth, t :: rest =>
    match t.kind with
    | .leftParen => closesLast (depth + 1) rest
    | .rightParen => if depth ≤ 1 then depth == 1 && rest.isEmpty else closesLast (depth - 1) rest
    | _ => closesLast depth rest

/-- Whether the last token of a span closes the first one. -/
def wrapped : List Token → Bool
  | [] => false
  | t :: rest => t.kind == .leftParen && closesLast 1 rest

theorem closesLast_append {middle rest : List Token} :
    ∀ {depth after : Nat}, depthAfter depth middle = some after →
      closesLast (depth + 1) (middle ++ rest) = closesLast (after + 1) rest := by
  induction middle with
  | nil =>
      intro depth after h
      simp only [depthAfter, Option.some.injEq] at h
      subst h; rfl
  | cons t more ih =>
      intro depth after h
      simp only [depthAfter] at h
      split at h
      · next hk => simpa only [List.cons_append, closesLast, hk] using ih h
      · next hk =>
        split at h
        · cases h
        · next hd =>
          have deep : ¬ depth + 1 ≤ 1 := by omega
          have up : depth + 1 - 1 = depth - 1 + 1 := by omega
          simpa only [List.cons_append, closesLast, hk, deep, if_false, up] using ih h
      · next hl hr => simpa only [List.cons_append, closesLast, hl, hr] using ih h

theorem eq_append_of_closesLast {span : List Token} :
    ∀ {depth : Nat}, closesLast (depth + 1) span = true →
      ∃ middle r, span = middle ++ [r] ∧ r.kind = .rightParen ∧
        depthAfter depth middle = some 0 := by
  induction span with
  | nil => intro depth h; cases h
  | cons t rest ih =>
      intro depth h
      simp only [closesLast] at h
      split at h
      · next hk =>
        obtain ⟨middle, r, rfl, hr, hd⟩ := ih h
        exact ⟨t :: middle, r, rfl, hr, by simpa only [depthAfter, hk] using hd⟩
      · next hk =>
        split at h
        · next hle =>
          simp only [Bool.and_eq_true, beq_iff_eq, List.isEmpty_iff] at h
          obtain ⟨hd, rfl⟩ := h
          exact ⟨[], t, rfl, hk, by simp only [depthAfter, Option.some.injEq]; omega⟩
        · next hlt =>
          rw [show depth + 1 - 1 = depth - 1 + 1 by omega] at h
          obtain ⟨middle, r, rfl, hr, hd⟩ := ih h
          refine ⟨t :: middle, r, rfl, hr, ?_⟩
          simp only [depthAfter, hk]
          rwa [if_neg (by omega)]
      · next hl hr' =>
        obtain ⟨middle, r, rfl, hr, hd⟩ := ih h
        exact ⟨t :: middle, r, rfl, hr, by simpa only [depthAfter, hl, hr'] using hd⟩

/-- The last token closes the first one exactly where the span is a balanced one in parentheses. -/
theorem wrapped_iff {span : List Token} :
    wrapped span = true ↔
      ∃ l middle r, span = l :: (middle ++ [r]) ∧ l.kind = .leftParen ∧ r.kind = .rightParen ∧
        Balanced middle := by
  constructor
  · intro h
    cases span with
    | nil => cases h
    | cons l rest =>
        simp only [wrapped, Bool.and_eq_true, beq_iff_eq] at h
        obtain ⟨hl, hc⟩ := h
        obtain ⟨middle, r, rfl, hr, hd⟩ := eq_append_of_closesLast hc
        exact ⟨l, middle, r, rfl, hl, hr, hd⟩
  · rintro ⟨l, middle, r, rfl, hl, hr, hd⟩
    have close : closesLast 1 [r] = true := by simp [closesLast, hr]
    simp only [wrapped, hl, beq_self_eq_true, Bool.true_and]
    exact (closesLast_append hd).trans close

/-! ## The operators outside parentheses -/

/-- The operators outside parentheses, each with its place in the span. -/
def outerOperators (place depth : Nat) : List Token → List (Nat × Operator)
  | [] => []
  | t :: rest =>
    match t.kind with
    | .leftParen => outerOperators (place + 1) (depth + 1) rest
    | .rightParen => outerOperators (place + 1) (depth - 1) rest
    | kind =>
      match depth, kind.operator? with
      | 0, some op => (place, op) :: outerOperators (place + 1) 0 rest
      | _, _ => outerOperators (place + 1) depth rest

/-- The operators of a span outside its parentheses, `depth` of them being open before it. -/
def outer (depth : Nat) (span : List Token) : List Operator :=
  (outerOperators 0 depth span).map Prod.snd

/-- Where a span starts does not matter for its operators. -/
theorem map_snd_outerOperators {span : List Token} :
    ∀ (place place' depth : Nat),
      (outerOperators place depth span).map Prod.snd =
        (outerOperators place' depth span).map Prod.snd := by
  induction span with
  | nil => intro _ _ _; rfl
  | cons t rest ih =>
      intro place place' depth
      simp only [outerOperators]
      split
      · exact ih _ _ _
      · exact ih _ _ _
      · split
        · simp only [List.map_cons]
          rw [ih (place + 1) (place' + 1) 0]
        · exact ih _ _ _

theorem forall_mem_outer {P : Operator → Prop} (place : Nat) {depth : Nat} {span : List Token} :
    (∀ o ∈ outer depth span, P o) ↔ ∀ p ∈ outerOperators place depth span, P p.2 := by
  rw [outer, map_snd_outerOperators 0 place depth, List.forall_mem_map]

theorem outerOperators_append {ys : List Token} {xs : List Token} :
    ∀ {place depth after : Nat}, depthAfter depth xs = some after →
      outerOperators place depth (xs ++ ys) =
        outerOperators place depth xs ++ outerOperators (place + xs.length) after ys := by
  induction xs with
  | nil =>
      intro place depth after h
      simp only [depthAfter, Option.some.injEq] at h
      subst h; rfl
  | cons t rest ih =>
      intro place depth after h
      have shift : place + (t :: rest).length = place + 1 + rest.length := by
        simp only [List.length_cons]; omega
      simp only [depthAfter] at h
      split at h
      · next hk => simpa only [List.cons_append, outerOperators, hk, shift] using ih h
      · next hk =>
        split at h
        · cases h
        · simpa only [List.cons_append, outerOperators, hk, shift] using ih h
      · next hl hr =>
        simp only [List.cons_append, outerOperators, shift]
        split
        · rw [List.cons_append, ih h]
        · exact ih h

theorem outer_append {depth after : Nat} {xs ys : List Token}
    (h : depthAfter depth xs = some after) :
    outer depth (xs ++ ys) = outer depth xs ++ outer after ys := by
  rw [outer, outerOperators_append h, List.map_append]
  exact congrArg _ (map_snd_outerOperators _ _ _)

theorem outer_succ {span : List Token} :
    ∀ {depth after : Nat}, depthAfter depth span = some after → outer (depth + 1) span = [] := by
  suffices ∀ {place depth after : Nat}, depthAfter depth span = some after →
      outerOperators place (depth + 1) span = [] by
    intro depth after h
    rw [outer, this h]; rfl
  induction span with
  | nil => intro _ _ _ _; rfl
  | cons t rest ih =>
      intro place depth after h
      simp only [depthAfter] at h
      split at h
      · next hk => simpa only [outerOperators, hk] using ih h
      · next hk =>
        split at h
        · cases h
        · have up : depth + 1 - 1 = depth - 1 + 1 := by omega
          simpa only [outerOperators, hk, up] using ih h
      · next hl hr => simpa only [outerOperators, hl, hr] using ih h

theorem outer_group {middle : List Token} {l r : Token} (hl : l.kind = .leftParen)
    (hr : r.kind = .rightParen) (hb : Balanced middle) : outer 0 (l :: (middle ++ [r])) = [] := by
  have inside : depthAfter 1 middle = some 1 := depthAfter_add 1 hb
  have first : outer 0 (l :: (middle ++ [r])) = outer 1 (middle ++ [r]) := by
    simp only [outer, outerOperators, hl]
    exact map_snd_outerOperators _ _ _
  have last : outer 1 [r] = [] := by simp only [outer, outerOperators, hr]; rfl
  rw [first, outer_append inside, outer_succ hb, last]
  rfl

/-! An operator is no parenthesis: it leaves the depth as it is, and at depth zero it comes
first among the operators from it on. -/

section Operator
variable {t : Token} {op : Operator} (h : t.kind.operator? = some op)
include h

theorem ne_leftParen_of_operator : t.kind ≠ .leftParen := by
  intro hk; rw [hk] at h; cases h

theorem ne_rightParen_of_operator : t.kind ≠ .rightParen := by
  intro hk; rw [hk] at h; cases h

theorem depthAfter_cons_operator (depth : Nat) (rest : List Token) :
    depthAfter depth (t :: rest) = depthAfter depth rest := by
  have hl := ne_leftParen_of_operator h
  have hr := ne_rightParen_of_operator h
  simp only [depthAfter]

theorem outerOperators_cons_operator (place : Nat) (rest : List Token) :
    outerOperators place 0 (t :: rest) = (place, op) :: outerOperators (place + 1) 0 rest := by
  have hl := ne_leftParen_of_operator h
  have hr := ne_rightParen_of_operator h
  simp only [outerOperators, h]

theorem outerOperators_append_operator {left right : List Token} (hl : Balanced left) :
    outerOperators 0 0 (left ++ t :: right) =
      outerOperators 0 0 left ++ (left.length, op) :: outerOperators (left.length + 1) 0 right := by
  rw [outerOperators_append hl, outerOperators_cons_operator h, Nat.zero_add]

theorem outer_cons_operator (rest : List Token) : outer 0 (t :: rest) = op :: outer 0 rest := by
  rw [outer, outerOperators_cons_operator h, List.map_cons]
  exact congrArg _ (map_snd_outerOperators _ _ _)

theorem balanced_append_operator {left right : List Token} (hl : Balanced left) :
    Balanced (left ++ t :: right) ↔ Balanced right := by
  rw [Balanced, depthAfter_append, hl, Option.bind_some, depthAfter_cons_operator h]
  exact Iff.rfl

end Operator

/-! ## Cutting at an operator

A place in the list of operators is a place in the span: the token there, with what is
before and after it. -/

/-- Some place of a span holds an operator outside parentheses, with exactly the operators
`before` to its left. -/
def CutAt (place depth : Nat) (span : List Token) (before : List (Nat × Operator))
    (found : Nat × Operator) : Prop :=
  ∃ left t right, span = left ++ t :: right ∧ found.1 = place + left.length ∧
    t.kind.operator? = some found.2 ∧ depthAfter depth left = some 0 ∧
    outerOperators place depth left = before

/-- A cut of the rest of a span is one of the span, the operator of its first token, if there
is one, going to the left. -/
theorem CutAt.cons {place depth depth' : Nat} {t : Token} {rest : List Token}
    {before : List (Nat × Operator)} {found : Nat × Operator} (own : List (Nat × Operator))
    (hd : ∀ l, depthAfter depth (t :: l) = depthAfter depth' l)
    (ho : ∀ l, outerOperators place depth (t :: l) = own ++ outerOperators (place + 1) depth' l)
    (h : CutAt (place + 1) depth' rest before found) :
    CutAt place depth (t :: rest) (own ++ before) found := by
  obtain ⟨left, u, right, rfl, hp, hop, hl, hx⟩ := h
  refine ⟨t :: left, u, right, rfl, ?_, hop, (hd left).trans hl, ?_⟩
  · rw [hp, List.length_cons]; omega
  · rw [ho, hx]

/-- Every operator that the scan collects is a cut. -/
theorem cutAt_of_outerOperators {found : Nat × Operator} {span : List Token} :
    ∀ {place depth after : Nat} {before behind : List (Nat × Operator)},
      depthAfter depth span = some after →
      outerOperators place depth span = before ++ found :: behind →
      CutAt place depth span before found := by
  induction span with
  | nil =>
      intro place depth after before behind _ h
      exact absurd h (by simp [outerOperators])
  | cons t rest ih =>
      intro place depth after before behind hd h
      simp only [depthAfter] at hd
      split at hd
      · next hk =>
        simp only [outerOperators, hk] at h
        refine CutAt.cons [] (fun l => ?_) (fun l => ?_) (ih hd h)
        · simp only [depthAfter, hk]
        · simp only [outerOperators, hk, List.nil_append]
      · next hk =>
        split at hd
        · cases hd
        · next h0 =>
          simp only [outerOperators, hk] at h
          refine CutAt.cons [] (fun l => ?_) (fun l => ?_) (ih hd h)
          · simp only [depthAfter, hk, h0, if_false]
          · simp only [outerOperators, hk, List.nil_append]
      · next hk₁ hk₂ =>
        have plain : ∀ l, depthAfter depth (t :: l) = depthAfter depth l := by
          intro l; simp only [depthAfter]
        cases hop : t.kind.operator? with
        | none =>
            simp only [outerOperators, hop] at h
            refine CutAt.cons [] plain (fun l => ?_) (ih hd h)
            simp only [outerOperators, hop, List.nil_append]
        | some op =>
            cases depth with
            | succ depth =>
                simp only [outerOperators] at h
                refine CutAt.cons [] plain (fun l => ?_) (ih hd h)
                simp only [outerOperators, List.nil_append]
            | zero =>
                simp only [outerOperators, hop] at h
                cases before with
                | nil =>
                    obtain ⟨rfl, -⟩ := List.cons.inj h
                    exact ⟨[], t, rest, rfl, rfl, hop, rfl, rfl⟩
                | cons first more =>
                    rw [List.cons_append] at h
                    obtain ⟨rfl, h'⟩ := List.cons.inj h
                    refine CutAt.cons [(place, op)] plain (fun l => ?_) (ih hd h')
                    simp only [outerOperators, hop, List.singleton_append]

/-! ## The loosest operator -/

/-- The loosest of some operators, the first of several. -/
def loosest? : List (Nat × Operator) → Option (Nat × Operator)
  | [] => none
  | a :: rest =>
    match loosest? rest with
    | none => some a
    | some b => if a.2.precedence < b.2.precedence then some b else some a

theorem loosest?_mem {ops : List (Nat × Operator)} {p : Nat × Operator}
    (h : loosest? ops = some p) : p ∈ ops := by
  induction ops generalizing p with
  | nil => simp [loosest?] at h
  | cons a rest ih =>
    simp only [loosest?] at h
    split at h
    · simp_all
    · next b hb =>
      split at h
      · cases h
        exact List.mem_cons_of_mem _ (ih hb)
      · cases h
        exact List.mem_cons_self

theorem loosest?_eq_none {ops : List (Nat × Operator)} : loosest? ops = none ↔ ops = [] := by
  cases ops with
  | nil => exact ⟨fun _ => rfl, fun _ => rfl⟩
  | cons a rest =>
      refine ⟨fun h => ?_, fun h => nomatch h⟩
      simp only [loosest?] at h
      split at h
      · cases h
      · split at h <;> cases h

/-- The loosest of some operators is looser than all before it, no tighter than all behind it. -/
theorem eq_append_of_loosest? {ops : List (Nat × Operator)} :
    ∀ {found : Nat × Operator}, loosest? ops = some found →
      ∃ before behind, ops = before ++ found :: behind ∧
        (∀ o ∈ before, o.2.precedence < found.2.precedence) ∧
        ∀ o ∈ behind, o.2.precedence ≤ found.2.precedence := by
  induction ops with
  | nil => intro found h; cases h
  | cons a rest ih =>
      intro found h
      simp only [loosest?] at h
      split at h
      · next hn =>
        cases h
        exact ⟨[], [], by rw [loosest?_eq_none.mp hn]; rfl, by simp, by simp⟩
      · next b hb =>
        obtain ⟨before, behind, rfl, h₁, h₂⟩ := ih hb
        split at h
        · next hlt =>
          cases h
          exact ⟨a :: before, behind, rfl, List.forall_mem_cons.mpr ⟨hlt, h₁⟩, h₂⟩
        · next hge =>
          cases h
          have hge := Nat.le_of_not_lt hge
          refine ⟨[], before ++ b :: behind, rfl, by simp, ?_⟩
          refine List.forall_mem_append.mpr ⟨fun o ho => ?_, ?_⟩
          · exact Nat.le_trans (Nat.le_of_lt (h₁ o ho)) hge
          · exact List.forall_mem_cons.mpr ⟨hge, fun o ho => Nat.le_trans (h₂ o ho) hge⟩

theorem loosest?_append (found : Nat × Operator) {before behind : List (Nat × Operator)}
    (h₁ : ∀ o ∈ before, o.2.precedence < found.2.precedence)
    (h₂ : ∀ o ∈ behind, o.2.precedence ≤ found.2.precedence) :
    loosest? (before ++ found :: behind) = some found := by
  induction before with
  | nil =>
      simp only [List.nil_append, loosest?]
      split
      · rfl
      · next b hb =>
        rw [if_neg (Nat.not_lt.mpr (h₂ b (loosest?_mem hb)))]
  | cons a rest ih =>
      obtain ⟨ha, hrest⟩ := List.forall_mem_cons.mp h₁
      simp only [List.cons_append, loosest?, ih hrest]
      rw [if_pos ha]

/-- The operator at which a span parts, with its place in it. -/
def parting (start : Nat) (span : List Token) : Except ExpressionError (Nat × Operator) :=
  match unpaired? start 0 span with
  | some position => .error (.unbalanced position)
  | none =>
    match loosest? (outerOperators 0 0 span) with
    | some found => .ok found
    | none => .error (.noOperator start (start + span.length - 1))

/-- A span parts at the operator outside parentheses that is looser than every one before it and no
tighter than those behind it; both sides of it are balanced. -/
theorem parting_eq_ok_iff {start place : Nat} {span : List Token} {op : Operator} :
    parting start span = .ok (place, op) ↔
      ∃ left t right, span = left ++ t :: right ∧ left.length = place ∧
        t.kind.operator? = some op ∧ Balanced left ∧ Balanced right ∧
        (∀ o ∈ outer 0 left, o.precedence < op.precedence) ∧
        ∀ o ∈ outer 0 right, o.precedence ≤ op.precedence := by
  constructor
  · intro h
    simp only [parting] at h
    split at h
    · cases h
    · next hn =>
      have hb := unpaired?_eq_none.mp hn
      split at h
      · next found hf =>
        cases h
        obtain ⟨before, behind, hops, h₁, h₂⟩ := eq_append_of_loosest? hf
        obtain ⟨left, t, right, rfl, hp, hop, hl, rfl⟩ := cutAt_of_outerOperators hb hops
        rw [outerOperators_append_operator hop hl] at hops
        obtain ⟨-, rfl⟩ := List.cons.inj (List.append_cancel_left hops)
        refine ⟨left, t, right, rfl, by omega, hop, hl, (balanced_append_operator hop hl).mp hb,
          (forall_mem_outer 0).mpr h₁, (forall_mem_outer (left.length + 1)).mpr h₂⟩
      · cases h
  · rintro ⟨left, t, right, rfl, rfl, hop, hl, hr, h₁, h₂⟩
    have hn : unpaired? start 0 (left ++ t :: right) = none :=
      unpaired?_eq_none.mpr ((balanced_append_operator hop hl).mpr hr)
    have hf := loosest?_append (left.length, op) ((forall_mem_outer 0).mp h₁)
      ((forall_mem_outer (left.length + 1)).mp h₂)
    simp only [parting, hn, outerOperators_append_operator hop hl, hf]

end HartMonitor.Evaluation
