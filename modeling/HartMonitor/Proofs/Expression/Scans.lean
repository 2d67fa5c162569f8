/-
# `HartMonitor.Proofs.Expression.Scans` — the scans over a range of tokens

The two scans of the evaluator, done by position with every count checked:

    isGroup_eq      counting how often all parentheses are closed finds whether one pair encloses
                    the range
    master_pivot    keeping the loosest operator so far finds the pivot

Neither reads a token outside its range, and where there are few parentheses no count overflows,
so that both find what they find when counts may wrap around.
-/
import HartMonitor.Proofs.Expression.Checked
import HartMonitor.Proofs.Expression.Counting

namespace HartMonitor

namespace Checked

open Evaluation

variable {tokens front back span : List Token} {t : Token}

/-! ## Tokens by index -/

theorem tokenAt_eq {i : Nat} (shape : tokens = front ++ t :: back) (place : i = front.length) :
    tokenAt tokens i = pure t := by
  rw [tokenAt, shape, place, List.getElem?_append_right (Nat.le_refl _), Nat.sub_self]
  rfl

/-- The tokens at both ends of a range. -/
theorem tokenAt_ends {u : Token} {first last : Nat}
    (shape : tokens = front ++ (t :: (span ++ [u]) ++ back)) (place : first = front.length)
    (stop : last = first + span.length + 1) :
    tokenAt tokens first = pure t ∧ tokenAt tokens last = pure u := by
  have fromFirst : tokens = front ++ t :: (span ++ u :: back) := by simp [shape]
  have fromLast : tokens = (front ++ t :: span) ++ u :: back := by simp [shape]
  refine ⟨tokenAt_eq fromFirst place, tokenAt_eq fromLast ?_⟩
  rw [stop, place, List.length_append, List.length_cons, Nat.add_assoc]

theorem tokensIn_eq {first last : Nat} (shape : tokens = front ++ (span ++ back))
    (place : first = front.length) (stop : last + 1 = first + span.length) :
    tokensIn tokens first last = pure span := by
  have inside : last + 1 ≤ tokens.length := by
    rw [stop, place, shape, List.length_append, List.length_append]
    omega
  rw [tokensIn, if_pos ⟨by omega, inside⟩, stop, Nat.add_sub_cancel_left, place, shape,
    List.drop_left, List.take_left]

theorem counter_of_lt {n : Int} (lower : -1 ≤ n) (upper : n < 0x80000000) : counter n = pure n :=
  if_pos ⟨by omega, upper⟩

/-! ## Enclosing parentheses -/

section Counting
variable {depth closings : Nat} {rest : List Token}

/-! One step of the count, by the kind of the token. -/

theorem closesOnce_leftParen (h : t.kind = .leftParen) (bound : depth + 1 < 2 ^ 31) :
    closesOnce depth closings (t :: rest) = closesOnce (depth + 1 : Nat) closings rest := by
  have more : ((depth : Int) + 1 == 0) = false := beq_eq_false_iff_ne.mpr (by omega)
  have fits : counter ((depth : Int) + 1) = pure ((depth : Int) + 1) :=
    counter_of_lt (by omega) (by omega)
  simp only [closesOnce, h, fits, pure_bind, more, Bool.and_false, Bool.false_eq_true, if_false]
  rw [if_neg (by omega), Int.natCast_succ]

theorem closesOnce_rightParen_zero (h : t.kind = .rightParen) :
    closesOnce (0 : Nat) closings (t :: rest) = pure false := by
  simp only [closesOnce, h]
  rfl

theorem closesOnce_rightParen_one (h : t.kind = .rightParen) (bound : closings + 1 < 2 ^ 31) :
    closesOnce (1 : Nat) closings (t :: rest) = closesOnce (0 : Nat) (closings + 1 : Nat) rest := by
  have fits : counter ((closings : Int) + 1) = pure ((closings : Int) + 1) :=
    counter_of_lt (by omega) (by omega)
  simp only [closesOnce, h, fits]
  rfl

theorem closesOnce_rightParen_succ (h : t.kind = .rightParen) (bound : depth + 1 < 2 ^ 31) :
    closesOnce (depth + 2 : Nat) closings (t :: rest) =
      closesOnce (depth + 1 : Nat) closings rest := by
  have less : ((depth + 2 : Nat) : Int) - 1 = (depth + 1 : Nat) := by omega
  have more : (((depth + 1 : Nat) : Int) == 0) = false := beq_eq_false_iff_ne.mpr (by omega)
  have fits : counter ((depth + 1 : Nat) : Int) = pure ((depth + 1 : Nat) : Int) :=
    counter_of_lt (by omega) (by omega)
  simp only [closesOnce, h, less, fits, pure_bind, more, Bool.and_false, Bool.false_eq_true,
    if_false]
  rw [if_neg (by omega)]

theorem closesOnce_other (left : t.kind ≠ .leftParen) (right : t.kind ≠ .rightParen) :
    closesOnce depth closings (t :: rest) = closesOnce depth closings rest := by
  have still : (decide (0 < (depth : Int)) && ((depth : Int) == 0)) = false := by
    cases depth with
    | zero => rfl
    | succ n => rw [beq_eq_false_iff_ne.mpr (by omega), Bool.and_false]
  simp only [closesOnce, pure_bind, still, Bool.false_eq_true, if_false]
  rw [if_neg (by omega)]

end Counting

theorem count_beq {n k : Nat} (fits : n < 2 ^ 31) (fits' : k < 2 ^ 31) :
    (Int32.ofNat n == Int32.ofNat k) = ((n : Int) == k) := by
  rw [Bool.eq_iff_iff, beq_iff_eq, beq_iff_eq]
  exact (count_eq_iff fits fits').trans Int.ofNat_inj.symm

/-- Where no count overflows, it does not matter that it is checked. -/
theorem closesOnce_eq {span : List Token} :
    ∀ {depth closings : Nat}, depth + closings + openings span < 2 ^ 31 →
      closesOnce depth closings span =
        pure (Evaluation.closesOnce (Int32.ofNat depth) (Int32.ofNat closings) span) := by
  induction span with
  | nil =>
      intro depth closings bound
      have one : (Int32.ofNat closings == 1) = ((closings : Int) == 1) :=
        @count_beq closings 1 (by omega) (by decide)
      have zero : (Int32.ofNat depth == 0) = ((depth : Int) == 0) :=
        @count_beq depth 0 (by omega) (by decide)
      rw [closesOnce, Evaluation.closesOnce, one, zero]
  | cons t rest ih =>
      intro depth closings bound
      by_cases left : t.kind = .leftParen
      · rw [openings_cons_leftParen left] at bound
        rw [closesOnce_leftParen left (by omega), Evaluation.closesOnce_leftParen left (by omega)]
        exact ih (by omega)
      rw [openings_cons_other left] at bound
      by_cases right : t.kind = .rightParen
      · obtain _ | _ | depth := depth
        · rw [Evaluation.closesOnce_rightParen_zero right]
          exact closesOnce_rightParen_zero right
        · rw [Nat.zero_add, closesOnce_rightParen_one right (by omega),
            Evaluation.closesOnce_rightParen_one right]
          exact ih (by omega)
        · rw [closesOnce_rightParen_succ right (by omega),
            Evaluation.closesOnce_rightParen_succ right (by omega)]
          exact ih (by omega)
      · rw [closesOnce_other left right, Evaluation.closesOnce_other left right (by omega)]
        exact ih bound

/-- The parentheses at the ends of a range are found to be a pair where they enclose its span. -/
theorem isGroup_eq {u : Token} {first last : Nat}
    (shape : tokens = front ++ (t :: (span ++ [u]) ++ back)) (place : first = front.length)
    (stop : last = first + span.length + 1) (few : FewParens (t :: (span ++ [u]))) :
    isGroup tokens first last = pure (enclosed (t :: (span ++ [u]))) := by
  obtain ⟨atFirst, atLast⟩ := tokenAt_ends shape place stop
  have between : tokensIn tokens first last = pure (t :: (span ++ [u])) := by
    refine tokensIn_eq shape place ?_
    rw [stop, List.length_cons, List.length_append, List.length_singleton]
    omega
  have ends : (t :: (span ++ [u])).getLast? = some u := by
    rw [← List.cons_append, List.getLast?_concat]
  have counted : closesOnce 0 0 (t :: (span ++ [u])) =
      pure (Evaluation.closesOnce 0 0 (t :: (span ++ [u]))) :=
    @closesOnce_eq (t :: (span ++ [u])) 0 0 (by rwa [Nat.zero_add])
  simp only [isGroup, atFirst, atLast, between, pure_bind, enclosed, List.head?_cons, ends, counted]
  by_cases left : t.kind = .leftParen
  · by_cases right : u.kind = .rightParen
    · simp only [left, right, ne_eq, not_true_eq_false, if_false, beq_self_eq_true, Bool.true_and]
    · rw [if_neg (not_not_intro left), if_pos right, beq_eq_false_iff_ne.mpr right, Bool.and_false,
        Bool.false_and]
  · rw [if_pos left, beq_eq_false_iff_ne.mpr left, Bool.false_and, Bool.false_and]

/-! ## The loosest operator -/

/-- What a scan for the loosest operator has found so far, and its precedence. -/
structure SoFar {first last : Nat} (found : Option (Between first last)) (best : Nat)
    (current : Option (Nat × Operator)) : Prop where
  place : found.map Subtype.val = current.map fun cut => first + cut.1
  precedence : best = (current.map fun cut => cut.2.precedence).getD 0

theorem SoFar.none {first last : Nat} : @SoFar first last none 0 none := ⟨rfl, rfl⟩

/-- Behind the last index, both scans have the same answer. -/
theorem master_past {first last i place depth best : Nat} {found : Option (Between first last)}
    {current : Option (Nat × Operator)} (inside : first ≤ i) (stop : last + 1 = i)
    (index : i = first + place) (bound : depth < 2 ^ 31) (sofar : SoFar found best current) :
    ∃ r, master tokens first last depth best found i inside = safe r ∧
      r.map Subtype.val =
        (findPivot first place (Int32.ofNat depth) current []).map fun cut => first + cut.1 := by
  have behind : first + place - 1 = last := by omega
  rw [master.eq_def, dif_pos (by omega)]
  simp only [findPivot, behind]
  cases depth with
  | succ depth =>
      rw [if_pos (by omega), if_pos (count_succ_ne_zero bound)]
      exact ⟨.error (.unbalanced last), rfl, rfl⟩
  | zero =>
      rw [if_neg (by simp), if_neg (by decide)]
      cases current with
      | none =>
          obtain rfl := Option.map_eq_none_iff.mp sofar.place
          exact ⟨.error (.noOperator first last), rfl, rfl⟩
      | some cut =>
          obtain ⟨place, rfl, same⟩ := Option.map_eq_some_iff.mp sofar.place
          exact ⟨.ok place, rfl, congrArg Except.ok same⟩

/-- From any index on, both scans have the same answer. -/
theorem master_eq {first last : Nat} {span : List Token} :
    ∀ {front : List Token} {i place depth best : Nat} {found : Option (Between first last)}
      {current : Option (Nat × Operator)} (inside : first ≤ i),
      tokens = front ++ (span ++ back) → i = front.length → last + 1 = i + span.length →
      i = first + place → depth + openings span < 2 ^ 31 → SoFar found best current →
      ∃ r, master tokens first last depth best found i inside = safe r ∧
        r.map Subtype.val =
          (findPivot first place (Int32.ofNat depth) current span).map fun cut => first + cut.1 := by
  induction span with
  | nil =>
      intro front i place depth best found current inside _ _ stop index bound sofar
      exact master_past inside stop index (Nat.lt_of_le_of_lt (Nat.le_add_right _ _) bound) sofar
  | cons t rest ih =>
      intro front i place depth best found current inside shape at_ stop index bound sofar
      rw [List.length_cons] at stop
      have next : tokens = (front ++ [t]) ++ (rest ++ back) := by simp [shape]
      have at_' : i + 1 = (front ++ [t]).length := by simp [at_]
      have ih := fun {depth best found current} =>
        @ih (front ++ [t]) (i + 1) (place + 1) depth best found current (by omega) next at_'
          (by omega) (by omega)
      rw [master.eq_def, dif_neg (by omega), tokenAt_eq shape at_, pure_bind]
      split
      · next h =>
        have left : t.kind ≠ .leftParen := by rw [h]; decide
        rw [openings_cons_other left] at bound
        rw [findPivot_other left (by rw [h]; decide) (by rw [h]; exact fun _ => rfl) (by omega)]
        exact ih bound sofar
      · next h =>
        rw [openings_cons_leftParen h] at bound
        rw [counter_of_lt (by omega) (by omega), pure_bind, findPivot_leftParen h]
        exact @ih (depth + 1) best found current (by omega) sofar
      · next h =>
        rw [openings_cons_other (by rw [h]; decide)] at bound
        rw [counter_of_lt (by omega) (by omega), pure_bind]
        cases depth with
        | zero =>
            rw [if_pos (by omega), findPivot_rightParen_zero h, ← index]
            exact ⟨.error (.unbalanced i), rfl, rfl⟩
        | succ depth =>
            have less : ((depth + 1 : Nat) : Int) - 1 = depth := by omega
            rw [if_neg (by omega), findPivot_rightParen_succ h (by omega), less]
            exact ih (by omega) sofar
      · next left right =>
        rw [openings_cons_other left] at bound
        cases depth with
        | succ depth =>
            rw [if_pos (by omega), findPivot_other left right (fun zero => absurd zero (by omega))
              (by omega)]
            exact ih (by omega) sofar
        | zero =>
            rw [if_neg (by omega)]
            cases h : t.kind.operator? with
            | none =>
                have none : t.kind.precedence = 0 := by rw [TokenKind.precedence, h]; rfl
                rw [none, if_neg (Nat.not_lt_zero _),
                  findPivot_other left right (fun _ => h) (by decide)]
                exact ih (by omega) sofar
            | some op =>
                have own : t.kind.precedence = op.precedence := by rw [TokenKind.precedence, h]; rfl
                rw [own, findPivot_operator h, looser, ← sofar.precedence]
                by_cases tighter : best < op.precedence
                · rw [if_pos tighter, if_pos tighter]
                  exact ih (by omega) ⟨congrArg some index, rfl⟩
                · rw [if_neg tighter, if_neg tighter]
                  exact ih (by omega) sofar

section Pivot
variable {first last : Nat} (shape : tokens = front ++ (span ++ back))
  (place : first = front.length) (stop : last + 1 = first + span.length)
  (few : FewParens span)
include shape place stop few

/-- The scan for the loosest operator finds the place of the pivot. -/
theorem master_pivot :
    ∃ r, master tokens first last 0 0 none first (Nat.le_refl first) = safe r ∧
      r.map Subtype.val = (pivot first span).map fun found => first + found.1 :=
  @master_eq tokens back first last span front first 0 0 0 none none (Nat.le_refl first) shape place
    stop (Nat.add_zero first).symm (by rwa [Nat.zero_add]) SoFar.none

theorem master_of_pivot_error {e : ExpressionError} (h : pivot first span = .error e) :
    master tokens first last 0 0 none first (Nat.le_refl first) = throw e := by
  obtain ⟨r, found, same⟩ := master_pivot shape place stop few
  rw [h] at same
  rw [found]
  cases r with
  | error e' => cases same; rfl
  | ok i => cases same

/-- The index that is found is in the range, and the operator is there. -/
theorem master_of_pivot {n : Nat} {op : Operator} (h : pivot first span = .ok (n, op)) :
    ∃ inside x, master tokens first last 0 0 none first (Nat.le_refl first) =
        pure ⟨first + n, inside⟩ ∧
      tokenAt tokens (first + n) = pure x ∧ x.kind.operator? = some op := by
  obtain ⟨r, found, same⟩ := master_pivot shape place stop few
  rw [h] at same
  obtain ⟨left, x, right, rfl, length, operator, -⟩ := (pivot_eq_ok_iff few).mp h
  have there : tokens = (front ++ left) ++ x :: (right ++ back) := by simp [shape]
  have index : first + n = (front ++ left).length := by rw [List.length_append, place, length]
  cases r with
  | error e => cases same
  | ok i =>
      obtain ⟨i, inside⟩ := i
      obtain rfl : i = first + n := Except.ok.inj same
      exact ⟨inside, x, found, tokenAt_eq there index, operator⟩

end Pivot

end Checked

end HartMonitor
