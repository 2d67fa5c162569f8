/-
# `HartMonitor.Proofs.Expression.Matching` — parentheses that match, by position

Here the tokens of a range are known by their positions in a list, and parentheses by a grammar
and a height, whatever scans find them:

    nested  ::=  ε  |  token nested  |  '(' nested ')' nested

    (   1   +   (   2   )   )   *   3
    0   1   1   1   2   2   1   0   0        heights before the tokens

The parenthesis that closes another one is the first behind which the height is back at zero.
What the scans find is this (`wrapped_extract_iff`, `parting_extract_iff`), as long as they can
count the parentheses (`FewParens`):

    enclosed      whether the last token of a range closes the first one
    pivot         the first of the loosest operators at height zero, between two nested sides
-/
import HartMonitor.Proofs.Expression.Scans

namespace HartMonitor

/-- What a token adds to the number of parentheses that are open. -/
def Token.rise (t : Token) : Int :=
  match t.kind with
  | .leftParen => 1
  | .rightParen => -1
  | _ => 0

theorem Token.rise_leftParen {t : Token} (h : t.kind = .leftParen) : t.rise = 1 := by
  rw [rise, h]

theorem Token.rise_rightParen {t : Token} (h : t.kind = .rightParen) : t.rise = -1 := by
  rw [rise, h]

theorem Token.rise_other {t : Token} (left : t.kind ≠ .leftParen) (right : t.kind ≠ .rightParen) :
    t.rise = 0 := by
  simp only [rise]

namespace Evaluation

/-- The number of parentheses that some tokens open, less the number of those that they close. -/
def height : List Token → Int
  | [] => 0
  | t :: rest => t.rise + height rest

/-- The height before the token at position `i`, counted from position `p`. -/
def heightAt (tokens : List Token) (p i : Nat) : Int := height (tokens.extract p i)

/-- Tokens in which every parenthesis is one of a pair. -/
inductive Nested : List Token → Prop
  | nil : Nested []
  | other {t : Token} {rest : List Token} : t.kind ≠ .leftParen → t.kind ≠ .rightParen →
      Nested rest → Nested (t :: rest)
  | pair {l r : Token} {inner rest : List Token} : l.kind = .leftParen → r.kind = .rightParen →
      Nested inner → Nested rest → Nested (l :: (inner ++ r :: rest))

/-- The token at `q` is the first behind `p` after which the height is back where it was before
`p`. -/
structure Closes (tokens : List Token) (p q : Nat) : Prop where
  closed : heightAt tokens p (q + 1) = 0
  first : ∀ i, p < i → i ≤ q → heightAt tokens p i ≠ 0

/-- The tokens at `p` and `q` are a pair of parentheses, with whole pairs between them. -/
structure Groups (tokens : List Token) (p q : Nat) : Prop where
  opening : ∃ l, tokens[p]? = some l ∧ l.kind = .leftParen
  closing : ∃ r, tokens[q]? = some r ∧ r.kind = .rightParen
  closes : Closes tokens p q
  between : Nested (tokens.extract (p + 1) q)

/-- The operator `op` at position `i` cuts the range from `p` to `q`. -/
structure Splits (tokens : List Token) (p q i : Nat) (op : Operator) : Prop where
  inside : p ≤ i ∧ i ≤ q
  operator : ∃ t, tokens[i]? = some t ∧ t.kind.operator? = some op
  outside : heightAt tokens p i = 0
  loosest : ∀ j t, p ≤ j → j ≤ q → tokens[j]? = some t → heightAt tokens p j = 0 →
    t.kind.precedence ≤ op.precedence
  first : ∀ j t, p ≤ j → j < i → tokens[j]? = some t → heightAt tokens p j = 0 →
    t.kind.precedence < op.precedence
  left : Nested (tokens.extract p i)
  right : Nested (tokens.extract (i + 1) (q + 1))

variable {span : List Token}

/-! ## Heights -/

theorem height_append (front back : List Token) :
    height (front ++ back) = height front + height back := by
  induction front with
  | nil => rw [List.nil_append, height, Int.zero_add]
  | cons t rest ih => rw [List.cons_append, height, ih, height, Int.add_assoc]

/-- Where there is a depth after some tokens, the height is what it has grown by. -/
theorem depthAfter_eq_height :
    ∀ {depth after : Nat}, depthAfter depth span = some after →
      (after : Int) = depth + height span := by
  induction span with
  | nil =>
      intro depth after h
      cases h
      exact (Int.add_zero _).symm
  | cons t rest ih =>
      intro depth after h
      rw [height]
      simp only [depthAfter] at h
      split at h
      · next left =>
        rw [ih h, Token.rise_leftParen left]
        push_cast
        omega
      · next right =>
        split at h
        · cases h
        · rw [ih h, Token.rise_rightParen right]
          omega
      · next left right => rw [ih h, Token.rise_other left right, Int.zero_add]

/-- No front of balanced tokens is below zero, and it is balanced at zero. -/
theorem Balanced.front {front back : List Token} (h : Balanced (front ++ back)) :
    0 ≤ height front ∧ (Balanced front ↔ height front = 0) := by
  rw [Balanced, depthAfter_append] at h
  obtain ⟨depth, there, -⟩ := Option.bind_eq_some_iff.mp h
  have grown := depthAfter_eq_height there
  rw [Balanced, there, Option.some.injEq]
  omega

theorem Balanced.height_eq (h : Balanced span) : height span = 0 := by
  have grown := depthAfter_eq_height h
  omega

/-! ## Balanced tokens are nested -/

/-- Where more parentheses are closed than were opened, one closes the parenthesis before. -/
theorem exists_close {span : List Token} :
    ∀ {depth opened after : Nat}, depthAfter (depth + 1 + opened) span = some after →
      after ≤ depth → ∃ inner r rest, span = inner ++ r :: rest ∧ r.kind = .rightParen ∧
        depthAfter opened inner = some 0 ∧ depthAfter depth rest = some after := by
  induction span with
  | nil =>
      intro depth opened after h below
      cases h
      omega
  | cons t rest ih =>
      intro depth opened after h below
      simp only [depthAfter] at h
      split at h
      · next left =>
        obtain ⟨inner, r, more, rfl, right, closed, back⟩ :=
          @ih depth (opened + 1) after h below
        exact ⟨t :: inner, r, more, rfl, right, by simpa only [depthAfter, left], back⟩
      · next right =>
        rw [if_neg (by omega)] at h
        cases opened with
        | zero => exact ⟨[], t, rest, rfl, right, rfl, h⟩
        | succ opened =>
            obtain ⟨inner, r, more, rfl, right', closed, back⟩ :=
              @ih depth opened after h below
            refine ⟨t :: inner, r, more, rfl, right', ?_, back⟩
            simpa only [depthAfter, right, Nat.succ_ne_zero, if_false, Nat.add_sub_cancel] using closed
      · next left right =>
        obtain ⟨inner, r, more, rfl, right', closed, back⟩ := @ih depth opened after h below
        exact ⟨t :: inner, r, more, rfl, right', by simpa only [depthAfter], back⟩

theorem Nested.balanced (h : Nested span) : Balanced span := by
  induction h with
  | nil => rfl
  | other left right _ ih => simpa only [Balanced, depthAfter] using ih
  | @pair l r inner rest left right _ _ ih ih' =>
      have whole : l :: (inner ++ r :: rest) = l :: (inner ++ [r]) ++ rest := by simp
      rw [whole, Balanced, depthAfter_append, ih.group left right]
      exact ih'

theorem nested_of_balanced (h : Balanced span) : Nested span := by
  induction len : span.length using Nat.strongRecOn generalizing span with
  | _ n ih =>
      cases span with
      | nil => exact .nil
      | cons t rest =>
          rw [List.length_cons] at len
          simp only [Balanced, depthAfter] at h
          split at h
          · next left =>
            obtain ⟨inner, r, more, rfl, right, closed, back⟩ :=
              @exists_close rest 0 0 0 h (Nat.le_refl 0)
            rw [List.length_append, List.length_cons] at len
            exact .pair left right (ih _ (by omega) closed rfl) (ih _ (by omega) back rfl)
          · cases h
          · next left right => exact .other left right (ih _ (by omega) h rfl)

/-! ## Positions -/

section Positions
variable {tokens : List Token} {p q j stop : Nat} {t : Token}

theorem extract_split (low : p ≤ j) (high : j < stop) (there : tokens[j]? = some t) :
    tokens.extract p stop = tokens.extract p j ++ t :: tokens.extract (j + 1) stop := by
  obtain ⟨inside, rfl⟩ := List.getElem?_eq_some_iff.mp there
  have rest : (tokens.drop j).take (stop - j) =
      tokens[j] :: (tokens.drop (j + 1)).take (stop - (j + 1)) := by
    rw [List.drop_eq_getElem_cons inside, show stop - j = stop - (j + 1) + 1 by omega,
      List.take_succ_cons]
  have sum : stop - p = (j - p) + (stop - j) := by omega
  simp only [List.extract_eq_take_drop]
  rw [sum, List.take_add, List.drop_drop, show p + (j - p) = j by omega, rest]

theorem extract_empty : tokens.extract p p = [] := by
  rw [List.extract_eq_take_drop, Nat.sub_self, List.take_zero]

theorem length_extract (low : p ≤ j) (high : j ≤ tokens.length) :
    (tokens.extract p j).length = j - p := by
  simp only [List.extract_eq_take_drop, List.length_take, List.length_drop]
  omega

theorem eq_append_extract (order : p ≤ stop) :
    tokens = tokens.take p ++ (tokens.extract p stop ++ tokens.drop stop) := by
  have behind : tokens.drop stop = (tokens.drop p).drop (stop - p) := by
    rw [List.drop_drop, show p + (stop - p) = stop by omega]
  rw [List.extract_eq_take_drop, behind, List.take_append_drop, List.take_append_drop]

/-- The parts of a range that is cut, by their positions. -/
theorem extract_cut {left right : List Token}
    (shape : tokens.extract p stop = left ++ t :: right) :
    ∃ i, p + left.length = i ∧ i < stop ∧ tokens[i]? = some t ∧
      left = tokens.extract p i ∧ right = tokens.extract (i + 1) stop := by
  have bound := congrArg List.length shape
  simp only [List.extract_eq_take_drop, List.length_take, List.length_drop, List.length_append,
    List.length_cons] at bound
  have there := congrArg (fun span => span[left.length]?) shape
  simp only [List.extract_eq_take_drop, List.getElem?_take, List.getElem?_drop] at there
  rw [if_pos (by omega), List.getElem?_append_right (Nat.le_refl _), Nat.sub_self] at there
  have inside : p + left.length < stop := by omega
  rw [extract_split (Nat.le_add_right p _) inside there] at shape
  obtain ⟨front, back⟩ := List.append_inj shape (by rw [length_extract] <;> omega)
  exact ⟨_, rfl, inside, there, front.symm, (List.cons.inj back).2.symm⟩

/-! ## A pair around a range -/

/-- The last parenthesis of a range closes the first one where what is between them is nested. -/
theorem Closes.of_nested {l r : Token} (order : p < q) (left : tokens[p]? = some l)
    (right : tokens[q]? = some r) (opens : l.kind = .leftParen) (closes : r.kind = .rightParen)
    (between : Nested (tokens.extract (p + 1) q)) : Closes tokens p q := by
  have first : ∀ {i}, p < i →
      tokens.extract p i = l :: tokens.extract (p + 1) i := fun {i} behind => by
    rw [extract_split (Nat.le_refl p) behind left, extract_empty, List.nil_append]
  have balanced := between.balanced
  constructor
  · rw [heightAt, first (Nat.lt_succ_of_lt order),
      extract_split order (Nat.lt_succ_self q) right, extract_empty, height, height_append,
      height, balanced.height_eq, Token.rise_leftParen opens, Token.rise_rightParen closes]
    rfl
  · intro i behind upTo zero
    rw [heightAt, first behind, height, Token.rise_leftParen opens] at zero
    -- a front of what is between the two is not below zero
    have front : 0 ≤ height (tokens.extract (p + 1) i) := by
      obtain rfl | before := Nat.eq_or_lt_of_le upTo
      · exact Int.le_of_eq balanced.height_eq.symm
      · obtain ⟨inside, -⟩ := List.getElem?_eq_some_iff.mp right
        have there : tokens[i]? = some tokens[i] := List.getElem?_eq_getElem (by omega)
        rw [extract_split behind before there] at balanced
        exact balanced.front.1
    omega

theorem extract_ends {l r : Token} (order : p < q) (left : tokens[p]? = some l)
    (right : tokens[q]? = some r) :
    tokens.extract p (q + 1) = l :: (tokens.extract (p + 1) q ++ [r]) := by
  rw [extract_split (Nat.le_refl p) (Nat.lt_succ_of_lt order) left, extract_empty,
    List.nil_append, extract_split order (Nat.lt_succ_self q) right, extract_empty]

theorem wrapped_extract_iff (order : p < q) (inside : q < tokens.length) :
    wrapped (tokens.extract p (q + 1)) = true ↔ Groups tokens p q := by
  have left : tokens[p]? = some tokens[p] := List.getElem?_eq_getElem _
  have right : tokens[q]? = some tokens[q] := List.getElem?_eq_getElem _
  have shape := extract_ends order left right
  constructor
  · intro group
    obtain ⟨l, middle, r, same, opens, closes, balanced⟩ := wrapped_iff.mp group
    obtain ⟨rfl, tail⟩ := List.cons.inj (shape.symm.trans same)
    obtain ⟨rfl, last⟩ := List.append_inj' tail rfl
    obtain rfl := List.singleton_inj.mp last
    have between := nested_of_balanced balanced
    exact ⟨⟨_, left, opens⟩, ⟨_, right, closes⟩,
      .of_nested order left right opens closes between, between⟩
  · rintro ⟨⟨l, atFirst, opens⟩, ⟨r, atLast, closes⟩, -, between⟩
    rw [extract_ends order atFirst atLast, wrapped_iff]
    exact ⟨l, _, r, rfl, opens, closes, between.balanced⟩

/-! ## The operator that cuts a range -/

theorem mem_outer_iff {op : Operator} {after : Nat} (h : depthAfter 0 span = some after) :
    op ∈ outer 0 span ↔
      ∃ left t right, span = left ++ t :: right ∧ t.kind.operator? = some op ∧ Balanced left := by
  constructor
  · intro mem
    obtain ⟨found, listed, rfl⟩ := List.mem_map.mp mem
    obtain ⟨before, behind, split⟩ := List.append_of_mem listed
    obtain ⟨left, t, right, shape, -, operator, balanced, -⟩ := cutAt_of_outerOperators h split
    exact ⟨left, t, right, shape, operator, balanced⟩
  · rintro ⟨left, t, right, rfl, operator, balanced⟩
    rw [outer_append balanced, outer_cons_operator operator]
    exact List.mem_append_right _ List.mem_cons_self

/-- What holds of the operators outside parentheses holds on both sides of one, and of that one. -/
theorem forall_outer_cut {P : Operator → Prop} {left right : List Token} {op : Operator}
    (front : Balanced left) (operator : t.kind.operator? = some op) :
    (∀ o ∈ outer 0 (left ++ t :: right), P o) ↔
      (∀ o ∈ outer 0 left, P o) ∧ P op ∧ ∀ o ∈ outer 0 right, P o := by
  rw [outer_append front, outer_cons_operator operator, List.forall_mem_append,
    List.forall_mem_cons]

theorem precedence_of_operator {op : Operator} (h : t.kind.operator? = some op) :
    t.kind.precedence = op.precedence := by
  rw [TokenKind.precedence, h, Option.map_some, Option.getD_some]

/-- Bounding the operators outside parentheses is bounding all tokens at height zero. -/
theorem outer_extract_lt_iff {bound : Nat} (positive : 0 < bound)
    (balanced : Balanced (tokens.extract p stop)) :
    (∀ op ∈ outer 0 (tokens.extract p stop), op.precedence < bound) ↔
      ∀ j t, p ≤ j → j < stop → tokens[j]? = some t → heightAt tokens p j = 0 →
        t.kind.precedence < bound := by
  constructor
  · intro below j t low high there zero
    cases operator : t.kind.operator? with
    | none =>
        rw [TokenKind.precedence, operator]
        exact positive
    | some op =>
        have shape := extract_split low high there
        rw [precedence_of_operator operator]
        refine below op ((mem_outer_iff balanced).mpr ⟨_, t, _, shape, operator, ?_⟩)
        rw [shape] at balanced
        exact balanced.front.2.mpr zero
  · intro below op mem
    obtain ⟨left, t, right, shape, operator, front⟩ := (mem_outer_iff balanced).mp mem
    obtain ⟨j, index, high, there, rfl, -⟩ := extract_cut shape
    rw [← precedence_of_operator operator]
    exact below j t (by omega) high there front.height_eq

theorem parting_extract_iff {place : Nat} {op : Operator} (inside : q < tokens.length) :
    parting p (tokens.extract p (q + 1)) = .ok (place, op) ↔ Splits tokens p q (p + place) op := by
  rw [parting_eq_ok_iff]
  constructor
  · rintro ⟨left, t, right, shape, rfl, operator, front, back, before, behind⟩
    have whole := (balanced_append_operator operator front).mpr back
    have loosest : ∀ o ∈ outer 0 (left ++ t :: right), o.precedence < op.precedence + 1 :=
      (forall_outer_cut front operator).mpr ⟨fun o mem => Nat.lt_succ_of_lt (before o mem),
        Nat.lt_succ_self _, fun o mem => Nat.lt_succ_of_le (behind o mem)⟩
    rw [← shape] at whole loosest
    obtain ⟨i, index, high, there, rfl, rfl⟩ := extract_cut shape
    rw [index]
    exact {
      inside := ⟨by omega, Nat.le_of_lt_succ high⟩
      operator := ⟨t, there, operator⟩
      outside := front.height_eq
      loosest := fun j t low high there zero => Nat.le_of_lt_succ
        ((outer_extract_lt_iff (Nat.succ_pos _) whole).mp loosest j t low
          (Nat.lt_succ_of_le high) there zero)
      first := (outer_extract_lt_iff op.precedence_pos front).mp before
      left := nested_of_balanced front
      right := nested_of_balanced back }
  · intro splits
    obtain ⟨low, high⟩ := splits.inside
    obtain ⟨t, there, operator⟩ := splits.operator
    have shape := extract_split low (Nat.lt_succ_of_le high) there
    have front := splits.left.balanced
    have back := splits.right.balanced
    have whole := (balanced_append_operator operator front).mpr back
    refine ⟨_, t, _, shape, ?_, operator, front, back, ?_, fun o mem => ?_⟩
    · rw [length_extract] <;> omega
    · exact (outer_extract_lt_iff op.precedence_pos front).mpr splits.first
    · rw [← shape] at whole
      have loosest := (outer_extract_lt_iff (Nat.succ_pos _) whole).mpr
        fun j t low high there zero => Nat.lt_succ_of_le
          (splits.loosest j t low (Nat.le_of_lt_succ high) there zero)
      rw [shape, forall_outer_cut front operator] at loosest
      exact Nat.le_of_lt_succ (loosest.2.2 o mem)

end Positions

end Evaluation

/-! ## What the scans find -/

open Evaluation

/-- In a range of few parentheses a pair is taken to be around the whole exactly where its ends are a
pair of parentheses with whole pairs between them, and the range is cut exactly at an operator
outside parentheses that is looser than every one before it, no tighter than those behind it and
between two sides of whole pairs.  By position, and with every count checked, the scans find the
same without a fault. -/
theorem scans_find_structure {tokens : List Token} {p q : Nat} (order : p < q)
    (inside : q < tokens.length) (few : FewParens (tokens.extract p (q + 1))) :
    (enclosed (tokens.extract p (q + 1)) = true ↔ Groups tokens p q) ∧
    (∀ place op, pivot p (tokens.extract p (q + 1)) = .ok (place, op) ↔
      Splits tokens p q (p + place) op) ∧
    Checked.isGroup tokens p q = pure (enclosed (tokens.extract p (q + 1))) ∧
    ∃ r, Checked.master tokens p q 0 0 none p (Nat.le_refl p) = Checked.safe r ∧
      r.map Subtype.val = (pivot p (tokens.extract p (q + 1))).map fun found => p + found.1 := by
  have shape := @eq_append_extract tokens p (q + 1) (by omega)
  have start : p = (tokens.take p).length := by rw [List.length_take]; omega
  have length : (tokens.extract p (q + 1)).length = q + 1 - p := length_extract (by omega) inside
  refine ⟨?_, fun place op => ?_, ?_, Checked.master_pivot shape start (by omega) few⟩
  · rw [enclosed_eq_wrapped few]
    exact wrapped_extract_iff order inside
  · rw [pivot_eq_parting few]
    exact parting_extract_iff inside
  · have ends := extract_ends order (List.getElem?_eq_getElem (by omega))
      (List.getElem?_eq_getElem inside)
    have between : (tokens.extract (p + 1) q).length = q - (p + 1) :=
      length_extract order (Nat.le_of_lt inside)
    rw [ends] at shape few ⊢
    exact Checked.isGroup_eq shape start (by omega) few

/-- In `(1)*2-3-4`, the parentheses are a group, and the whole is cut at the first `-`. -/
theorem scans_find_structure_difference :
    let tokens : List Token := [⟨.leftParen, "("⟩, ⟨.decimal, "1"⟩, ⟨.rightParen, ")"⟩, ⟨.mul, "*"⟩,
      ⟨.decimal, "2"⟩, ⟨.sub, "-"⟩, ⟨.decimal, "3"⟩, ⟨.sub, "-"⟩, ⟨.decimal, "4"⟩]
    FewParens (tokens.extract 0 9) ∧
      Groups tokens 0 2 ∧ ¬ Groups tokens 0 8 ∧ Splits tokens 0 8 5 (.binary .sub) ∧
      Checked.isGroup tokens 0 2 = pure true ∧
      ∃ r, Checked.master tokens 0 8 0 0 none 0 (Nat.le_refl 0) = Checked.safe r ∧
        r.map Subtype.val = .ok 5 := by
  intro tokens
  have few : FewParens (tokens.extract 0 9) := .of_length_lt (by decide)
  obtain ⟨group, -, positional, -⟩ :=
    @scans_find_structure tokens 0 2 (by decide) (by decide) (.of_length_lt (by decide))
  obtain ⟨whole, cut, -, r, found, same⟩ :=
    @scans_find_structure tokens 0 8 (by decide) (by decide) few
  have pivot_eq : pivot 0 (tokens.extract 0 9) = .ok (5, .binary .sub) := rfl
  refine ⟨few, group.mp (by decide), fun h => absurd (whole.mpr h) (by decide),
    (cut 5 _).mp pivot_eq, positional, r, found, ?_⟩
  rw [same, pivot_eq]
  rfl

section Nest
variable {n : Nat} {t : Token}

theorem extract_nest (n : Nat) (t : Token) : (nest n t).extract 0 (2 * n + 1) = nest n t := by
  have length := length_nest n t
  rw [List.extract_eq_take_drop, List.drop_zero, List.take_of_length_le (by omega)]

theorem groups_nest (some : 0 < n) (left : t.kind ≠ .leftParen) (right : t.kind ≠ .rightParen) :
    Groups (nest n t) 0 (2 * n) := by
  have length := length_nest n t
  obtain ⟨k, rfl⟩ : ∃ k, n = k + 1 := ⟨n - 1, by omega⟩
  rw [← wrapped_extract_iff (by omega) (by omega), extract_nest, nest_succ]
  exact wrapped_iff.mpr ⟨_, _, _, rfl, rfl, rfl, balanced_nest left right k⟩

end Nest

/-- The pair around a token in `2 ^ 31` pairs of parentheses is missed. -/
theorem group_missed_in_nest :
    let tokens : List Token := nest (2 ^ 31) ⟨.decimal, "1"⟩
    2 ^ 32 < tokens.length ∧ Groups tokens 0 (2 ^ 32) ∧
      ¬ enclosed (tokens.extract 0 (2 ^ 32 + 1)) = true := by
  intro tokens
  have double : 2 * 2 ^ 31 = 2 ^ 32 := by decide
  have length : tokens.length = 2 * 2 ^ 31 + 1 := length_nest _ _
  have groups : Groups tokens 0 (2 * 2 ^ 31) := groups_nest (by decide) (by decide) (by decide)
  have whole : tokens.extract 0 (2 * 2 ^ 31 + 1) = tokens := extract_nest _ _
  rw [double] at length groups whole
  refine ⟨by rw [length]; exact Nat.lt_succ_self _, groups, ?_⟩
  rw [whole, enclosed_nest rfl]
  exact Bool.false_ne_true

end HartMonitor
