/-
# `HartMonitor.Proofs.Expression.Range` — evaluation by position never faults

A range of tokens is known by the indices of its ends, of which the last may be one less
than the first.  Going by position, it is cut where its span is cut:

    value_cons_blank, value_concat_blank     a blank at an end is passed over
    value_singleton                          one token is an operand
    value_solid                              a pair encloses it, or its pivot cuts it

One is taken from an index only where the range has a token before it, and so a range has the
value of its span (`HasValueOfSpan`), by induction on its length.
-/
import HartMonitor.Proofs.Expression.Agreement
import HartMonitor.Proofs.Expression.Offset
import HartMonitor.Proofs.Expression.Scans
import HartMonitor.Proofs.Expression.Spelling

namespace HartMonitor

namespace Evaluation

/-! ## Blanks at the ends of a span -/

section Trim
variable {m : Machine} {start start' : Nat} {span span' : List Token} {t u : Token}

theorem trimBlanks_cons (blank : t.isBlank = true) (span : List Token) :
    trimBlanks (t :: span) = trimBlanks span := by
  rw [trimBlanks, List.dropWhile_cons_of_pos blank, trimBlanks]

theorem trimBlanks_concat (blank : u.isBlank = true) (solid : t.isBlank = false)
    (span : List Token) :
    trimBlanks (t :: (span ++ [u])) = trimBlanks (t :: span) := by
  have first : ∀ span, (t :: span).dropWhile Token.isBlank = t :: span :=
    fun span => List.dropWhile_cons_of_neg (by rw [solid]; exact Bool.false_ne_true)
  rw [trimBlanks, trimBlanks, first, first, ← List.cons_append, List.reverse_concat,
    List.dropWhile_cons_of_pos blank]

/-- What is left of a span without the blanks, and where that starts, decide on its value. -/
theorem evalSpan_congr (same : trimBlanks span = trimBlanks span')
    (place : start + leadingBlanks span = start' + leadingBlanks span')
    (stop : trimBlanks span = [] → start + span.length = start' + span'.length) :
    evalSpan m start span = evalSpan m start' span' := by
  match h : trimBlanks span with
  | [] => rw [evalSpan_nil m start h, evalSpan_nil m start' (same ▸ h), stop h]
  | [t] => rw [evalSpan_singleton m start h, evalSpan_singleton m start' (same ▸ h)]
  | t :: u :: more =>
      rw [evalSpan_several m start h, evalSpan_several m start' (same ▸ h), place]

theorem evalSpan_cons_blank (blank : t.isBlank = true) (start : Nat) (span : List Token) :
    evalSpan m start (t :: span) = evalSpan m (start + 1) span := by
  refine evalSpan_congr (trimBlanks_cons blank span) ?_ fun _ => ?_
  · rw [leadingBlanks, List.takeWhile_cons_of_pos blank, List.length_cons, leadingBlanks]
    omega
  · rw [List.length_cons]
    omega

theorem evalSpan_concat_blank (blank : u.isBlank = true) (solid : t.isBlank = false) (start : Nat)
    (span : List Token) :
    evalSpan m start (t :: (span ++ [u])) = evalSpan m start (t :: span) := by
  refine evalSpan_congr (trimBlanks_concat blank solid span) ?_ fun none => ?_
  · rw [leadingBlanks_of_solid solid, leadingBlanks_of_solid solid]
  · have kept := significant_trimBlanks (t :: (span ++ [u]))
    rw [none] at kept
    simp [significant, solid] at kept

end Trim

/-- The value of a span of several tokens that neither begins nor ends with a blank. -/
theorem evalSpan_solid {m : Machine} {t u : Token} (first : t.isBlank = false)
    (last : u.isBlank = false) (start : Nat) (span : List Token) :
    evalSpan m start (t :: (span ++ [u])) =
      if enclosed (t :: (span ++ [u])) then evalSpan m (start + 1) span
      else
        match pivot start (t :: (span ++ [u])) with
        | .error e => .error e
        | .ok (place, .deref) =>
          if place = 0 then do
            let addr ← evalSpan m (start + 1) (span ++ [u])
            dereference m addr
          else .error (.misplacedUnary (start + place))
        | .ok (place, .binary op) =>
          if place = 0 then .error (.missingOperand start)
          else (do
            let a ← evalSpan m start ((t :: (span ++ [u])).take place)
            let b ← evalSpan m (start + place + 1) ((t :: (span ++ [u])).drop (place + 1))
            op.apply a b) := by
  have trimmed := trimBlanks_solid first last span
  have leading := leadingBlanks_of_solid first (span ++ [u])
  obtain ⟨x, more, shape⟩ : ∃ x more, span ++ [u] = x :: more :=
    List.exists_cons_of_ne_nil (by simp)
  rw [shape] at trimmed leading ⊢
  have inner : (x :: more).dropLast = span := by rw [← shape, List.dropLast_concat]
  have opened := evalSpan_several m start trimmed
  simp only [leading, Nat.add_zero, inner] at opened
  exact opened

end Evaluation

namespace Checked

open Evaluation

variable {tokens front back span : List Token} {t : Token}

/-! ## Operands and operators -/

/-- The digits of a literal in base sixteen are behind the first two bytes of its text. -/
theorem operand_eq (m : Machine) (spelled : t.WellSpelled) :
    operand m t = safe (Evaluation.operand m t) := by
  obtain ⟨kind, text⟩ := t
  cases kind with
  | hex =>
      obtain ⟨digits, chars, -, -⟩ := spelled
      replace chars : text.toList = ['0', 'x'] ++ digits := chars
      have whole : text.toList = ['0', 'x'] ++ (digits ++ []) := by rw [List.append_nil, chars]
      have size : text.utf8ByteSize = Lexer.byteLength ['0', 'x'] + Lexer.byteLength digits := by
        rw [← Lexer.byteLength_append, ← chars, Lexer.byteLength, String.ofList_toList]
      have cut := slice_append whole
      rw [← size] at cut
      have behind : dropBytes 2 text.toList = digits := by
        rw [chars]
        simp [dropBytes, Char.utf8Size]
      simp only [operand, Evaluation.operand, behind]
      show slice text (Lexer.byteLength ['0', 'x']) _ >>= _ = _
      rw [cut, pure_bind, String.toList_ofList]
  | _ => rfl

theorem apply_eq {kind : TokenKind} {op : BinaryOp} (h : kind.operator? = some (.binary op))
    (a b : Word) : apply kind a b = safe (op.apply a b) := by
  simp only [apply, h]
  cases op with
  | div =>
      simp only [BinaryOp.apply, quotient]
      split <;> rfl
  | _ => rfl

/-! ## The value of a range -/

section Range
variable (m : Machine) {first last : Nat} {u : Token}

theorem before_succ (i : Nat) : before (i + 1) = pure ⟨i, rfl⟩ := rfl

theorem value_nil (empty : last + 1 = first) :
    value m tokens first last = throw (.missingOperand first) := by
  rw [value, if_pos (by omega)]

/-- A blank at the front of a range is passed over. -/
theorem value_cons_blank (shape : tokens = front ++ t :: back) (place : first = front.length)
    (stop : first ≤ last) (blank : t.kind = .blank) :
    value m tokens first last = value m tokens (first + 1) last := by
  rw [value, if_neg (Nat.not_lt.mpr stop), tokenAt_eq shape place, pure_bind, if_pos blank]

theorem value_singleton (shape : tokens = front ++ t :: back) (place : first = front.length)
    (solid : t.kind ≠ .blank) : value m tokens first first = operand m t := by
  rw [value, if_neg (Nat.lt_irrefl first), tokenAt_eq shape place, pure_bind, if_neg solid,
    pure_bind, if_neg solid, if_pos rfl, pure_bind]

section Several
variable (shape : tokens = front ++ (t :: (span ++ [u]) ++ back))
  (place : first = front.length) (stop : last = first + span.length + 1)
include shape place stop

/-- A blank at the end of a range is passed over. -/
theorem value_concat_blank (solid : t.kind ≠ .blank) (blank : u.kind = .blank) :
    value m tokens first last = value m tokens first (last - 1) := by
  obtain ⟨atFirst, atLast⟩ := tokenAt_ends shape place stop
  obtain ⟨last', same⟩ : ∃ k, last = k + 1 := ⟨_, stop⟩
  rw [value, if_neg (by omega), atFirst, pure_bind, if_neg solid, atLast, pure_bind,
    if_pos blank, same, before_succ, pure_bind, Nat.add_sub_cancel]

/-- A range that neither begins nor ends with a blank is cut where its span is cut. -/
theorem value_solid (few : FewParens (t :: (span ++ [u]))) (solid : t.kind ≠ .blank)
    (solid' : u.kind ≠ .blank) :
    value m tokens first last =
      if enclosed (t :: (span ++ [u])) then value m tokens (first + 1) (last - 1)
      else
        match pivot first (t :: (span ++ [u])) with
        | .error e => throw e
        | .ok (n, .deref) =>
          if n = 0 then do
            let addr ← value m tokens (first + 1) last
            safe (dereference m addr)
          else throw (.misplacedUnary (first + n))
        | .ok (n, .binary op) =>
          if n = 0 then throw (.missingOperand first)
          else (do
            let a ← value m tokens first (first + n - 1)
            let b ← value m tokens (first + n + 1) last
            safe (op.apply a b)) := by
  have count : (t :: (span ++ [u])).length = span.length + 2 := by simp
  obtain ⟨atFirst, atLast⟩ := tokenAt_ends shape place stop
  obtain ⟨last', same⟩ : ∃ k, last = k + 1 := ⟨_, stop⟩
  rw [value, if_neg (by omega), atFirst, pure_bind, if_neg solid, atLast, pure_bind,
    if_neg solid', if_neg (by omega), isGroup_eq shape place stop few, pure_bind]
  by_cases group : enclosed (t :: (span ++ [u])) = true
  · rw [if_pos group, if_pos group, same, before_succ, pure_bind, Nat.add_sub_cancel]
  rw [if_neg group, if_neg group]
  have whole : last + 1 = first + (t :: (span ++ [u])).length := by omega
  cases hp : pivot first (t :: (span ++ [u])) with
  | error e =>
      rw [master_of_pivot_error shape place whole few hp]
      rfl
  | ok cut =>
      obtain ⟨n, op⟩ := cut
      obtain ⟨inside, x, found, there, operator⟩ :=
        master_of_pivot shape place whole few hp
      rw [found, pure_bind]
      dsimp only
      rw [there, pure_bind]
      cases op with
      | deref =>
          dsimp only
          rw [if_pos (TokenKind.operator?_eq_deref.mp operator)]
          by_cases zero : n = 0
          · rw [if_neg (by omega), if_pos zero]
          · rw [if_pos (by omega), if_neg zero]
      | binary op =>
          dsimp only
          have other : x.kind ≠ .deref := by
            intro deref
            rw [deref] at operator
            cases operator
          rw [if_neg other]
          cases n with
          | zero => rw [if_pos (Nat.add_zero first), if_pos rfl]
          | succ k =>
              rw [if_neg (by omega), if_neg (Nat.succ_ne_zero k)]
              simp only [apply_eq operator]
              rfl

end Several

end Range

/-! ## Ranges and spans -/

/-- Wherever a span stands among the tokens, its range has its value. -/
def HasValueOfSpan (m : Machine) (tokens span : List Token) : Prop :=
  ∀ ⦃front back : List Token⦄ ⦃first last : Nat⦄, tokens = front ++ (span ++ back) →
    first = front.length → last + 1 = first + span.length →
    value m tokens first last = safe (evalSpan m first span)

namespace HasValueOfSpan

variable {m : Machine} {u : Token}

theorem nil : HasValueOfSpan m tokens [] := by
  intro front back first last _ _ stop
  have empty : last + 1 = first := stop
  rw [value_nil m empty, evalSpan_nil m first rfl]
  rfl

theorem cons_blank (blank : t.kind = .blank) (rest : HasValueOfSpan m tokens span) :
    HasValueOfSpan m tokens (t :: span) := by
  intro front back first last shape place stop
  have next : tokens = (front ++ [t]) ++ (span ++ back) := by simp [shape]
  rw [List.length_cons] at stop
  rw [value_cons_blank m shape place (by omega) blank, evalSpan_cons_blank (beq_iff_eq.mpr blank)]
  exact rest next (by simp [place]) (by omega)

theorem singleton (spelled : ∀ t ∈ tokens, t.WellSpelled) (solid : t.kind ≠ .blank) :
    HasValueOfSpan m tokens [t] := by
  intro front back first last shape place stop
  have member : t ∈ tokens := by simp [shape]
  have single : last = first := Nat.succ.inj stop
  have alone : trimBlanks [t] = [t] := by simp [trimBlanks, Token.isBlank, solid]
  rw [single, value_singleton m shape place solid, operand_eq m (spelled t member),
    evalSpan_singleton m first alone]

theorem concat_blank (solid : t.kind ≠ .blank) (blank : u.kind = .blank)
    (rest : HasValueOfSpan m tokens (t :: span)) :
    HasValueOfSpan m tokens (t :: (span ++ [u])) := by
  intro front back first last shape place stop
  have next : tokens = front ++ ((t :: span) ++ (u :: back)) := by simp [shape]
  rw [List.length_cons, List.length_append, List.length_singleton] at stop
  rw [value_concat_blank m shape place (by omega) solid blank,
    evalSpan_concat_blank (beq_iff_eq.mpr blank) (beq_eq_false_iff_ne.mpr solid)]
  exact rest next place (by rw [List.length_cons]; omega)

/-- The parts of a range have the values of their spans, and so it has the value of its own. -/
theorem solid (few : FewParens tokens) (first : t.kind ≠ .blank)
    (last : u.kind ≠ .blank)
    (parts : ∀ inner : List Token, inner.length < span.length + 2 → HasValueOfSpan m tokens inner) :
    HasValueOfSpan m tokens (t :: (span ++ [u])) := by
  intro front back i j shape place stop
  rw [List.length_cons, List.length_append, List.length_singleton] at stop
  have next : tokens = (front ++ [t]) ++ ((span ++ [u]) ++ back) := by simp [shape]
  have place' : i + 1 = (front ++ [t]).length := by simp [place]
  rw [shape] at few
  have few : FewParens (t :: (span ++ [u])) := few.back.front
  rw [value_solid m shape place (by omega) few first last,
    evalSpan_solid (beq_eq_false_iff_ne.mpr first) (beq_eq_false_iff_ne.mpr last)]
  by_cases group : enclosed (t :: (span ++ [u])) = true
  · have inside : tokens = (front ++ [t]) ++ (span ++ ([u] ++ back)) := by simp [shape]
    rw [if_pos group, if_pos group]
    exact parts span (by omega) inside place' (by omega)
  rw [if_neg group, if_neg group]
  cases hp : pivot i (t :: (span ++ [u])) with
  | error e => rfl
  | ok cut =>
      obtain ⟨n, op⟩ := cut
      cases op with
      | deref =>
          dsimp only
          by_cases zero : n = 0
          · have count : (span ++ [u]).length = span.length + 1 := by simp
            rw [if_pos zero, if_pos zero]
            exact bind_eq_safe (parts (span ++ [u]) (by omega) next place' (by omega))
              fun _ _ => rfl
          · rw [if_neg zero, if_neg zero]
            rfl
      | binary op =>
          dsimp only
          by_cases zero : n = 0
          · rw [if_pos zero, if_pos zero]
            rfl
          obtain ⟨left, x, right, split, rfl, -⟩ := (pivot_eq_ok_iff few).mp hp
          have count : span.length + 2 = left.length + (right.length + 1) := by
            simpa using congrArg List.length split
          have toLeft : tokens = front ++ (left ++ (x :: right ++ back)) := by
            rw [shape, split, List.append_assoc]
          have toRight : tokens = (front ++ left ++ [x]) ++ (right ++ back) := by simp [toLeft]
          have placeRight : i + left.length + 1 = (front ++ left ++ [x]).length := by
            simp [place, Nat.add_assoc]
          have behind : (left ++ x :: right).drop (left.length + 1) = right := by
            rw [← List.drop_drop, List.drop_left]
            rfl
          rw [if_neg zero, if_neg zero, split, List.take_left, behind]
          refine bind_eq_safe (parts left (by omega) toLeft place (by omega)) fun _ _ => ?_
          exact bind_eq_safe (parts right (by omega) toRight placeRight (by omega)) fun _ _ => rfl

theorem of_wellSpelled (few : FewParens tokens)
    (spelled : ∀ t ∈ tokens, t.WellSpelled) (span : List Token) :
    HasValueOfSpan m tokens span := by
  induction hn : span.length using Nat.strong_induction_on generalizing span with
  | _ n ih =>
    match span with
    | [] => exact nil
    | t :: rest =>
      rw [List.length_cons] at hn
      by_cases blank : t.kind = .blank
      · exact cons_blank blank (ih _ (by omega) rest rfl)
      obtain rfl | ⟨init, u, rfl⟩ := rest.eq_nil_or_concat'
      · exact singleton spelled blank
      rw [List.length_append, List.length_singleton] at hn
      by_cases blank' : u.kind = .blank
      · exact concat_blank blank blank' (ih _ (by rw [← hn]; simp) (t :: init) rfl)
      · exact solid few blank blank' fun inner shorter => ih _ (by omega) inner rfl

end HasValueOfSpan

theorem valueOf_eq (m : Machine) (few : FewParens tokens)
    (spelled : ∀ t ∈ tokens, t.WellSpelled) : valueOf m tokens = safe (evalTokens m tokens) := by
  rw [valueOf, evalTokens]
  by_cases blank : tokens.all Token.isBlank = true
  · rw [if_pos blank, if_pos blank]
    rfl
  rw [if_neg blank, if_neg blank]
  cases tokens with
  | nil => exact absurd rfl blank
  | cons t rest =>
      have whole : t :: rest = [] ++ ((t :: rest) ++ []) := by rw [List.nil_append, List.append_nil]
      show value m (t :: rest) 0 rest.length = _
      exact HasValueOfSpan.of_wellSpelled few spelled (t :: rest) whole rfl (by simp)

end Checked

/-- The evaluation of an expression never faults, whatever the text and the machine.  With every
operation checked it ends in the value or the error that evaluation gives: no token is read
outside the list, nothing is taken from an index of zero, the text and its literals are cut only
between two characters, no counter overflows, no quotient by zero is taken, and an operator that is
applied takes two operands. -/
theorem evaluation_never_faults (m : Machine) (text : String) :
    (Checked.evaluate m text).run = .ok (evaluate m text) := by
  show Checked.evaluate m text = Checked.safe (evaluate m text)
  refine Checked.bind_eq_safe (Checked.tokenize_eq text) fun tokens scanned => ?_
  exact Checked.valueOf_eq m (Lexer.fewParens_of_tokenize scanned)
    (Lexer.wellSpelled_of_tokenize scanned)

end HartMonitor
