/-
# `HartMonitor.Proofs.Expression.Agreement` — evaluation agrees with the grammar

The evaluator drops blanks where it cuts and nowhere else; none of its scans sees them
(`depthAfter_significant`, `outer_significant`).  So a span falls into the parts that its
significant tokens fall into:

    evalSpan_of_phrase     the tokens of a phrase have the value of the phrase
    phrase_of_evalSpan     a span with a value holds the tokens of a phrase

Both go by the length of the span, one case for each way in which a phrase has parts.
Positions are never asked for: they occur only in the errors of spans that hold no phrase.

The scans count parentheses in 32 bits, and all of this is about tokens that open fewer than
`2 ^ 31` of them.  A number in `2 ^ 31` pairs of parentheses is a phrase that is refused.
-/
import HartMonitor.Proofs.Expression.Counting
import HartMonitor.Proofs.Expression.Derivation
import HartMonitor.Proofs.Expression.Number

namespace HartMonitor

namespace Evaluation

/-! ## Blanks -/

theorem significant_append (xs ys : List Token) :
    significant (xs ++ ys) = significant xs ++ significant ys :=
  List.filter_append xs ys

theorem significant_cons_of_ne_blank {t : Token} (h : t.kind ≠ .blank) (rest : List Token) :
    significant (t :: rest) = t :: significant rest := by
  simp [significant, Token.isBlank, h]

theorem ne_blank_of_operator {t : Token} {op : Operator} (h : t.kind.operator? = some op) :
    t.kind ≠ .blank := by
  intro hk; rw [hk] at h; cases h

theorem depthAfter_significant {span : List Token} :
    ∀ (depth : Nat), depthAfter depth (significant span) = depthAfter depth span := by
  induction span with
  | nil => intro _; rfl
  | cons t rest ih =>
      intro depth
      by_cases hb : t.kind = .blank
      · simpa [significant, Token.isBlank, hb, depthAfter] using ih depth
      · simp only [significant_cons_of_ne_blank hb, depthAfter, ih]

theorem balanced_significant {span : List Token} : Balanced (significant span) ↔ Balanced span := by
  rw [Balanced, depthAfter_significant]; exact Iff.rfl

theorem outer_significant {span : List Token} :
    ∀ (depth : Nat), outer depth (significant span) = outer depth span := by
  suffices ∀ place place' depth, (outerOperators place depth (significant span)).map Prod.snd =
      (outerOperators place' depth span).map Prod.snd from this 0 0
  induction span with
  | nil => intro _ _ _; rfl
  | cons t rest ih =>
      intro place place' depth
      by_cases hb : t.kind = .blank
      · have gone : significant (t :: rest) = significant rest := by
          simp [significant, Token.isBlank, hb]
        rw [gone, ih place (place' + 1)]
        cases depth <;> simp only [outerOperators, hb, TokenKind.operator?]
      · simp only [significant_cons_of_ne_blank hb, outerOperators]
        split
        · exact ih _ _ _
        · exact ih _ _ _
        · split
          · simp only [List.map_cons, ih (place + 1) (place' + 1)]
          · exact ih _ _ _

theorem fewParens_significant {span : List Token} :
    FewParens (significant span) ↔ FewParens span := by
  have same : openings (significant span) = openings span := by
    rw [openings, openings, significant, List.countP_filter]
    refine List.countP_congr fun t _ => ?_
    cases hk : t.kind <;> simp [Token.isBlank, hk]
  rw [FewParens, FewParens, same]

theorem significant_dropWhile (span : List Token) :
    significant (span.dropWhile Token.isBlank) = significant span := by
  induction span with
  | nil => rfl
  | cons t rest ih =>
      by_cases hb : t.isBlank = true
      · simpa [significant, hb] using ih
      · simp [hb]

theorem significant_trimBlanks (span : List Token) :
    significant (trimBlanks span) = significant span := by
  have reverse : ∀ ts : List Token, significant ts.reverse = (significant ts).reverse :=
    fun ts => List.filter_reverse
  rw [trimBlanks, reverse, significant_dropWhile, reverse, significant_dropWhile,
    List.reverse_reverse]

theorem trimBlanks_isInfix (span : List Token) : trimBlanks span <:+: span := by
  have front : span.dropWhile Token.isBlank <:+: span := (List.dropWhile_suffix _).isInfix
  have back : (trimBlanks span).reverse <:+: (span.dropWhile Token.isBlank).reverse := by
    rw [trimBlanks, List.reverse_reverse]
    exact (List.dropWhile_suffix _).isInfix
  exact (List.reverse_infix.mp back).trans front

theorem FewParens.trimmed {span inner : List Token} (few : FewParens span)
    (h : trimBlanks span = inner) : FewParens inner := by
  rw [← h]
  exact few.of_sublist (trimBlanks_isInfix span).sublist

theorem not_isBlank_of_head?_dropWhile {ts : List Token} {t : Token}
    (h : (ts.dropWhile Token.isBlank).head? = some t) : t.isBlank = false := by
  have := List.head?_dropWhile_not Token.isBlank ts
  rwa [h] at this

theorem not_isBlank_of_head?_trimBlanks {span : List Token} {t : Token}
    (h : (trimBlanks span).head? = some t) : t.isBlank = false := by
  obtain ⟨back, hback⟩ : (span.dropWhile Token.isBlank).reverse.dropWhile Token.isBlank <:+
      (span.dropWhile Token.isBlank).reverse :=
    List.dropWhile_suffix Token.isBlank
  have front := congrArg List.reverse hback
  rw [List.reverse_append, List.reverse_reverse] at front
  have head : (span.dropWhile Token.isBlank).head? = some t := by
    rw [← front, List.head?_append]
    exact congrArg (Option.or · _) h
  exact not_isBlank_of_head?_dropWhile head

theorem not_isBlank_of_getLast?_trimBlanks {span : List Token} {t : Token}
    (h : (trimBlanks span).getLast? = some t) : t.isBlank = false := by
  rw [trimBlanks, List.getLast?_reverse] at h
  exact not_isBlank_of_head?_dropWhile h

theorem trimBlanks_solid {t u : Token} (first : t.isBlank = false) (last : u.isBlank = false)
    (span : List Token) :
    trimBlanks (t :: (span ++ [u])) = t :: (span ++ [u]) := by
  rw [trimBlanks, List.dropWhile_cons_of_neg (by simp [first]), ← List.cons_append,
    List.reverse_concat, List.dropWhile_cons_of_neg (by simp [last]), List.reverse_cons,
    List.reverse_reverse]

theorem leadingBlanks_of_solid {t : Token} (solid : t.isBlank = false) (span : List Token) :
    leadingBlanks (t :: span) = 0 := by
  rw [leadingBlanks, List.takeWhile_cons_of_neg (by rw [solid]; exact Bool.false_ne_true)]
  rfl

/-! Where the significant tokens of a span have a shape, the trimmed span has it too: the
blanks that are left stand between the parts. -/

section Shape
variable {span ts : List Token} {t : Token}

theorem eq_cons_of_significant (first : ∀ b, span.head? = some b → b.isBlank = false)
    (hs : significant span = t :: ts) : ∃ rest, span = t :: rest ∧ significant rest = ts := by
  obtain ⟨pre, rest, rfl, blank, -, hrest⟩ := List.filter_eq_cons_iff.mp hs
  cases pre with
  | nil => exact ⟨rest, rfl, hrest⟩
  | cons b more =>
      have := first b rfl
      exact absurd (blank b List.mem_cons_self) (by simp [this])

theorem eq_append_of_significant (last : ∀ b, span.getLast? = some b → b.isBlank = false)
    (hs : significant span = ts ++ [t]) : ∃ init, span = init ++ [t] ∧ significant init = ts := by
  obtain ⟨init, back, rfl, hinit, hback⟩ := List.filter_eq_append_iff.mp hs
  obtain ⟨pre, post, rfl, blank, -, hpost⟩ := List.filter_eq_cons_iff.mp hback
  rcases List.eq_nil_or_concat post with rfl | ⟨more, b, hmore⟩
  · refine ⟨init ++ pre, by rw [List.append_assoc], ?_⟩
    have gone : significant pre = [] := List.filter_eq_nil_iff.mpr blank
    rw [significant_append, gone, List.append_nil]
    exact hinit
  · rw [List.concat_eq_append] at hmore
    subst hmore
    have shape : init ++ (pre ++ t :: (more ++ [b])) = (init ++ pre ++ t :: more) ++ [b] := by simp
    have hb := last b (by rw [shape, List.getLast?_concat])
    have := List.filter_eq_nil_iff.mp hpost b (by simp)
    exact absurd this (by simp [hb])

theorem trimBlanks_eq_cons (hs : significant span = t :: ts) :
    ∃ rest, trimBlanks span = t :: rest ∧ significant rest = ts :=
  eq_cons_of_significant (fun _ => not_isBlank_of_head?_trimBlanks)
    ((significant_trimBlanks span).trans hs)

theorem trimBlanks_eq_group {l r : Token} (hs : significant span = l :: (ts ++ [r])) :
    ∃ middle, trimBlanks span = l :: (middle ++ [r]) ∧ significant middle = ts := by
  have ends : significant (trimBlanks span) = (l :: ts) ++ [r] :=
    (significant_trimBlanks span).trans hs
  obtain ⟨init, hinit, hs'⟩ :=
    eq_append_of_significant (fun _ => not_isBlank_of_getLast?_trimBlanks) ends
  have first : ∀ b, init.head? = some b → b.isBlank = false := by
    intro b hb
    have head : (trimBlanks span).head? = some b := by rw [hinit, List.head?_append, hb]; rfl
    exact not_isBlank_of_head?_trimBlanks head
  obtain ⟨middle, rfl, hm⟩ := eq_cons_of_significant first hs'
  exact ⟨middle, hinit, hm⟩

theorem trimBlanks_eq_singleton (hs : significant span = [t]) : trimBlanks span = [t] := by
  have ends : significant (trimBlanks span) = [] ++ [t] := (significant_trimBlanks span).trans hs
  obtain ⟨init, hinit, hs'⟩ :=
    eq_append_of_significant (fun _ => not_isBlank_of_getLast?_trimBlanks) ends
  cases init with
  | nil => exact hinit
  | cons b more =>
      have hb : b.isBlank = false := not_isBlank_of_head?_trimBlanks (by rw [hinit]; rfl)
      exact absurd hs' (by simp [significant, hb])

theorem trimBlanks_eq_append {left right : List Token}
    (hs : significant span = left ++ t :: right) :
    ∃ left' right', trimBlanks span = left' ++ t :: right' ∧ significant left' = left ∧
      significant right' = right := by
  rw [← significant_trimBlanks] at hs
  obtain ⟨left', back, hspan, rfl, hback⟩ := List.filter_eq_append_iff.mp hs
  obtain ⟨pre, right', rfl, blank, -, rfl⟩ := List.filter_eq_cons_iff.mp hback
  have gone : significant pre = [] := List.filter_eq_nil_iff.mpr blank
  refine ⟨left' ++ pre, right', by rw [hspan, List.append_assoc], ?_, rfl⟩
  rw [significant_append, gone, List.append_nil]; rfl

end Shape

/-! ## The steps of the evaluator -/

section Steps
variable (m : Machine) (start : Nat) {span : List Token}

theorem evalSpan_nil (h : trimBlanks span = []) :
    evalSpan m start span = .error (.missingOperand (start + span.length)) := by
  rw [evalSpan]
  split <;> simp_all

theorem evalSpan_singleton {t : Token} (h : trimBlanks span = [t]) :
    evalSpan m start span = operand m t := by
  rw [evalSpan]
  split <;> simp_all

/-- A span of several tokens is cut where a pair encloses it, or at its pivot. -/
theorem evalSpan_several {t u : Token} {more : List Token}
    (h : trimBlanks span = t :: u :: more) :
    evalSpan m start span =
      if enclosed (t :: u :: more) then
        evalSpan m (start + leadingBlanks span + 1) (u :: more).dropLast
      else
        match pivot (start + leadingBlanks span) (t :: u :: more) with
        | .error e => .error e
        | .ok (place, .deref) =>
          if place = 0 then do
            let addr ← evalSpan m (start + leadingBlanks span + 1) (u :: more)
            dereference m addr
          else .error (.misplacedUnary (start + leadingBlanks span + place))
        | .ok (place, .binary op) =>
          if place = 0 then .error (.missingOperand (start + leadingBlanks span))
          else (do
            let a ← evalSpan m (start + leadingBlanks span) ((t :: u :: more).take place)
            let b ← evalSpan m (start + leadingBlanks span + place + 1)
              ((t :: u :: more).drop (place + 1))
            op.apply a b) := by
  rw [evalSpan]
  split
  · next hn => rw [h] at hn; cases hn
  · next hn => rw [h] at hn; cases hn
  · next hn =>
    rw [h] at hn
    cases hn
    dsimp only
    by_cases closed : enclosed (t :: u :: more) = true
    · rw [if_pos closed, if_pos closed]
    · rw [if_neg closed, if_neg closed]
      split <;> next hp => rw [hp]

theorem enclosed_of_pivot {start : Nat} {inner : List Token} {found : Nat × Operator}
    (few : FewParens inner) (h : pivot start inner = .ok found) : ¬ enclosed inner = true := by
  obtain ⟨place, op⟩ := found
  obtain ⟨left, t, right, rfl, -, hop, hl, -⟩ := (pivot_eq_ok_iff few).mp h
  intro closed
  obtain ⟨l, middle, r, shape, opens, closes, balanced⟩ := (enclosed_iff few).mp closed
  have none := outer_group opens closes balanced
  rw [← shape, outer_append_operator hop hl] at none
  exact absurd none (by simp)

theorem pivot_append_operator (start : Nat) {left right : List Token} {t : Token} {op : Operator}
    (few : FewParens (left ++ t :: right)) (h : t.kind.operator? = some op) (hl : Balanced left)
    (hr : Balanced right) (hol : ∀ o ∈ outer 0 left, o.precedence < op.precedence)
    (hor : ∀ o ∈ outer 0 right, o.precedence ≤ op.precedence) :
    pivot start (left ++ t :: right) = .ok (left.length, op) :=
  (pivot_eq_parting few start).trans (parting_append_operator start h hl hr hol hor)

theorem pivot_cons_deref (start : Nat) {rest : List Token} {t : Token}
    (few : FewParens (t :: rest)) (h : t.kind = .deref) (hr : Balanced rest)
    (ho : ∀ o ∈ outer 0 rest, o.precedence ≤ Operator.deref.precedence) :
    pivot start (t :: rest) = .ok (0, .deref) :=
  (pivot_eq_parting few start).trans (parting_cons_deref start h hr ho)

section Few
variable (few : FewParens span)
include few

theorem evalSpan_group {l r : Token} {middle : List Token}
    (h : trimBlanks span = l :: (middle ++ [r])) (hl : l.kind = .leftParen)
    (hr : r.kind = .rightParen) (hm : Balanced middle) :
    evalSpan m start span = evalSpan m (start + leadingBlanks span + 1) middle := by
  have closed := (enclosed_iff (few.trimmed rfl)).mpr ⟨l, middle, r, h, hl, hr, hm⟩
  obtain ⟨u, more, hu⟩ : ∃ u more, middle ++ [r] = u :: more :=
    List.exists_cons_of_ne_nil (by simp)
  rw [hu] at h
  rw [h] at closed
  rw [evalSpan_several m start h, if_pos closed, ← hu, List.dropLast_concat]

theorem evalSpan_deref {t : Token} {rest : List Token} (h : trimBlanks span = t :: rest)
    (some : rest ≠ [])
    (hp : pivot (start + leadingBlanks span) (t :: rest) = .ok (0, .deref)) :
    evalSpan m start span =
      evalSpan m (start + leadingBlanks span + 1) rest >>= dereference m := by
  have few := few.trimmed h
  obtain ⟨u, more, rfl⟩ := List.exists_cons_of_ne_nil some
  rw [evalSpan_several m start h, if_neg (enclosed_of_pivot few hp), hp]
  rfl

theorem evalSpan_binary {left right : List Token} {t : Token} {op : BinaryOp}
    (h : trimBlanks span = left ++ t :: right) (some : left ≠ [])
    (hp : pivot (start + leadingBlanks span) (left ++ t :: right) =
      .ok (left.length, .binary op)) :
    evalSpan m start span = (do
      let a ← evalSpan m (start + leadingBlanks span) left
      let b ← evalSpan m (start + leadingBlanks span + left.length + 1) right
      op.apply a b) := by
  have few := few.trimmed h
  obtain ⟨x, rest, rfl⟩ := List.exists_cons_of_ne_nil some
  obtain ⟨u, more, hu⟩ : ∃ u more, rest ++ t :: right = u :: more :=
    List.exists_cons_of_ne_nil (by simp)
  have shape : (x :: rest) ++ t :: right = x :: u :: more := by rw [List.cons_append, hu]
  rw [shape] at h hp few
  rw [evalSpan_several m start h, if_neg (enclosed_of_pivot few hp), hp, ← shape]
  simp only [List.length_cons, Nat.succ_ne_zero, if_false]
  rw [← List.length_cons, List.take_left, ← List.drop_drop, List.drop_left]
  rfl

end Few

end Steps

/-! ## Both directions -/

theorem ne_nil_of_significant {span : List Token} (h : significant span ≠ []) : span ≠ [] := by
  rintro rfl; exact h rfl

theorem isOperand_of_operand {m : Machine} {t : Token} {w : Word} (h : operand m t = .ok w) :
    t.kind.isOperand = true := by
  simp only [operand] at h
  split at h <;> first | cases h | simp only [*, TokenKind.isOperand]

/-- The tokens of a phrase, blanks among them or not, have the value of the phrase. -/
theorem evalSpan_of_phrase (m : Machine) {span : List Token} {e : Phrase} (few : FewParens span)
    (h : Derives .or (significant span) e) (spelled : ∀ t ∈ significant span, t.WellSpelled) :
    ∀ start, asNumber (evalSpan m start span) = e.number m := by
  induction hn : span.length using Nat.strong_induction_on generalizing span e with
  | _ n ih =>
      intro start
      have shorter := length_trimBlanks_le span
      have few' := few.trimmed rfl
      generalize hts : significant span = ts at h spelled
      cases h.parts with
      | @operand t hk =>
          rw [evalSpan_singleton m start (trimBlanks_eq_singleton hts)]
          exact map_operand m (spelled t List.mem_cons_self) hk
      | @group l r _ _ hl hr h =>
          obtain ⟨middle, hi, rfl⟩ := trimBlanks_eq_group hts
          rw [hi] at shorter few'
          simp only [List.length_cons, List.length_append] at shorter
          rw [evalSpan_group m start few hi hl hr (balanced_significant.mp h.balanced)]
          exact ih _ (by omega) few'.tail.front h (fun t ht => spelled t (by simp [ht])) rfl _
      | @deref t _ a hk ha ho =>
          obtain ⟨rest, hi, rfl⟩ := trimBlanks_eq_cons hts
          rw [hi] at shorter few'
          simp only [List.length_cons] at shorter
          rw [outer_significant] at ho
          have hp := pivot_cons_deref (start + leadingBlanks span) few' hk
            (balanced_significant.mp ha.balanced) ho
          rw [evalSpan_deref m start few hi (ne_nil_of_significant ha.ne_nil) hp]
          refine asNumber_bind (ih _ (by omega) few'.tail ha (fun t ht => ?_) rfl _)
            (map_dereference m)
          exact spelled t (List.mem_cons_of_mem _ ht)
      | @binary op t _ _ a b hop ha hb hol hor =>
          obtain ⟨left, right, hi, rfl, rfl⟩ := trimBlanks_eq_append hts
          rw [hi] at shorter few'
          simp only [List.length_append, List.length_cons] at shorter
          rw [outer_significant] at hol hor
          have hp := pivot_append_operator (start + leadingBlanks span) few' hop
            (balanced_significant.mp ha.balanced) (balanced_significant.mp hb.balanced) hol hor
          rw [evalSpan_binary m start few hi (ne_nil_of_significant ha.ne_nil) hp]
          refine asNumber_bind (ih _ (by omega) few'.front ha (fun t ht => ?_) rfl _) fun x => ?_
          · exact spelled t (List.mem_append_left _ ht)
          refine asNumber_bind (ih _ (by omega) few'.back.tail hb (fun t ht => ?_) rfl _)
            fun y => ?_
          · exact spelled t (List.mem_append_right _ (List.mem_cons_of_mem _ ht))
          · exact map_apply op x y

/-- A span that has a value holds the tokens of a phrase. -/
theorem phrase_of_evalSpan (m : Machine) {span : List Token} (few : FewParens span) :
    ∀ {start : Nat} {w : Word}, evalSpan m start span = .ok w →
      ∃ e, Derives .or (significant span) e := by
  induction hn : span.length using Nat.strong_induction_on generalizing span with
  | _ n ih =>
      intro start w h
      have shorter := length_trimBlanks_le span
      have few' := few.trimmed rfl
      rw [← significant_trimBlanks]
      match hi : trimBlanks span with
      | [] =>
          rw [evalSpan_nil m start hi] at h
          cases h
      | [t] =>
          rw [evalSpan_singleton m start hi] at h
          have hk : t.kind.isOperand = true := isOperand_of_operand h
          have visible : t.kind ≠ .blank := by intro hb; rw [hb] at hk; cases hk
          rw [significant_cons_of_ne_blank visible]
          exact ⟨_, Parts.derives (.operand hk)⟩
      | t :: u :: more =>
          rw [hi] at shorter few'
          rw [evalSpan_several m start hi] at h
          split at h
          · next closed =>
            obtain ⟨l, middle, r, hs, hl, hr, hb⟩ := (enclosed_iff few').mp closed
            rw [hs] at shorter few' ⊢
            simp only [List.length_cons, List.length_append] at shorter
            rw [(List.cons.inj hs).2, List.dropLast_concat] at h
            obtain ⟨e, he⟩ := ih _ (by omega) few'.tail.front rfl h
            have visible :
                significant (l :: (middle ++ [r])) = l :: (significant middle ++ [r]) := by
              simp [significant, Token.isBlank, hl, hr]
            rw [visible]
            exact ⟨e, Parts.derives (.group hl hr he)⟩
          · split at h
            · cases h
            · next place hp =>
              obtain ⟨left, x, right, hs, hplace, hop, hl, hr, -, ho⟩ := (pivot_eq_ok_iff few').mp hp
              split at h
              · next first =>
                obtain rfl := List.length_eq_zero_iff.mp (hplace.trans first)
                obtain ⟨rfl, rfl⟩ := List.cons.inj hs
                have hk := TokenKind.operator?_eq_deref.mp hop
                obtain ⟨addr, haddr, -⟩ := exists_of_bind_eq_ok h
                obtain ⟨a, ha⟩ :=
                  ih _ (by simp only [List.length_cons] at *; omega) few'.tail rfl haddr
                rw [significant_cons_of_ne_blank (by simp [hk])]
                exact ⟨_, Parts.derives (.deref hk ha (by rwa [outer_significant]))⟩
              · cases h
            · next place op hp =>
              obtain ⟨left, x, right, hs, rfl, hop, hl, hr, hol, hor⟩ := (pivot_eq_ok_iff few').mp hp
              split at h
              · cases h
              · rw [hs] at shorter few' h ⊢
                simp only [List.length_append, List.length_cons] at shorter
                rw [List.take_left, ← List.drop_drop, List.drop_left] at h
                obtain ⟨_, hx, h⟩ := exists_of_bind_eq_ok h
                obtain ⟨_, hy, -⟩ := exists_of_bind_eq_ok h
                obtain ⟨a, ha⟩ := ih _ (by omega) few'.front rfl hx
                obtain ⟨b, hb⟩ := ih _ (by omega) few'.back.tail rfl hy
                rw [significant_append, significant_cons_of_ne_blank (ne_blank_of_operator hop)]
                rw [← outer_significant] at hol hor
                exact ⟨_, Parts.derives (.binary hop ha hb hol hor)⟩

/-! ## Failures -/

theorem isEvaluation_of_literalNumber {text : String} {n : Nat} {cause : ExpressionError}
    (h : literalNumber text n = .error cause) : cause.IsEvaluation := by
  simp only [literalNumber] at h
  split at h <;> cases h
  trivial

theorem isEvaluation_of_registerNumber {m : Machine} {text name : String}
    {cause : ExpressionError} (h : registerNumber m text name = .error cause) :
    cause.IsEvaluation := by
  simp only [registerNumber] at h
  split at h
  · cases h
  · split at h <;> cases h
    trivial

/-- A well-spelled operand fails only for what it spells. -/
theorem isEvaluation_of_operandNumber {m : Machine} {t : Token} {cause : ExpressionError}
    (spelled : t.WellSpelled) (single : t.kind.isOperand = true)
    (h : operandNumber m t = .error cause) : cause.IsEvaluation := by
  match hk : t.kind with
  | .decimal =>
      simp only [operandNumber, hk] at h
      exact isEvaluation_of_literalNumber h
  | .hex =>
      simp only [Token.WellSpelled, hk] at spelled
      obtain ⟨digits, hd, -, -⟩ := spelled
      simp only [operandNumber, hk, hd] at h
      exact isEvaluation_of_literalNumber h
  | .register =>
      simp only [Token.WellSpelled, hk] at spelled
      obtain ⟨name, hn, -, -⟩ := spelled
      simp only [operandNumber, hk, hn] at h
      exact isEvaluation_of_registerNumber h
  | .blank | .add | .sub | .mul | .div | .deref | .and | .or | .not | .eq | .neq | .leftParen
  | .rightParen =>
      rw [hk] at single
      cases single

theorem isEvaluation_of_byteNumber {m : Machine} {addr : Nat} {cause : ExpressionError}
    (h : byteNumber m addr = .error cause) : cause.IsEvaluation := by
  simp only [byteNumber] at h
  split at h <;> cases h
  trivial

theorem isEvaluation_of_operator {op : BinaryOp} {a b : Nat} {cause : ExpressionError}
    (h : op.number a b = .error cause) : cause.IsEvaluation := by
  cases op with
  | div =>
      simp only [BinaryOp.number] at h
      split at h <;> cases h
      trivial
  | add | sub | mul | and | or | eq | neq => cases h

/-- A phrase fails only where its evaluation does. -/
theorem isEvaluation_of_number {m : Machine} {l : Level} {ts : List Token} {e : Phrase}
    (h : Derives l ts e) (spelled : ∀ t ∈ ts, t.WellSpelled) :
    ∀ {cause : ExpressionError}, e.number m = .error cause → cause.IsEvaluation := by
  induction h with
  | alone _ _ ih => exact ih spelled
  | binary _ _ _ _ _ ihl ihr =>
      intro cause hc
      rcases cases_of_bind_eq_error hc with ha | ⟨_, _, hc⟩
      · exact ihl (fun t ht => spelled t (List.mem_append_left _ ht)) ha
      rcases cases_of_bind_eq_error hc with hb | ⟨_, _, hc⟩
      · exact ihr (fun t ht => spelled t (List.mem_append_right _ (List.mem_cons_of_mem _ ht))) hb
      · exact isEvaluation_of_operator hc
  | deref _ _ ih =>
      intro cause hc
      rcases cases_of_bind_eq_error hc with ha | ⟨_, _, hc⟩
      · exact ih (fun t ht => spelled t (List.mem_cons_of_mem _ ht)) ha
      · exact isEvaluation_of_byteNumber hc
  | operand hk =>
      intro cause hc
      exact isEvaluation_of_operandNumber (spelled _ List.mem_cons_self) hk hc
  | group _ _ _ ih => exact ih fun t ht => spelled t (by simp [ht])

/-! ## Lists of tokens -/

theorem significant_eq_nil_iff {tokens : List Token} :
    significant tokens = [] ↔ tokens.all Token.isBlank = true := by
  simp [significant]

theorem evalTokens_of_phrase (m : Machine) {tokens : List Token} {e : Phrase}
    (few : FewParens tokens) (h : Derives .or (significant tokens) e) (spelled : ∀ t ∈ significant tokens, t.WellSpelled) :
    asNumber (evalTokens m tokens) = e.number m := by
  rw [evalTokens, if_neg (mt significant_eq_nil_iff.mpr h.ne_nil)]
  exact evalSpan_of_phrase m few h spelled 0

theorem phrase_of_evalTokens (m : Machine) {tokens : List Token} {w : Word}
    (few : FewParens tokens) (h : evalTokens m tokens = .ok w) : ∃ e, Derives .or (significant tokens) e := by
  simp only [evalTokens] at h
  split at h
  · cases h
  · exact phrase_of_evalSpan m few h

/-- Evaluation accepts the language of the grammar and nothing else, and gives its tokens the
value of their one phrase: the number where there is one, and otherwise the first failure. -/
theorem evalTokens_agrees (m : Machine) {tokens : List Token} (few : FewParens tokens)
    (spelled : ∀ t ∈ tokens, t.WellSpelled) :
    (∀ w, evalTokens m tokens = .ok w ↔
      ∃ e, Derives .or (significant tokens) e ∧ e.number m = .ok w.toNat) ∧
    ∀ e, Derives .or (significant tokens) e →
      (∀ e', Derives .or (significant tokens) e' → e' = e) ∧
      ∀ cause, e.number m = .error cause →
        evalTokens m tokens = .error cause ∧ cause.IsEvaluation := by
  have spelled' : ∀ t ∈ significant tokens, t.WellSpelled :=
    fun t ht => spelled t (List.mem_filter.mp ht).1
  refine ⟨fun w => ⟨fun h => ?_, ?_⟩, fun e he => ⟨fun e' he' => he'.unique he, ?_⟩⟩
  · obtain ⟨e, he⟩ := phrase_of_evalTokens m few h
    refine ⟨e, he, ?_⟩
    rw [← evalTokens_of_phrase m few he spelled']
    exact asNumber_eq_ok_iff.mpr h
  · rintro ⟨e, he, hw⟩
    rw [← evalTokens_of_phrase m few he spelled'] at hw
    exact asNumber_eq_ok_iff.mp hw
  · intro cause hc
    refine ⟨?_, isEvaluation_of_number he spelled' hc⟩
    rw [← evalTokens_of_phrase m few he spelled'] at hc
    exact asNumber_eq_error_iff.mp hc

section Nest
variable {n : Nat} {t : Token} (hk : t.kind.isOperand = true)
include hk

/-- An operand in any number of parentheses is a phrase. -/
theorem derives_nest (n : Nat) : Derives .or (nest n t) (.operand t) := by
  induction n with
  | zero => exact (Derives.operand hk).loosen (Nat.zero_le _)
  | succ n ih =>
      rw [nest_succ]
      exact (Derives.group rfl rfl ih).loosen (Nat.zero_le _)

theorem significant_nest (n : Nat) : significant (nest n t) = nest n t := by
  have visible : t.isBlank = false := by
    refine beq_eq_false_iff_ne.mpr fun blank => ?_
    rw [blank] at hk
    cases hk
  refine List.filter_eq_self.mpr ?_
  exact @forall_mem_nest t (fun u => !u.isBlank) rfl (by rw [visible]; rfl) rfl n

theorem evalTokens_nest (m : Machine) (many : n = 2 ^ 31) :
    evalTokens m (nest n t) = .error (.noOperator 0 (2 * n)) := by
  have left : t.kind ≠ .leftParen := by intro h; rw [h] at hk; cases hk
  have right : t.kind ≠ .rightParen := by intro h; rw [h] at hk; cases hk
  have none := TokenKind.operator?_of_isOperand hk
  have apart := enclosed_nest many t
  have failed := pivot_nest many 0 left right none
  have some : significant (nest n t) ≠ [] := by
    rw [significant_nest hk]
    exact (derives_nest hk n).ne_nil
  obtain ⟨k, rfl⟩ : ∃ k, n = k + 1 := ⟨2 ^ 31 - 1, many⟩
  obtain ⟨u, more, shape⟩ : ∃ u more, nest k t ++ [⟨.rightParen, ")"⟩] = u :: more :=
    List.exists_cons_of_ne_nil (by simp)
  have trimmed := trimBlanks_solid (t := ⟨.leftParen, "("⟩) (u := ⟨.rightParen, ")"⟩) rfl rfl
    (nest k t)
  have leading := leadingBlanks_of_solid (t := ⟨.leftParen, "("⟩) rfl
    (nest k t ++ [⟨.rightParen, ")"⟩])
  rw [nest_succ, shape] at apart failed
  rw [shape] at trimmed leading
  rw [evalTokens, if_neg (mt significant_eq_nil_iff.mpr some), nest_succ, shape,
    evalSpan_several m 0 trimmed, leading, apart, failed]
  simp only [Bool.false_eq_true, if_false, Nat.zero_add]

end Nest

/-- A phrase may be refused for its parentheses, where there are too many to count. -/
theorem refused_in_nest :
    let tokens : List Token := nest (2 ^ 31) ⟨.decimal, "1"⟩
    let m : Machine := ⟨Registers.zeros, 0x80000000, Memory.create 0x80000000 16⟩
    (∀ t ∈ tokens, t.WellSpelled) ∧
      (∃ e, Derives .or (significant tokens) e ∧ e.number m = .ok 1) ∧
      evalTokens m tokens = .error (.noOperator 0 (2 ^ 32)) := by
  intro tokens m
  have double : 2 * 2 ^ 31 = 2 ^ 32 := by decide
  have derives : Derives .or (significant tokens) (.operand ⟨.decimal, "1"⟩) := by
    rw [significant_nest rfl]
    exact derives_nest rfl _
  have refused : evalTokens m tokens = .error (.noOperator 0 (2 * 2 ^ 31)) :=
    evalTokens_nest rfl m rfl
  rw [double] at refused
  have one : Token.WellSpelled ⟨.decimal, "1"⟩ := by
    have digit : CharClass.decimalDigit.has '1' = true := by decide
    simpa [Token.WellSpelled] using digit
  exact ⟨forall_mem_nest trivial one trivial _, ⟨_, derives, rfl⟩, refused⟩

/-- Operators of one level group to the right: `10 - 4 - 3` is nine. -/
theorem evalTokens_agrees_ten_minus_four_minus_three :
    evalTokens ⟨Registers.zeros, 0x80000000, Memory.create 0x80000000 16⟩
      [⟨.decimal, "10"⟩, ⟨.blank, ""⟩, ⟨.sub, "-"⟩, ⟨.decimal, "4"⟩, ⟨.sub, "-"⟩,
        ⟨.blank, ""⟩, ⟨.decimal, "3"⟩] = .ok 9 := by
  have four_minus_three : Derives .or [⟨.decimal, "4"⟩, ⟨.sub, "-"⟩, ⟨.decimal, "3"⟩]
      (.binary .sub (.operand ⟨.decimal, "4"⟩) (.operand ⟨.decimal, "3"⟩)) := by
    refine Parts.derives (@Parts.binary _ .sub ⟨.sub, "-"⟩ [_] [_] _ _ rfl
      (Parts.derives (.operand rfl)) (Parts.derives (.operand rfl)) ?_ ?_) <;> decide
  have all : Derives .or
      [⟨.decimal, "10"⟩, ⟨.sub, "-"⟩, ⟨.decimal, "4"⟩, ⟨.sub, "-"⟩, ⟨.decimal, "3"⟩]
      (.binary .sub (.operand ⟨.decimal, "10"⟩)
        (.binary .sub (.operand ⟨.decimal, "4"⟩) (.operand ⟨.decimal, "3"⟩))) := by
    refine Parts.derives (@Parts.binary _ .sub ⟨.sub, "-"⟩ [_] _ _ _ rfl
      (Parts.derives (.operand rfl)) four_minus_three ?_ ?_) <;> decide
  refine ((evalTokens_agrees _ (.of_length_lt (by decide)) ?_).1 9).mpr ⟨_, all, ?_⟩
  · simp only [List.forall_mem_cons, Token.WellSpelled]
    simp; decide
  · rfl

end Evaluation

end HartMonitor
