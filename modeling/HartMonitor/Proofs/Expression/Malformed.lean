/-
# `HartMonitor.Proofs.Expression.Malformed` — texts that are no expression

A text whose tokens are those of no phrase has no value, in any machine.  Evaluation goes
from left to right and stops at the first failure, which need not be the syntax error:

    1/0+        a division by zero, though an operand is missing behind it
    +1/0        a missing operand
    1/0)        a parenthesis that closes nothing
    1/0 2       two operands side by side

A division by zero is the only failure of such a text that ends a run.  It is met exactly where it
comes first (`DividesFirst`): in the part that is worked out first, with everything before it
worked out, both sides of the quotient being phrases with values, the second one zero.  In all
other cases the failure can be recovered from.
-/
import HartMonitor.Proofs.Expression.Placeless

namespace HartMonitor

open Evaluation

/-- Some tokens are those of a phrase, the value of which is a number. -/
def Valued (m : Machine) (ts : List Token) (n : Nat) : Prop :=
  ∃ e, Derives .or ts e ∧ e.number m = .ok n

/-- Going through some tokens from left to right, the first thing wrong is a division by zero:
inside a pair of parentheses around them all, in the address of a dereference, on the left side of
the operator that cuts them, on its right side where the left one has a value, or in that operator
itself. -/
inductive DividesFirst (m : Machine) : List Token → Prop
  | group {l r : Token} {ts : List Token} : l.kind = .leftParen → r.kind = .rightParen →
      Balanced ts → DividesFirst m ts → DividesFirst m (l :: (ts ++ [r]))
  | address {ts right : List Token} {t : Token} : Cut ts [] t .deref right →
      DividesFirst m right → DividesFirst m ts
  | left {ts left right : List Token} {t : Token} {op : BinaryOp} :
      Cut ts left t (.binary op) right → DividesFirst m left → DividesFirst m ts
  | right {ts left right : List Token} {t : Token} {op : BinaryOp} {a : Nat} :
      Cut ts left t (.binary op) right → Valued m left a → DividesFirst m right →
      DividesFirst m ts
  | here {ts left right : List Token} {t : Token} {a : Nat} :
      Cut ts left t (.binary .div) right → Valued m left a → Valued m right 0 →
      DividesFirst m ts

theorem Valued.ne_nil {m : Machine} {ts : List Token} {n : Nat} (h : Valued m ts n) : ts ≠ [] := by
  obtain ⟨e, derives, -⟩ := h
  exact derives.ne_nil

theorem DividesFirst.ne_nil {m : Machine} {ts : List Token} (h : DividesFirst m ts) :
    ts ≠ [] := by
  cases h with
  | group => exact List.cons_ne_nil _ _
  | address cut | left cut | right cut | here cut =>
      rw [cut.shape]
      exact List.append_ne_nil_of_right_ne_nil _ (List.cons_ne_nil _ _)

/-- Where a division by zero comes first, the parentheses pair. -/
theorem DividesFirst.balanced {m : Machine} {ts : List Token} (h : DividesFirst m ts) :
    Balanced ts := by
  cases h with
  | group hl hr inside => exact inside.group hl hr
  | address cut | left cut | right cut | here cut => exact cut.balanced

namespace Evaluation

variable {m : Machine} {start : Nat} {span : List Token}

theorem Cut.significant {left right : List Token} {t : Token} {op : Operator}
    (cut : Cut (trimBlanks span) left t op right) :
    Cut (significant span) (significant left) t op (significant right) where
  shape := by
    rw [← significant_trimBlanks, cut.shape, significant_append,
      significant_cons_of_ne_blank (ne_blank_of_operator cut.operator)]
  operator := cut.operator
  left_balanced := balanced_significant.mpr cut.left_balanced
  right_balanced := balanced_significant.mpr cut.right_balanced
  looser := by
    rw [outer_significant]
    exact cut.looser
  noTighter := by
    rw [outer_significant]
    exact cut.noTighter

/-- A span that evaluation can read: its parentheses can be counted, and its literals and registers
are spelled as the lexer spells them. -/
structure Legible (span : List Token) : Prop where
  few : FewParens span
  spelled : ∀ t ∈ significant span, t.WellSpelled

namespace Legible
variable {xs ys middle part : List Token} {t l r : Token} {op : Operator}

theorem piece (h : Legible span) (within : part.Sublist (trimBlanks span)) : Legible part where
  few := h.few.of_sublist (within.trans (trimBlanks_isInfix span).sublist)
  spelled t mem := by
    obtain ⟨inside, visible⟩ := List.mem_filter.mp mem
    have whole : t ∈ span := (trimBlanks_isInfix span).subset (within.subset inside)
    exact h.spelled t (List.mem_filter.mpr ⟨whole, visible⟩)

theorem left (h : Legible span) (cut : Cut (trimBlanks span) xs t op ys) : Legible xs :=
  h.piece (cut.shape ▸ List.sublist_append_left _ _)

theorem right (h : Legible span) (cut : Cut (trimBlanks span) xs t op ys) : Legible ys :=
  h.piece (cut.shape ▸ (List.sublist_cons_self _ _).trans (List.sublist_append_right _ _))

theorem inside (h : Legible span) (shape : trimBlanks span = l :: (middle ++ [r])) :
    Legible middle :=
  h.piece (shape ▸ (List.sublist_append_left _ _).trans (List.sublist_cons_self _ _))

theorem valued {w : Word} (h : Legible span) (value : evalSpan m start span = .ok w) :
    Valued m (significant span) w.toNat := by
  obtain ⟨e, derives⟩ := phrase_of_evalSpan m h.few value
  refine ⟨e, derives, ?_⟩
  rw [← evalSpan_of_phrase m h.few derives h.spelled start]
  exact asNumber_eq_ok_iff.mpr value

theorem evalSpan_of_valued {n : Nat} (h : Legible span) (value : Valued m (significant span) n)
    (start : Nat) : ∃ w : Word, evalSpan m start span = .ok w ∧ w.toNat = n := by
  obtain ⟨e, derives, number⟩ := value
  rw [← evalSpan_of_phrase m h.few derives h.spelled start] at number
  cases outcome : evalSpan m start span with
  | error cause => rw [outcome] at number; cases number
  | ok w => rw [outcome] at number; exact ⟨w, rfl, Except.ok.inj number⟩

end Legible

/-- A span that fails for good divides by zero first. -/
theorem dividesFirst_of_fails {cause : ExpressionError} (fails : Fails m start span cause)
    (fatal : cause.isFatal = true) :
    Legible span → cause = .divisionByZero ∧ DividesFirst m (significant span) := by
  induction fails with
  | empty | missing | misplaced => cases fatal
  | operand _ failed => obtain rfl | rfl | rfl := cause_of_operand failed <;> cases fatal
  | pivot failed => obtain ⟨_, rfl⟩ | ⟨_, _, rfl⟩ := cause_of_pivot failed <;> cases fatal
  | byte _ _ failed =>
      obtain rfl := cause_of_dereference failed
      cases fatal
  | @pair _ span middle l r _ shape hl hr balanced _ ih =>
      intro legible
      have visible : significant span = l :: (significant middle ++ [r]) := by
        rw [← significant_trimBlanks, shape]
        simp [significant, Token.isBlank, hl, hr]
      obtain ⟨divides, first⟩ := ih fatal (legible.inside shape)
      rw [visible]
      exact ⟨divides, .group hl hr (balanced_significant.mpr balanced) first⟩
  | address cut _ ih =>
      intro legible
      obtain ⟨divides, first⟩ := ih fatal (legible.right cut)
      exact ⟨divides, .address cut.significant first⟩
  | left cut _ _ ih =>
      intro legible
      obtain ⟨divides, first⟩ := ih fatal (legible.left cut)
      exact ⟨divides, .left cut.significant first⟩
  | right cut _ value _ ih =>
      intro legible
      obtain ⟨divides, first⟩ := ih fatal (legible.right cut)
      exact ⟨divides, .right cut.significant ((legible.left cut).valued value) first⟩
  | apply cut _ value value' failed =>
      intro legible
      obtain ⟨rfl, rfl, rfl⟩ := cause_of_apply failed
      have ha := (legible.left cut).valued value
      have hb := (legible.right cut).valued value'
      exact ⟨rfl, .here cut.significant ha hb⟩

/-- A span that divides by zero first fails for that. -/
theorem evalSpan_of_dividesFirst {ts : List Token} (h : DividesFirst m ts) :
    ∀ {start : Nat} {span : List Token}, significant span = ts → Legible span →
      evalSpan m start span = .error .divisionByZero := by
  induction h with
  | group hl hr balanced _ ih =>
      intro start span hs legible
      obtain ⟨middle, trimmed, inside⟩ := trimBlanks_eq_group hs
      have balanced' : Balanced middle := by rwa [← balanced_significant, inside]
      rw [evalSpan_group m start legible.few trimmed hl hr balanced']
      exact ih inside (legible.inside trimmed)
  | address cut first ih =>
      intro start span hs legible
      subst hs
      obtain ⟨left', right', cut', hl, hr⟩ := cut.of_significant
      obtain rfl := cut'.left_eq_nil hl
      have some : right' ≠ [] := ne_nil_of_significant (by rw [hr]; exact first.ne_nil)
      rw [evalSpan_of_deref legible.few m start cut' some, ih hr (legible.right cut')]
      rfl
  | left cut first ih =>
      intro start span hs legible
      subst hs
      obtain ⟨left', right', cut', hl, hr⟩ := cut.of_significant
      have some : left' ≠ [] := ne_nil_of_significant (by rw [hl]; exact first.ne_nil)
      rw [evalSpan_of_binary legible.few m start cut' some, ih hl (legible.left cut')]
      rfl
  | right cut before first ih =>
      intro start span hs legible
      subst hs
      obtain ⟨left', right', cut', rfl, rfl⟩ := cut.of_significant
      have some : left' ≠ [] := ne_nil_of_significant before.ne_nil
      obtain ⟨a, value, -⟩ :=
        (legible.left cut').evalSpan_of_valued before (start + leadingBlanks span)
      rw [evalSpan_of_binary legible.few m start cut' some, value,
        ih rfl (legible.right cut')]
      rfl
  | here cut ha hb =>
      intro start span hs legible
      subst hs
      obtain ⟨left', right', cut', rfl, rfl⟩ := cut.of_significant
      have some : left' ≠ [] := ne_nil_of_significant ha.ne_nil
      obtain ⟨a, value, -⟩ :=
        (legible.left cut').evalSpan_of_valued ha (start + leadingBlanks span)
      obtain ⟨b, value', zero⟩ := (legible.right cut').evalSpan_of_valued hb
        (start + leadingBlanks span + left'.length + 1)
      have zero : b = 0 := BitVec.eq_of_toNat_eq zero
      rw [evalSpan_of_binary legible.few m start cut' some, value, value', zero]
      rfl

theorem legible_of_tokenize {text : String} {tokens : List Token}
    (cut : tokenize text = .ok tokens) : Legible tokens where
  few := Lexer.fewParens_of_tokenize cut
  spelled t ht := Lexer.wellSpelled_of_tokenize cut t (List.mem_filter.mp ht).1

end Evaluation

/-- The tokens of a text fail for good exactly where a division by zero comes first. -/
theorem isFatal_iff_dividesFirst {m : Machine} {text : String} {tokens : List Token}
    {cause : ExpressionError} (cut : tokenize text = .ok tokens)
    (failed : evalTokens m tokens = .error cause) :
    cause.isFatal = true ↔ DividesFirst m (significant tokens) := by
  have legible := legible_of_tokenize cut
  simp only [evalTokens] at failed
  split at failed
  · next blank =>
    cases failed
    refine iff_of_false Bool.false_ne_true fun first => ?_
    exact first.ne_nil (significant_eq_nil_iff.mpr blank)
  · constructor
    · exact fun fatal =>
        (dividesFirst_of_fails (fails_of_evalSpan legible.few failed) fatal legible).2
    · intro first
      cases (evalSpan_of_dividesFirst first rfl legible).symm.trans failed
      rfl

/-- A text that is no expression fails.  Its failure can be recovered from unless, going from left
to right, a division by zero comes first; so it can wherever the parentheses do not pair. -/
theorem evaluate_malformed (m : Machine) {text : String} {tokens : List Token}
    (cut : tokenize text = .ok tokens) (malformed : ¬ ∃ e, Derives .or (significant tokens) e) :
    ∃ cause, evaluate m text = .error cause ∧
      (cause.isFatal = true ↔ DividesFirst m (significant tokens)) ∧
      (cause.isFatal = true → cause = .divisionByZero ∧ Paired text.toList) := by
  have legible := legible_of_tokenize cut
  have same : evaluate m text = evalTokens m tokens := by
    rw [evaluate, cut]
    rfl
  rw [same]
  cases outcome : evalTokens m tokens with
  | ok w => exact absurd (phrase_of_evalTokens m legible.few outcome) malformed
  | error cause =>
      have exactly := isFatal_iff_dividesFirst cut outcome
      refine ⟨cause, rfl, exactly, fun fatal => ⟨?_, ?_⟩⟩
      · simp only [evalTokens] at outcome
        split at outcome
        · cases outcome
          cases fatal
        · exact (dividesFirst_of_fails (fails_of_evalSpan legible.few outcome) fatal legible).1
      · rw [← Lexer.balanced_iff_paired cut, ← balanced_significant]
        exact (exactly.mp fatal).balanced

theorem not_derives_of_bare {ts : List Token} {place : Nat} {op : BinaryOp}
    (found : parting 0 ts = .ok (place, .binary op))
    (bare : ts.take place = [] ∨ ts.drop (place + 1) = []) : ¬ ∃ e, Derives .or ts e := by
  rintro ⟨e, derives⟩
  obtain ⟨a, b, left, right, -⟩ := derives.parts.of_parting (fun _ _ => Derives.balanced) found
  obtain none | none := bare
  · exact left.ne_nil none
  · exact right.ne_nil none

/-- The failure of a text that is no expression can be one that ends a run. -/
theorem fatal_of_one_div_zero_add :
    let tokens : List Token := [⟨.decimal, "1"⟩, ⟨.div, "/"⟩, ⟨.decimal, "0"⟩, ⟨.add, "+"⟩]
    let m : Machine := ⟨Registers.zeros, 0x80000000, Memory.create 0x80000000 16⟩
    tokenize "1/0+" = .ok tokens ∧ (¬ ∃ e, Derives .or (significant tokens) e) ∧
      evaluate m "1/0+" = .error .divisionByZero ∧
      ¬ ∃ cause, evaluate m "1/0+" = .error cause ∧ cause.isFatal = false := by
  intro tokens m
  have divides : evaluate m "1/0+" = .error .divisionByZero := by decide +kernel
  refine ⟨by decide +kernel, ?_, divides, ?_⟩
  · exact @not_derives_of_bare (significant tokens) 3 .add (by decide +kernel) (.inr rfl)
  · rintro ⟨cause, failed, recoverable⟩
    cases divides.symm.trans failed
    cases recoverable

/-- The quotient in front of an operator that has nothing behind it. -/
theorem evaluate_malformed_dangling :
    let tokens : List Token :=
      [⟨.decimal, "7"⟩, ⟨.div, "/"⟩, ⟨.register, "$0"⟩, ⟨.blank, ""⟩, ⟨.eq, "=="⟩]
    let m : Machine := ⟨Registers.zeros, 0x80000000, Memory.create 0x80000000 16⟩
    tokenize "7/$0 ==" = .ok tokens ∧ (¬ ∃ e, Derives .or (significant tokens) e) ∧
      evaluate m "7/$0 ==" = .error .divisionByZero ∧ DividesFirst m (significant tokens) := by
  intro tokens m
  have cut : tokenize "7/$0 ==" = .ok tokens := by decide +kernel
  have malformed : ¬ ∃ e, Derives .or (significant tokens) e :=
    @not_derives_of_bare (significant tokens) 3 .eq (by decide +kernel) (.inr rfl)
  have divides : evaluate m "7/$0 ==" = .error .divisionByZero := by decide +kernel
  obtain ⟨cause, failed, first, -⟩ := evaluate_malformed m cut malformed
  cases divides.symm.trans failed
  exact ⟨cut, malformed, divides, first.mp rfl⟩

/-- Behind a division by zero, a syntax error that is met first. -/
example :
    let m : Machine := ⟨Registers.zeros, 0x80000000, Memory.create 0x80000000 16⟩
    evaluate m "1/0)" = .error (.unbalanced 3) ∧ evaluate m "1/0 2" = .error (.noOperator 2 4) ∧
      evaluate m "1/0*" = .error (.missingOperand 4) := by decide +kernel

end HartMonitor
