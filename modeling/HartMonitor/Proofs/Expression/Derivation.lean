/-
# `HartMonitor.Proofs.Expression.Derivation` — a phrase falls into parts in one way

Whatever the level, the tokens of a phrase are balanced, and the operators outside
their parentheses are no looser than the level.  So a derivation from the loosest level
can be read without any level (`Derives.parts`, `Parts.derives`): an operand, a phrase in parentheses, a
dereference, or two phrases with the operator between them that is looser than every
operator to its left and no tighter than those to its right.  That operator is where they
part, of which there is one, and with it the phrase is unique (`Derives.unique`).
-/
import HartMonitor.Proofs.Expression.Grammar
import HartMonitor.Proofs.Expression.Nesting

namespace HartMonitor

open Evaluation

/-! ## Levels -/

/-- The precedence of the loosest operators of a level. -/
def Level.looseness : Level → Nat
  | or => 12
  | and => 11
  | eq => 7
  | sum => 4
  | prod => 3
  | unary => 2
  | atom => 0

theorem BinaryOp.looseness_level (op : BinaryOp) :
    op.level.looseness = (Operator.binary op).precedence := by
  cases op <;> rfl

theorem Level.eq_of_looseness {l l' : Level} (h : l.looseness = l'.looseness) : l = l' := by
  cases l <;> cases l' <;> first | rfl | cases h

/-- Between a level and the next tighter one there is no operator. -/
theorem Level.precedence_lt_iff {l l' : Level} (h : l.tighter? = some l') (o : Operator) :
    o.precedence < l.looseness ↔ o.precedence ≤ l'.looseness := by
  cases l <;> cases h <;> cases o with
  | deref => decide
  | binary op => cases op <;> decide

theorem Level.looseness_lt_iff {l l' : Level} (h : l.tighter? = some l') (other : Level) :
    other.looseness < l.looseness ↔ other.looseness ≤ l'.looseness := by
  cases l <;> cases h <;> cases other <;> decide

theorem Level.looseness_le (l : Level) : l.looseness ≤ Level.or.looseness := by
  cases l <;> decide

/-! ## What a derivation says of its tokens -/

namespace TokenKind

theorem operator?_of_isOperand {k : TokenKind} (h : k.isOperand = true) : k.operator? = none := by
  cases k <;> first | rfl | cases h

theorem operator?_eq_deref {k : TokenKind} : k.operator? = some .deref ↔ k = .deref := by
  cases k <;> simp [operator?]

end TokenKind

namespace Evaluation

theorem balanced_operand {t : Token} (h : t.kind.isOperand = true) : Balanced [t] := by
  cases hk : t.kind <;> simp_all [Balanced, depthAfter, TokenKind.isOperand]

theorem outer_operand {t : Token} (h : t.kind.isOperand = true) : outer 0 [t] = [] := by
  have none := TokenKind.operator?_of_isOperand h
  have hl : t.kind ≠ .leftParen := by intro hk; rw [hk] at h; cases h
  have hr : t.kind ≠ .rightParen := by intro hk; rw [hk] at h; cases h
  simp only [outer, outerOperators, none, List.map_nil]

theorem outer_append_operator {left right : List Token} {t : Token} {op : Operator}
    (h : t.kind.operator? = some op) (hl : Balanced left) :
    outer 0 (left ++ t :: right) = outer 0 left ++ op :: outer 0 right := by
  rw [outer_append hl, outer_cons_operator h]

theorem parting_append_operator (start : Nat) {left right : List Token} {t : Token} {op : Operator}
    (h : t.kind.operator? = some op) (hl : Balanced left) (hr : Balanced right)
    (hol : ∀ o ∈ outer 0 left, o.precedence < op.precedence)
    (hor : ∀ o ∈ outer 0 right, o.precedence ≤ op.precedence) :
    parting start (left ++ t :: right) = .ok (left.length, op) :=
  parting_eq_ok_iff.mpr ⟨left, t, right, rfl, rfl, h, hl, hr, hol, hor⟩

theorem parting_cons_deref (start : Nat) {rest : List Token} {t : Token} (h : t.kind = .deref)
    (hr : Balanced rest)
    (ho : ∀ o ∈ outer 0 rest, o.precedence ≤ Operator.deref.precedence) :
    parting start (t :: rest) = .ok (0, .deref) := by
  have none : outer 0 [] = [] := rfl
  refine @parting_append_operator start [] rest t _ (TokenKind.operator?_eq_deref.mpr h) rfl hr ?_ ho
  rw [none]
  exact fun _ ho => nomatch ho

end Evaluation

namespace Derives

variable {l l' : Level} {ts : List Token} {e : Phrase}

theorem ne_nil (h : Derives l ts e) : ts ≠ [] := by
  induction h with
  | alone _ _ ih => exact ih
  | binary => simp
  | deref => simp
  | operand => simp
  | group => simp

theorem balanced (h : Derives l ts e) : Balanced ts := by
  induction h with
  | alone _ _ ih => exact ih
  | binary hop _ _ _ _ ihl ihr => exact (balanced_append_operator hop ihl).mpr ihr
  | deref hk _ ih =>
      have hop := TokenKind.operator?_eq_deref.mpr hk
      exact (@balanced_append_operator _ _ hop [] _ rfl).mpr ih
  | operand hk => exact balanced_operand hk
  | group hl hr _ ih => exact ih.group hl hr

theorem precedence_le (h : Derives l ts e) :
    ∀ o ∈ outer 0 ts, o.precedence ≤ l.looseness := by
  induction h with
  | alone ht _ ih =>
      intro o ho
      exact Nat.le_of_lt ((Level.precedence_lt_iff ht o).mpr (ih o ho))
  | binary hop hlevel ht hl _ ihl ihr =>
      subst hlevel
      rw [outer_append_operator hop hl.balanced]
      refine List.forall_mem_append.mpr ⟨fun o ho => ?_, List.forall_mem_cons.mpr ⟨?_, ihr⟩⟩
      · exact Nat.le_of_lt ((Level.precedence_lt_iff ht o).mpr (ihl o ho))
      · exact Nat.le_of_eq (BinaryOp.looseness_level _).symm
  | deref hk _ ih =>
      rw [outer_cons_operator (TokenKind.operator?_eq_deref.mpr hk)]
      exact List.forall_mem_cons.mpr ⟨Nat.le_refl _, ih⟩
  | operand hk => simp [outer_operand hk]
  | group hl hr h _ =>
      simp [outer_group hl hr h.balanced]

theorem loosen (h : Derives l ts e) (hle : l.looseness ≤ l'.looseness) : Derives l' ts e := by
  induction hn : l'.looseness using Nat.strong_induction_on generalizing l' with
  | _ n ih =>
      rcases Nat.eq_or_lt_of_le hle with heq | hlt
      · rwa [← Level.eq_of_looseness heq]
      · match ht : l'.tighter? with
        | some narrow =>
            refine .alone ht (ih _ ?_ ((Level.looseness_lt_iff ht l).mp hlt) rfl)
            exact hn ▸ (Level.looseness_lt_iff ht narrow).mpr (Nat.le_refl _)
        | none =>
            have last : l' = .atom := by cases l' <;> first | rfl | cases ht
            rw [last] at hlt
            exact absurd hlt (Nat.not_lt_zero _)

/-- A phrase is one of every tighter level that none of its operators is too loose for. -/
theorem tighten (h : Derives l ts e) (hle : l'.looseness ≤ l.looseness)
    (ho : ∀ o ∈ outer 0 ts, o.precedence ≤ l'.looseness) : Derives l' ts e := by
  have same : ∀ {wide : Level}, l'.looseness ≤ wide.looseness →
      wide.looseness ≤ l'.looseness → wide = l' :=
    fun h₁ h₂ => Level.eq_of_looseness (Nat.le_antisymm h₂ h₁)
  induction h with
  | alone ht h ih =>
      rcases Nat.eq_or_lt_of_le hle with heq | hlt
      · rw [Level.eq_of_looseness heq]; exact .alone ht h
      · exact ih ((Level.looseness_lt_iff ht l').mp hlt) ho
  | @binary l _ op t left right a b hop hlevel ht hl hr _ _ =>
      rw [outer_append_operator hop hl.balanced] at ho
      have hop' := ho (.binary op) (by simp)
      rw [← BinaryOp.looseness_level, hlevel] at hop'
      rw [← same hle hop']
      exact .binary hop hlevel ht hl hr
  | deref hk h _ =>
      rw [outer_cons_operator (TokenKind.operator?_eq_deref.mpr hk)] at ho
      rw [← same hle (ho .deref List.mem_cons_self)]
      exact .deref hk h
  | operand hk =>
      rw [← same hle (Nat.zero_le _)]
      exact .operand hk
  | group hl hr h _ =>
      rw [← same hle (Nat.zero_le _)]
      exact .group hl hr h

end Derives

/-! ## Parts -/

/-- `Parts P ts e`: the tokens `ts` are those of the parts of `e`, which are as `P` says,
around the operator at which they part, if there is one. -/
inductive Parts (P : List Token → Phrase → Prop) : List Token → Phrase → Prop
  | operand {t : Token} : t.kind.isOperand = true → Parts P [t] (.operand t)
  | group {l r : Token} {ts : List Token} {e : Phrase} : l.kind = .leftParen →
      r.kind = .rightParen → P ts e → Parts P (l :: (ts ++ [r])) e
  | deref {t : Token} {ts : List Token} {a : Phrase} : t.kind = .deref → P ts a →
      (∀ o ∈ outer 0 ts, o.precedence ≤ Operator.deref.precedence) →
      Parts P (t :: ts) (.deref a)
  | binary {op : BinaryOp} {t : Token} {left right : List Token} {a b : Phrase} :
      t.kind.operator? = some (.binary op) → P left a → P right b →
      (∀ o ∈ outer 0 left, o.precedence < (Operator.binary op).precedence) →
      (∀ o ∈ outer 0 right, o.precedence ≤ (Operator.binary op).precedence) →
      Parts P (left ++ t :: right) (.binary op a b)

/-- A derivation of a level has parts that derive from the loosest level. -/
theorem Derives.parts {l : Level} {ts : List Token} {e : Phrase} (h : Derives l ts e) :
    Parts (Derives .or) ts e := by
  induction h with
  | alone _ _ ih => exact ih
  | @binary l l' op t left right a b hop hlevel ht hl hr _ _ =>
      have loose : (Operator.binary op).precedence = l.looseness := by
        rw [← BinaryOp.looseness_level, hlevel]
      refine .binary hop (hl.loosen (Level.looseness_le _)) (hr.loosen (Level.looseness_le _))
        (fun o ho => ?_) (fun o ho => ?_)
      · rw [loose]
        exact (Level.precedence_lt_iff ht o).mpr (hl.precedence_le o ho)
      · rw [loose]
        exact hr.precedence_le o ho
  | deref hk h _ => exact .deref hk (h.loosen (Level.looseness_le _)) h.precedence_le
  | operand hk => exact .operand hk
  | group hl hr h _ => exact .group hl hr h

/-- A phrase of the level of an operator, with another one before the operator that has tighter
operators only. -/
theorem Derives.of_operator {op : BinaryOp} {t : Token} {left right : List Token} {a b : Phrase}
    (hr : Derives op.level right b) (hop : t.kind.operator? = some (.binary op))
    (hl : Derives .or left a)
    (hol : ∀ o ∈ outer 0 left, o.precedence < (Operator.binary op).precedence) :
    Derives op.level (left ++ t :: right) (.binary op a b) := by
  obtain ⟨narrow, ht⟩ : ∃ narrow, op.level.tighter? = some narrow := by
    cases op <;> exact ⟨_, rfl⟩
  rw [← BinaryOp.looseness_level] at hol
  have hl' : Derives narrow left a :=
    hl.tighten (Level.looseness_le _) fun o ho => (Level.precedence_lt_iff ht o).mp (hol o ho)
  exact .binary hop rfl ht hl' hr

/-- Phrases in the order of the precedence of their operators are a derivation. -/
theorem Parts.derives {ts : List Token} {e : Phrase} (h : Parts (Derives .or) ts e) :
    Derives .or ts e := by
  cases h with
  | operand hk => exact (Derives.operand hk).loosen (Nat.zero_le _)
  | group hl hr h => exact (Derives.group hl hr h).loosen (Nat.zero_le _)
  | deref hk h ho =>
      have narrow : Derives .unary _ _ := h.tighten (Level.looseness_le _) ho
      exact (Derives.deref hk narrow).loosen (Level.looseness_le _)
  | @binary op t left right a b hop hl hr hol hor =>
      rw [← BinaryOp.looseness_level] at hor
      have narrow : Derives op.level right b := hr.tighten (Level.looseness_le _) hor
      exact (narrow.of_operator hop hl hol).loosen (Level.looseness_le _)

/-! ## One phrase

What the scans find in the tokens says how the phrase falls into parts. -/

section Reading
variable {P : List Token → Phrase → Prop} {ts : List Token} {e : Phrase}

theorem Parts.of_singleton (hP : ∀ ts e, P ts e → ts ≠ []) {t : Token} (h : Parts P ts e)
    (hts : ts = [t]) : e = .operand t := by
  have short : ts.length = 1 := by rw [hts]; rfl
  cases h with
  | operand _ => rw [List.cons.inj hts |>.1]
  | group _ _ _ => simp at short
  | deref _ ha _ =>
      have := List.length_pos_iff.mpr (hP _ _ ha)
      simp only [List.length_cons] at short; omega
  | binary _ ha _ _ _ =>
      have := List.length_pos_iff.mpr (hP _ _ ha)
      simp only [List.length_append, List.length_cons] at short; omega

theorem Parts.of_outer_eq_nil (hP : ∀ ts e, P ts e → Balanced ts) (h : Parts P ts e)
    (none : outer 0 ts = []) :
    (∃ t, ts = [t]) ∨ ∃ l middle r, ts = l :: (middle ++ [r]) ∧ P middle e := by
  cases h with
  | operand _ => exact .inl ⟨_, rfl⟩
  | group _ _ h => exact .inr ⟨_, _, _, rfl, h⟩
  | deref hk _ _ =>
      rw [outer_cons_operator (TokenKind.operator?_eq_deref.mpr hk)] at none
      cases none
  | binary hop ha _ _ _ =>
      rw [outer_append_operator hop (hP _ _ ha)] at none
      exact absurd none (by simp)

theorem Parts.of_parting (hP : ∀ ts e, P ts e → Balanced ts) {place : Nat} {op : Operator}
    (h : Parts P ts e) (hp : parting 0 ts = .ok (place, op)) :
    match op with
    | .deref => ∃ a, P (ts.drop 1) a ∧ e = .deref a
    | .binary op =>
      ∃ a b, P (ts.take place) a ∧ P (ts.drop (place + 1)) b ∧ e = .binary op a b := by
  have some_outer : outer 0 ts ≠ [] := by
    obtain ⟨left, t, right, rfl, -, hop, hl, -⟩ := parting_eq_ok_iff.mp hp
    rw [outer_append_operator hop hl]
    simp
  cases h with
  | operand hk => exact absurd (outer_operand hk) some_outer
  | group hl hr h =>
      exact absurd (outer_group hl hr (hP _ _ h)) some_outer
  | @deref t ts a hk ha ho =>
      cases (parting_cons_deref 0 hk (hP _ _ ha) ho).symm.trans hp
      exact ⟨a, ha, rfl⟩
  | @binary op' t left right a b hop ha hb hol hor =>
      cases (parting_append_operator 0 hop (hP _ _ ha) (hP _ _ hb) hol hor).symm.trans hp
      refine ⟨a, b, ?_, ?_, rfl⟩
      · rwa [List.take_left]
      · rwa [← List.drop_drop, List.drop_left]

end Reading

/-- Tokens are the tokens of one phrase at most. -/
theorem Derives.unique {ts : List Token} :
    ∀ {e e' : Phrase}, Derives .or ts e → Derives .or ts e' → e = e' := by
  have balanced : ∀ ts e, Derives .or ts e → Balanced ts := fun _ _ => Derives.balanced
  induction hn : ts.length using Nat.strong_induction_on generalizing ts with
  | _ n ih =>
      intro e e' h h'
      have parts := h.parts
      cases h'.parts with
      | operand _ => exact parts.of_singleton (fun _ _ => Derives.ne_nil) rfl
      | @group l r middle _ hl hr hm =>
          rcases parts.of_outer_eq_nil balanced (outer_group hl hr hm.balanced) with
            ⟨t, ht⟩ | ⟨l', middle', r', ht, hm'⟩
          · exact absurd ht (by simp)
          · have same : middle = middle' :=
              (List.append_inj' (List.cons.inj ht).2 rfl).1
            subst same
            have shorter : middle.length < n := by
              simp only [← hn, List.length_cons, List.length_append]; omega
            exact ih _ shorter rfl hm' hm
      | @deref t rest a hk ha ho =>
          have hp := parting_cons_deref 0 hk ha.balanced ho
          obtain ⟨a', ha', rfl⟩ := parts.of_parting balanced hp
          have shorter : rest.length < n := by simp only [← hn, List.length_cons]; omega
          rw [ih _ shorter rfl ha' ha]
      | @binary op t left right a b hop ha hb hol hor =>
          have hp := parting_append_operator 0 hop ha.balanced hb.balanced hol hor
          obtain ⟨a', b', ha', hb', rfl⟩ := parts.of_parting balanced hp
          rw [List.take_left] at ha'
          rw [← List.drop_drop, List.drop_left] at hb'
          have shorter : left.length < n ∧ right.length < n := by
            simp only [← hn, List.length_append, List.length_cons]; omega
          rw [ih _ shorter.1 rfl ha' ha, ih _ shorter.2 rfl hb' hb]

end HartMonitor
