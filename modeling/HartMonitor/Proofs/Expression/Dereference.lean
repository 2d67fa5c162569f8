/-
# `HartMonitor.Proofs.Expression.Dereference` — a dereference has nothing before it

The lexer reads a star as a dereference only where no operand is before it (`Lexed`).  The
evaluator goes into parts of a span, and parts of parts (`Reached`); all of them are pieces of
the list of tokens, in which a star is what it was.  Where a dereference is the pivot of a
piece, nothing stands before it:

    before it           balanced tokens, no operator outside their parentheses
    so the last one     ends an operand, unless there is none      afterOperand_of_balanced
    so the star         would have been read as a product

So no text is refused for a dereference at the wrong place, though a list of tokens may be.
-/
import HartMonitor.Proofs.Expression.Failing
import HartMonitor.Proofs.Expression.Lexical
import HartMonitor.Proofs.Expression.Spelling

namespace HartMonitor

open Evaluation Lexer

/-- What the lexer makes sure of: all operators are supported, and where something stands before a
dereference it does not end an operand. -/
structure Lexed (span : List Token) : Prop where
  supported : ∀ t ∈ span, t.kind ≠ .not
  notBehindOperand : ∀ left t right, span = left ++ t :: right → t.kind = .deref →
    significant left ≠ [] → ¬ AfterOperand left

/-! ## What the lexer makes -/

namespace Lexer

theorem spells_of_cuts {cs left : List Char} {ls : List Lexeme} (cut : Cuts cs ls left) :
    ∀ l ∈ ls, l.kind.Spells l.chars := by
  induction cut with
  | done => exact nofun
  | next first _ ih => exact List.forall_mem_cons.mpr ⟨first.holds, ih⟩

theorem not_afterOperand_of_token {before : List Token} {l : Lexeme}
    (spells : l.kind.Spells l.chars) (deref : (l.token before).kind = .deref) :
    ¬ AfterOperand before := by
  simp only [Lexeme.token] at deref
  split at deref
  · next star => exact star.2
  · rw [deref] at spells
    exact spells.elim

theorem lexed_of_tokenize {text : String} {tokens : List Token} (cut : tokenize text = .ok tokens) :
    Lexed tokens := by
  obtain ⟨tokenized, -⟩ := @scan_iff text maxTokens none 0 text.toList [] rfl
  obtain ⟨ls, cuts, -, sound, same⟩ := (tokenized tokens).mp cut
  refine ⟨?_, fun left t right shape deref _ => ?_⟩
  · rw [same]
    exact supported_of_sound sound
  · have here := eq_tokensOf_iff.mp same left.length
    rw [shape, List.getElem?_append_right (Nat.le_refl _), Nat.sub_self, List.take_left] at here
    obtain ⟨l, at_, rfl⟩ := Option.map_eq_some_iff.mp here.symm
    exact not_afterOperand_of_token (spells_of_cuts cuts l (List.mem_of_getElem? at_)) deref

theorem ne_misplacedUnary_of_tokenize {text : String} {i : Nat} :
    tokenize text ≠ .error (.misplacedUnary i) := by
  intro failed
  obtain ⟨-, refused⟩ := @scan_iff text maxTokens none 0 text.toList [] rfl
  obtain ⟨_, _, -, -, -, offence⟩ := (refused _).mp failed
  cases offence

end Lexer

/-! ## Pieces of a list of tokens -/

theorem lastKind?_eq (tokens : List Token) :
    lastKind? tokens = (significant tokens).getLast?.map (·.kind) := by
  have same : (tokens.filter fun t => t.kind ≠ .blank) = significant tokens := by
    refine List.filter_congr fun t _ => ?_
    rw [Token.isBlank, decide_not, beq_eq_decide]
  rw [lastKind?, same]

theorem afterOperand_append {front left : List Token} (some : significant left ≠ []) :
    AfterOperand (front ++ left) ↔ AfterOperand left := by
  rw [AfterOperand, AfterOperand, lastKind?_eq, lastKind?_eq, significant_append,
    List.getLast?_append_of_ne_nil _ some]

theorem Lexed.piece {span piece : List Token} (h : Lexed span) (within : piece <:+: span) :
    Lexed piece := by
  obtain ⟨front, back, rfl⟩ := within
  refine ⟨fun t mem => h.supported t (by simp [mem]), fun left t right shape deref some => ?_⟩
  subst shape
  have whole : front ++ (left ++ t :: right) ++ back = (front ++ left) ++ t :: (right ++ back) := by
    simp
  rw [← afterOperand_append some]
  refine h.notBehindOperand _ _ _ whole deref ?_
  rw [significant_append]
  exact List.append_ne_nil_of_right_ne_nil _ some

namespace Evaluation

/-- Balanced tokens without an operator outside their parentheses end an operand. -/
theorem afterOperand_of_balanced {span : List Token} (supported : ∀ t ∈ span, t.kind ≠ .not)
    (nonempty : significant span ≠ []) (balanced : Balanced span) (bare : outer 0 span = []) :
    AfterOperand span := by
  obtain ⟨init, last, shape⟩ := (List.eq_nil_or_concat _).resolve_left nonempty
  rw [List.concat_eq_append] at shape
  have mem : last ∈ significant span := by
    rw [shape]
    exact List.mem_concat_self
  obtain ⟨listed, visible⟩ := List.mem_filter.mp mem
  rw [← outer_significant, shape] at bare
  rw [← balanced_significant, shape, Balanced, depthAfter_append, Option.bind_eq_some_iff] at balanced
  obtain ⟨depth, inside, closes⟩ := balanced
  have noOperator : last.kind.operator? = none := by
    cases found : last.kind.operator? with
    | none => rfl
    | some op =>
        rw [depthAfter_cons_operator found] at closes
        obtain rfl := Option.some.inj closes
        rw [outer_append_operator found inside] at bare
        exact absurd bare (by simp)
  rw [AfterOperand, lastKind?_eq, shape, List.getLast?_concat, Option.map_some]
  cases hk : last.kind with
  | decimal | hex | register | rightParen => decide
  | blank => simp [Token.isBlank, hk] at visible
  | not => exact absurd hk (supported last listed)
  | leftParen => simp [depthAfter, hk] at closes
  | add | sub | mul | div | deref | and | or | eq | neq =>
      rw [hk] at noOperator
      cases noOperator

end Evaluation

theorem significant_eq_nil_of_cut {span left right : List Token} {t : Token} (lexed : Lexed span)
    (cut : Cut span left t .deref right) : significant left = [] := by
  by_contra some
  have bare : outer 0 left = [] := by
    rw [List.eq_nil_iff_forall_not_mem]
    intro o mem
    -- no operator binds tighter than a dereference
    have tighter := cut.looser o mem
    cases o with
    | deref => exact absurd tighter (by decide)
    | binary op => cases op <;> exact absurd tighter (by decide)
  have supported : ∀ u ∈ left, u.kind ≠ .not := by
    intro u mem
    refine lexed.supported u ?_
    rw [cut.shape]
    exact List.mem_append_left _ mem
  exact lexed.notBehindOperand left t right cut.shape (TokenKind.operator?_eq_deref.mp cut.operator)
    some (afterOperand_of_balanced supported some cut.left_balanced bare)

/-! ## The parts that evaluation goes into -/

/-- The spans that evaluation goes into, from the whole list of tokens on, with their positions. -/
inductive Reached (tokens : List Token) : Nat → List Token → Prop
  | whole : Reached tokens 0 tokens
  | pair {start : Nat} {span middle : List Token} {l r : Token} : Reached tokens start span →
      trimBlanks span = l :: (middle ++ [r]) → enclosed (trimBlanks span) = true →
      Reached tokens (start + leadingBlanks span + 1) middle
  | address {start : Nat} {span rest : List Token} {t : Token} : Reached tokens start span →
      Cut (trimBlanks span) [] t .deref rest →
      Reached tokens (start + leadingBlanks span + 1) rest
  | left {start : Nat} {span left right : List Token} {t : Token} {op : BinaryOp} :
      Reached tokens start span → Cut (trimBlanks span) left t (.binary op) right →
      Reached tokens (start + leadingBlanks span) left
  | right {start : Nat} {span left right : List Token} {t : Token} {op : BinaryOp} :
      Reached tokens start span → Cut (trimBlanks span) left t (.binary op) right →
      Reached tokens (start + leadingBlanks span + left.length + 1) right

section Reached
variable {tokens span : List Token} {start : Nat}

theorem Reached.isInfix (h : Reached tokens start span) : span <:+: tokens := by
  induction h with
  | whole => exact List.infix_rfl
  | @pair _ span middle l r _ shape _ ih =>
      have inner : middle <:+: l :: (middle ++ [r]) := ⟨[l], [r], rfl⟩
      rw [← shape] at inner
      exact (inner.trans (trimBlanks_isInfix span)).trans ih
  | @address _ span rest t _ cut ih =>
      have inner : rest <:+: trimBlanks span := ⟨[t], [], by simp [cut.shape]⟩
      exact (inner.trans (trimBlanks_isInfix span)).trans ih
  | @left _ span left right t _ _ cut ih =>
      have inner : left <:+: trimBlanks span := ⟨[], t :: right, by simp [cut.shape]⟩
      exact (inner.trans (trimBlanks_isInfix span)).trans ih
  | @right _ span left right t _ _ cut ih =>
      have inner : right <:+: trimBlanks span := ⟨left ++ [t], [], by simp [cut.shape]⟩
      exact (inner.trans (trimBlanks_isInfix span)).trans ih

theorem Reached.fewParens (h : Reached tokens start span) (few : FewParens tokens) :
    FewParens span :=
  few.of_sublist h.isInfix.sublist

/-- A pivot of lexed tokens that is a dereference comes first. -/
theorem Reached.deref_first (h : Reached tokens start span) (few : FewParens tokens)
    (lexed : Lexed tokens) {place : Nat}
    (found : pivot (start + leadingBlanks span) (trimBlanks span) = .ok (place, .deref)) :
    place = 0 := by
  obtain ⟨left, t, right, cut, rfl⟩ := exists_cut ((h.fewParens few).trimmed rfl) found
  have piece : Lexed (trimBlanks span) := lexed.piece ((trimBlanks_isInfix span).trans h.isInfix)
  have blank := significant_eq_nil_of_cut piece cut
  cases left with
  | nil => rfl
  | cons u more =>
      -- a trimmed span does not begin with a blank
      have visible : u.isBlank = false :=
        not_isBlank_of_head?_trimBlanks (by rw [cut.shape]; rfl)
      simp [significant, visible] at blank

/-- Evaluation refuses a dereference at the wrong place only where it has gone to one. -/
theorem exists_reached_of_fails {m : Machine} {cause : ExpressionError} {i : Nat}
    (few : FewParens tokens) (fails : Fails m start span cause)
    (misplaced : cause = .misplacedUnary i) :
    Reached tokens start span → ∃ start' span' place, Reached tokens start' span' ∧
      pivot (start' + leadingBlanks span') (trimBlanks span') = .ok (place, .deref) ∧
      place ≠ 0 := by
  induction fails with
  | empty | missing => cases misplaced
  | operand _ failed =>
      rcases cause_of_operand failed with rfl | rfl | rfl <;> cases misplaced
  | pivot failed =>
      rcases cause_of_pivot failed with ⟨_, rfl⟩ | ⟨_, _, rfl⟩ <;> cases misplaced
  | byte _ _ failed =>
      obtain rfl := cause_of_dereference failed
      cases misplaced
  | apply _ _ _ _ failed =>
      obtain ⟨-, -, rfl⟩ := cause_of_apply failed
      cases misplaced
  | @misplaced start span left right t cut some =>
      intro reached
      exact ⟨start, span, left.length, reached, cut.pivot_eq ((reached.fewParens few).trimmed rfl) _,
        mt List.length_eq_zero_iff.mp some⟩
  | pair shape hl hr balanced _ ih =>
      intro reached
      refine ih misplaced (reached.pair shape ?_)
      exact (enclosed_iff ((reached.fewParens few).trimmed rfl)).mpr
        ⟨_, _, _, shape, hl, hr, balanced⟩
  | address cut _ ih => intro reached; exact ih misplaced (reached.address cut)
  | left cut _ _ ih => intro reached; exact ih misplaced (reached.left cut)
  | right cut _ _ _ ih => intro reached; exact ih misplaced (reached.right cut)

end Reached

/-- A text is never refused for a dereference at the wrong place, because in no span that its
evaluation goes into the pivot is a dereference that is not the first token.  A list of tokens can
be refused for that. -/
theorem dereference_leads (m : Machine) (text : String) :
    (∀ i, evaluate m text ≠ .error (.misplacedUnary i)) ∧
      (∀ tokens, tokenize text = .ok tokens → ∀ start span, Reached tokens start span →
        ∀ place, pivot (start + leadingBlanks span) (trimBlanks span) = .ok (place, .deref) →
          place = 0) ∧
      evalTokens m [⟨.decimal, "1"⟩, ⟨.deref, "*"⟩, ⟨.decimal, "2"⟩] =
        .error (.misplacedUnary 1) := by
  refine ⟨fun i failed => ?_, fun tokens cut start span reached place found => ?_, ?_⟩
  · rcases cases_of_bind_eq_error failed with refused | ⟨tokens, cut, failed⟩
    · exact ne_misplacedUnary_of_tokenize refused
    · simp only [evalTokens] at failed
      split at failed
      · cases failed
      · have few := fewParens_of_tokenize cut
        obtain ⟨start, span, place, reached, found, some⟩ :=
          exists_reached_of_fails few (fails_of_evalSpan few failed) rfl .whole
        exact some (reached.deref_first few (lexed_of_tokenize cut) found)
  · exact reached.deref_first (fewParens_of_tokenize cut) (lexed_of_tokenize cut) found
  · have trimmed : trimBlanks [⟨.decimal, "1"⟩, ⟨.deref, "*"⟩, ⟨.decimal, "2"⟩] =
        [⟨.decimal, "1"⟩, ⟨.deref, "*"⟩, ⟨.decimal, "2"⟩] := by decide
    rw [evalTokens, if_neg (by decide), evalSpan_several m 0 trimmed, if_neg (by decide)]
    rfl

/-- Two stars: the first one is a product, and cuts the tokens; the second one comes first among
those behind it. -/
theorem dereference_leads_two_stars :
    let m : Machine := ⟨Registers.zeros, 0x80000000, Memory.create 0x80000000 16⟩
    let behind : List Token := [⟨.blank, ""⟩, ⟨.deref, "*"⟩, ⟨.hex, "0x80000000"⟩]
    let tokens : List Token := [⟨.decimal, "2"⟩, ⟨.blank, ""⟩] ++ ⟨.mul, "*"⟩ :: behind
    tokenize "2 * *0x80000000" = .ok tokens ∧ Reached tokens 3 behind ∧
      (∃ place, pivot 4 (trimBlanks behind) = .ok (place, .deref) ∧ place = 0) ∧
      ∀ i, evaluate m "2 * *0x80000000" ≠ .error (.misplacedUnary i) := by
  intro m behind tokens
  have cut : tokenize "2 * *0x80000000" = .ok tokens := by decide +kernel
  have at_product : Cut (trimBlanks tokens) [⟨.decimal, "2"⟩, ⟨.blank, ""⟩] ⟨.mul, "*"⟩
      (.binary .mul) behind := ⟨by decide, rfl, rfl, rfl, by decide, by decide⟩
  have reached : Reached tokens 3 behind := Reached.whole.right at_product
  have found : pivot 4 (trimBlanks behind) = .ok (0, .deref) := by decide
  obtain ⟨never, first, -⟩ := dereference_leads m "2 * *0x80000000"
  exact ⟨cut, reached, ⟨0, found, first tokens cut 3 behind reached 0 found⟩, never⟩

end HartMonitor
