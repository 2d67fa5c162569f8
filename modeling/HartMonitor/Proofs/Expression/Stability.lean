/-
# `HartMonitor.Proofs.Expression.Stability` — what a machine has to say about an expression

A text that has a value in one machine is an expression in every machine: its tokens are
those of a phrase, its literals fit a word, its names are names of registers.  Only what
the phrase computes is left to the machine, and only two things can be wrong with it:

    outsideWindow      the address of a dereference
    divisionByZero     the right side of a division

Evaluation takes the phrase apart while it goes, so two machines may leave it at
different places; but a value is found only by going all the way, and then every leaf
was read.  That is an induction on the phrase (`Phrase.ofMachine_of_number`).
-/
import HartMonitor.Proofs.Expression.Agreement
import HartMonitor.Proofs.Expression.Spelling

namespace HartMonitor

/-- The causes that lie in the machine and not in the text. -/
def ExpressionError.OfMachine : ExpressionError → Prop
  | outsideWindow _ | divisionByZero => True
  | _ => False

theorem exists_operandNumber {m : Machine} {t : Token} {n : Nat}
    (h : operandNumber m t = .ok n) (m' : Machine) : ∃ n', operandNumber m' t = .ok n' := by
  simp only [operandNumber] at h ⊢
  split at h
  · exact ⟨n, h⟩
  · exact ⟨n, h⟩
  · simp only [registerNumber] at h ⊢
    split at h
    · next program => exact ⟨_, if_pos program⟩
    · next other =>
      split at h
      · exact ⟨_, if_neg other⟩
      · cases h
  · cases h

theorem ofMachine_of_byteNumber {m : Machine} {addr : Nat} {cause : ExpressionError}
    (h : byteNumber m addr = .error cause) : cause.OfMachine := by
  simp only [byteNumber] at h
  split at h <;> cases h
  trivial

theorem ofMachine_of_operator {op : BinaryOp} {a b : Nat} {cause : ExpressionError}
    (h : op.number a b = .error cause) : cause.OfMachine := by
  cases op with
  | div =>
      simp only [BinaryOp.number] at h
      split at h <;> cases h
      trivial
  | add | sub | mul | and | or | eq | neq => cases h

/-- A phrase with a value in one machine fails in another only for what that machine has. -/
theorem Phrase.ofMachine_of_number {m m' : Machine} {cause : ExpressionError} {e : Phrase} :
    ∀ {n : Nat}, e.number m = .ok n → e.number m' = .error cause → cause.OfMachine := by
  induction e with
  | operand t =>
      intro n valued failed
      obtain ⟨n', good⟩ := exists_operandNumber valued m'
      cases good.symm.trans failed
  | deref address ih =>
      intro n valued failed
      obtain ⟨addr, valued, -⟩ := exists_of_bind_eq_ok valued
      rcases cases_of_bind_eq_error failed with failed | ⟨addr', -, failed⟩
      · exact ih valued failed
      · exact ofMachine_of_byteNumber failed
  | binary op left right ihl ihr =>
      intro n valued failed
      obtain ⟨a, left_valued, valued⟩ := exists_of_bind_eq_ok valued
      obtain ⟨b, right_valued, -⟩ := exists_of_bind_eq_ok valued
      rcases cases_of_bind_eq_error failed with failed | ⟨a', -, failed⟩
      · exact ihl left_valued failed
      rcases cases_of_bind_eq_error failed with failed | ⟨b', -, failed⟩
      · exact ihr right_valued failed
      · exact ofMachine_of_operator failed

theorem ofMachine_of_evaluate {m m' : Machine} {text : String} {w : Word}
    {cause : ExpressionError} (valued : evaluate m text = .ok w)
    (failed : evaluate m' text = .error cause) : cause.OfMachine := by
  obtain ⟨tokens, cut, valued⟩ := exists_of_bind_eq_ok valued
  rw [evaluate, cut] at failed
  have few := Lexer.fewParens_of_tokenize cut
  obtain ⟨e, he⟩ := Evaluation.phrase_of_evalTokens m few valued
  have spelled : ∀ t ∈ significant tokens, t.WellSpelled :=
    fun t ht => Lexer.wellSpelled_of_tokenize cut t (List.mem_filter.mp ht).1
  have number : e.number m = .ok w.toNat :=
    (Evaluation.evalTokens_of_phrase m few he spelled).symm.trans (asNumber_eq_ok_iff.mpr valued)
  have number' : e.number m' = .error cause :=
    (Evaluation.evalTokens_of_phrase m' few he spelled).symm.trans (asNumber_eq_error_iff.mpr failed)
  exact e.ofMachine_of_number number number'

end HartMonitor
