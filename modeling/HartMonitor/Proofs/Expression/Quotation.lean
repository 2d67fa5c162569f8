/-
# `HartMonitor.Proofs.Expression.Quotation` — what errors quote

Some errors quote a piece of the text that has no value.  The lexer quotes the text itself, or the
operator that it refuses; evaluation quotes tokens (`quotes_of_fails`).  No lexeme has a line
feed, so a text with a value has none, and where the text has none, neither has the wording of
the error (`oneLine_message_of_evaluate`).
-/
import HartMonitor.Proofs.Expression.Failing
import HartMonitor.Proofs.Expression.Spelling
import HartMonitor.Proofs.Text.OneLine

namespace HartMonitor

open Lexer (lexeme?)
open Text (OneLine oneLine_ofList)

namespace ExpressionError

/-- The text that an error quotes. -/
def quoted? : ExpressionError → Option String
  | noMatch text _ | badOperand text | invalidLiteral text => some text
  | unsupported op _ => some op
  | unknownRegister name => some name
  | _ => none

variable {e : ExpressionError}

theorem oneLine_message (h : ∀ text ∈ e.quoted?, OneLine text) : OneLine e.message := by
  delta message
  cases e with
  | noMatch text | badOperand text | invalidLiteral text => simp +decide [h text rfl]
  | unsupported op | unknownRegister op => simp +decide [h op rfl]
  | tokenTooLong | tooManyTokens | empty | missingOperand | unbalanced | noOperator
  | misplacedUnary | outsideWindow | divisionByZero => simp +decide

/-- Whatever an error quotes is the text of a token. -/
def Quotes (e : ExpressionError) (tokens : List Token) : Prop :=
  ∀ text ∈ e.quoted?, ∃ t ∈ tokens, t.text = text

theorem Quotes.mono {tokens more : List Token} (h : e.Quotes tokens) (sub : tokens ⊆ more) :
    e.Quotes more := by
  intro text mem
  obtain ⟨t, listed, same⟩ := h text mem
  exact ⟨t, sub listed, same⟩

theorem Quotes.of_none {tokens : List Token} (h : e.quoted? = none) : e.Quotes tokens := by
  intro text mem
  rw [h] at mem
  cases mem

end ExpressionError

open ExpressionError (Quotes)

/-! ## The lexer -/

namespace Lexer

theorem lineFeed_notMem_of_spells {kind : TokenKind} {cs : List Char} (h : kind.Spells cs) :
    '\n' ∉ cs := by
  intro mem
  have held := has_of_spells h _ mem
  cases kind <;> cases held

theorem oneLine_keptText {kind : TokenKind} {lexeme : List Char} (h : '\n' ∉ lexeme) :
    OneLine (keptText kind lexeme) := by
  cases kind with
  | blank => exact (by decide : OneLine "")
  | _ => exact oneLine_ofList.mpr h

section Scan
variable {text : String} {room : Nat} {previous : Option TokenKind} {position : Nat}
  {cs : List Char}

/-- Characters that are cut into tokens have no line feed among them, and no token has one. -/
theorem oneLine_of_scan : ∀ {tokens : List Token},
    scan text room previous position cs = .ok tokens →
      '\n' ∉ cs ∧ ∀ t ∈ tokens, OneLine t.text := by
  fun_induction scan text room previous position cs with
  | case1 room previous position cs empty =>
      intro tokens h
      cases h
      exact ⟨by rw [List.isEmpty_iff.mp empty]; exact List.not_mem_nil, List.forall_mem_nil _⟩
  | case2 | case3 | case4 => intro tokens h; cases h
  | case5 previous position cs _ rule len found =>
      rename_i ih
      intro tokens h
      obtain ⟨token, created, h⟩ := exists_of_bind_eq_ok h
      obtain ⟨rest, scanned, h⟩ := exists_of_bind_eq_ok h
      cases h
      obtain ⟨behind, later⟩ := ih scanned
      have lexeme := lineFeed_notMem_of_spells (FirstLexeme.of_lexeme? found).2.holds
      constructor
      · rw [← List.take_append_drop len cs]
        exact fun mem => (List.mem_append.mp mem).elim lexeme behind
      · rw [eq_of_create created]
        exact List.forall_mem_cons.mpr ⟨oneLine_keptText lexeme, later⟩

/-- The lexer quotes the text that it cuts, or the operator that it refuses. -/
theorem quoted_of_scan : ∀ {e : ExpressionError},
    scan text room previous position cs = .error e → ∀ q ∈ e.quoted?, q = text ∨ q = "!" := by
  fun_induction scan text room previous position cs with
  | case1 => intro e h; cases h
  | case2 => intro e h q mem; cases h; cases mem; exact .inl rfl
  | case3 => intro e h q mem; cases h; cases mem; exact .inr rfl
  | case4 => intro e h q mem; cases h; cases mem
  | case5 previous position cs _ rule len found =>
      rename_i ih
      intro e h
      obtain failed | ⟨token, -, h⟩ := cases_of_bind_eq_error h
      · -- a token that is too long is told by its place
        intro q mem
        simp only [Token.create] at failed
        split at failed
        · cases failed; cases mem
        · cases failed
      · obtain failed | ⟨rest, -, h⟩ := cases_of_bind_eq_error h
        · exact ih failed
        · cases h

end Scan

end Lexer

/-! ## Evaluation -/

namespace Evaluation

variable {m : Machine} {e : ExpressionError}

theorem subset_of_trimBlanks {span inner : List Token} (h : trimBlanks span = inner) :
    inner ⊆ span := by
  subst h
  exact (trimBlanks_isInfix span).subset

/-- An error of a span quotes tokens of the span. -/
theorem quotes_of_fails {start : Nat} {span : List Token} (fails : Fails m start span e) :
    e.Quotes span := by
  induction fails with
  | empty | misplaced | missing => exact .of_none rfl
  | @operand _ _ t _ trimmed failed =>
      intro text mem
      refine ⟨t, subset_of_trimBlanks trimmed (List.mem_singleton_self t), ?_⟩
      rcases cause_of_operand failed with rfl | rfl | rfl <;> exact Option.some.inj mem
  | pivot failed =>
      rcases cause_of_pivot failed with ⟨_, rfl⟩ | ⟨_, _, rfl⟩ <;> exact .of_none rfl
  | byte _ _ failed =>
      obtain rfl := cause_of_dereference failed
      exact .of_none rfl
  | apply _ _ _ _ failed =>
      obtain ⟨-, -, rfl⟩ := cause_of_apply failed
      exact .of_none rfl
  | pair shape _ _ _ _ ih =>
      exact ih.mono fun t mem => subset_of_trimBlanks shape (by simp [mem])
  | address cut _ ih =>
      exact ih.mono fun t mem => subset_of_trimBlanks cut.shape (by simp [mem])
  | left cut _ _ ih =>
      exact ih.mono fun t mem => subset_of_trimBlanks cut.shape (by simp [mem])
  | right cut _ _ _ ih =>
      exact ih.mono fun t mem => subset_of_trimBlanks cut.shape (by simp [mem])

theorem quotes_of_evalTokens {tokens : List Token} (few : FewParens tokens)
    (h : evalTokens m tokens = .error e) :
    e.Quotes tokens := by
  simp only [evalTokens] at h
  split at h
  · cases h; exact .of_none rfl
  · exact quotes_of_fails (fails_of_evalSpan few h)

end Evaluation

/-! ## Texts -/

variable {m : Machine} {text : String}

theorem oneLine_of_evaluate {w : Word} (h : evaluate m text = .ok w) : OneLine text := by
  obtain ⟨tokens, cut, -⟩ := exists_of_bind_eq_ok h
  exact (Lexer.oneLine_of_scan cut).1

/-- The error of a text without a line feed has a wording without one. -/
theorem oneLine_message_of_evaluate {e : ExpressionError} (h : evaluate m text = .error e)
    (line : OneLine text) : OneLine e.message := by
  refine ExpressionError.oneLine_message fun q mem => ?_
  obtain refused | ⟨tokens, cut, failed⟩ := cases_of_bind_eq_error h
  · obtain rfl | rfl := Lexer.quoted_of_scan refused q mem
    · exact line
    · decide
  · have few := Lexer.fewParens_of_tokenize cut
    obtain ⟨t, listed, rfl⟩ := Evaluation.quotes_of_evalTokens few failed q mem
    exact (Lexer.oneLine_of_scan cut).2 t listed

end HartMonitor
