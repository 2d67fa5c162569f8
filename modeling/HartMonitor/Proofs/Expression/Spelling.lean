/-
# `HartMonitor.Proofs.Expression.Spelling` — the lexer spells literals and registers well

What the grammar asks of the text of a token is what the lexer gives: the characters of the
lexeme that it finds (`FirstLexeme.of_lexeme?`).  And it gives so few tokens that their parentheses
can be counted.
-/
import HartMonitor.Proofs.Expression.Counting
import HartMonitor.Proofs.Expression.Grammar
import HartMonitor.Proofs.Expression.Lexeme

namespace HartMonitor.Lexer

theorem wellSpelled_of_lexeme? {cs : List Char} {rule : LexRule} {len : Nat}
    (h : lexeme? cs = some (rule, len)) (previous : Option TokenKind) :
    Token.WellSpelled ⟨kindAfter previous rule.kind,
      keptText (kindAfter previous rule.kind) (cs.take len)⟩ := by
  have every : ∀ {cls : CharClass} {cs : List Char}, cls.Run cs → ∀ c ∈ cs, cls.has c :=
    fun run c mem => CharClass.has_iff.mpr (run.2 c mem)
  have spelled := (FirstLexeme.of_lexeme? h).2.holds
  match hk : rule.kind with
  | .decimal =>
      rw [hk] at spelled
      simp only [kindAfter, keptText, Token.WellSpelled, String.toList_ofList]
      exact ⟨spelled.1, every spelled⟩
  | .hex =>
      rw [hk] at spelled
      obtain ⟨digits, ht, run⟩ := spelled
      simp only [kindAfter, keptText, Token.WellSpelled, String.toList_ofList, ht]
      exact ⟨digits, rfl, run.1, every run⟩
  | .register =>
      rw [hk] at spelled
      obtain ⟨name, ht, run⟩ := spelled
      simp only [kindAfter, keptText, Token.WellSpelled, String.toList_ofList, ht]
      exact ⟨name, rfl, run.1, every run⟩
  | .mul =>
      simp only [kindAfter]
      split <;> trivial
  | .blank | .add | .sub | .div | .deref | .and | .or | .not | .eq | .neq | .leftParen
  | .rightParen => trivial

theorem eq_of_create {kind : TokenKind} {spelling : String} {position : Nat} {t : Token}
    (h : Token.create kind spelling position = .ok t) : t = ⟨kind, spelling⟩ := by
  simp only [Token.create] at h
  split at h <;> cases h
  rfl

theorem wellSpelled_of_scan {text : String} {room : Nat} {previous : Option TokenKind}
    {position : Nat} {cs : List Char} :
    ∀ {tokens : List Token}, scan text room previous position cs = .ok tokens →
      ∀ t ∈ tokens, t.WellSpelled := by
  fun_induction scan text room previous position cs with
  | case1 => intro tokens h; cases h; exact fun _ ht => nomatch ht
  | case2 => intro tokens h; cases h
  | case3 => intro tokens h; cases h
  | case4 => intro tokens h; cases h
  | case5 previous _ _ _ _ _ hl =>
      rename_i ih
      intro tokens h
      obtain ⟨token, ht, h⟩ := exists_of_bind_eq_ok h
      obtain ⟨rest, hrest, h⟩ := exists_of_bind_eq_ok h
      cases h
      rw [eq_of_create ht]
      exact List.forall_mem_cons.mpr ⟨wellSpelled_of_lexeme? hl previous, ih hrest⟩

theorem wellSpelled_of_tokenize {text : String} {tokens : List Token}
    (h : tokenize text = .ok tokens) : ∀ t ∈ tokens, t.WellSpelled :=
  wellSpelled_of_scan h

/-- There are no more tokens than there is room for. -/
theorem length_le_of_scan {text : String} {room : Nat} {previous : Option TokenKind}
    {position : Nat} {cs : List Char} :
    ∀ {tokens : List Token}, scan text room previous position cs = .ok tokens →
      tokens.length ≤ room := by
  fun_induction scan text room previous position cs with
  | case1 => intro tokens h; cases h; exact Nat.zero_le _
  | case2 => intro tokens h; cases h
  | case3 => intro tokens h; cases h
  | case4 => intro tokens h; cases h
  | case5 =>
      rename_i ih
      intro tokens h
      obtain ⟨token, -, h⟩ := exists_of_bind_eq_ok h
      obtain ⟨rest, scanned, h⟩ := exists_of_bind_eq_ok h
      cases h
      exact Nat.succ_le_succ (ih scanned)

/-- A text has no more parentheses than can be counted. -/
theorem fewParens_of_tokenize {text : String} {tokens : List Token}
    (h : tokenize text = .ok tokens) : Evaluation.FewParens tokens :=
  .of_length_lt (Nat.lt_of_le_of_lt (length_le_of_scan h) (by decide))

end HartMonitor.Lexer
