/-
# `HartMonitor.Proofs.Expression.Lexical` — the lexer is the lexical grammar

A text is cut into lexemes from the left, at every position the one that decides there
(`Cuts`).  It is a list of tokens where the cuts come to its end, there are not too many of
them, and every lexeme is one that a token can be made of (`Lexeme.Sound`).  Otherwise
something is wrong behind the lexemes that are sound, and the first thing that is, in the
order of `Offence`, is the error.

    scan_iff            both outcomes, by induction along the scan, from any position on
    tokenize_exact      the two of them from the start of a text

The induction carries the tokens that were read (`before`).  The lexer keeps no more of them
than the kind it looks back to, which is enough to tell a product from a dereference.
-/
import HartMonitor.Proofs.Expression.Grammar
import HartMonitor.Proofs.Expression.Lexeme

namespace HartMonitor

namespace Lexer

/-! ## Cutting a text -/

/-- A piece of a text, with the kind of the rule that found it. -/
structure Lexeme where
  kind : TokenKind
  chars : List Char
deriving DecidableEq, Repr

/-- Some lexemes are cut off a text, one after the other, down to what is left of it. -/
inductive Cuts : List Char → List Lexeme → List Char → Prop
  | done {cs : List Char} : Cuts cs [] cs
  | next {kind : TokenKind} {chars rest left : List Char} {ls : List Lexeme} :
      FirstLexeme kind (chars ++ rest) chars → Cuts rest ls left →
      Cuts (chars ++ rest) (⟨kind, chars⟩ :: ls) left

def spelling (ls : List Lexeme) : List Char := ls.flatMap (·.chars)

/-- A token can be made of a lexeme: it is supported, and not too long unless it is blank. -/
structure Lexeme.Sound (l : Lexeme) : Prop where
  supported : l.kind ≠ .not
  short : l.kind ≠ .blank → byteLength l.chars ≤ maxTokenBytes

/-- What is wrong at the head of `cs`, the rest of a text of which `position` bytes are behind, with
room for `room` tokens. -/
inductive Offence (text : String) (position room : Nat) (cs : List Char) : ExpressionError → Prop
  | noMatch : cs ≠ [] → (∀ kind : TokenKind, ∀ more, more <+: cs → ¬ kind.Spells more) →
      Offence text position room cs (.noMatch text position)
  | unsupported {chars : List Char} : FirstLexeme .not cs chars →
      Offence text position room cs (.unsupported "!" position)
  | tooMany {kind : TokenKind} {chars : List Char} : FirstLexeme kind cs chars → kind ≠ .not →
      room = 0 → Offence text position room cs (.tooManyTokens maxTokens)
  | tooLong {kind : TokenKind} {chars : List Char} : FirstLexeme kind cs chars → kind ≠ .not →
      room ≠ 0 → kind ≠ .blank → maxTokenBytes < byteLength chars →
      Offence text position room cs (.tokenTooLong position (byteLength chars))

section Cuts
variable {cs left : List Char} {ls : List Lexeme}

theorem Cuts.spelling_append (h : Cuts cs ls left) : spelling ls ++ left = cs := by
  induction h with
  | done => rfl
  | next _ _ ih => rw [spelling, List.flatMap_cons, List.append_assoc]; exact congrArg _ ih

theorem cuts_of_none (none : ∀ kind chars, ¬ FirstLexeme kind cs chars) :
    Cuts cs ls left ↔ ls = [] ∧ left = cs := by
  constructor
  · rintro (_ | ⟨first, -⟩)
    · exact ⟨rfl, rfl⟩
    · exact absurd first (none _ _)
  · rintro ⟨rfl, rfl⟩
    exact .done

/-- Where a lexeme decides, it is cut off first. -/
theorem cuts_of_some {kind : TokenKind} {chars rest : List Char}
    (first : FirstLexeme kind (chars ++ rest) chars) :
    Cuts (chars ++ rest) ls left ↔
      ls = [] ∧ left = chars ++ rest ∨ ∃ ls', ls = ⟨kind, chars⟩ :: ls' ∧ Cuts rest ls' left := by
  constructor
  · generalize whole : chars ++ rest = cs
    intro cut
    cases cut with
    | done => exact .inl ⟨rfl, rfl⟩
    | @next kind' chars' rest' _ ls' first' cut =>
        rw [whole] at first
        obtain ⟨rfl, rfl⟩ := first.unique first'
        obtain rfl := List.append_cancel_left whole
        exact .inr ⟨ls', rfl, cut⟩
  · rintro (⟨rfl, rfl⟩ | ⟨ls', rfl, cut⟩)
    · exact .done
    · exact .next first cut

end Cuts

/-! ## The tokens of lexemes -/

/-- The kind of the last of some tokens that is not a run of blanks. -/
def lastKind? (tokens : List Token) : Option TokenKind :=
  (tokens.filter fun t => t.kind ≠ .blank).getLast?.map (·.kind)

/-- The last token that is not a run of blanks ends an operand. -/
def AfterOperand (tokens : List Token) : Prop :=
  lastKind? tokens ∈ [some .decimal, some .hex, some .register, some .rightParen]

instance (tokens : List Token) : Decidable (AfterOperand tokens) :=
  inferInstanceAs (Decidable (_ ∈ _))

def Lexeme.token (before : List Token) (l : Lexeme) : Token where
  kind := if l.kind = .mul ∧ ¬ AfterOperand before then .deref else l.kind
  text := if l.kind = .blank then "" else String.ofList l.chars

def tokensOf (before : List Token) : List Lexeme → List Token
  | [] => []
  | l :: ls => l.token before :: tokensOf (before ++ [l.token before]) ls

/-- Every token is that of the lexeme at its place, behind the tokens before it. -/
theorem eq_tokensOf_iff {ls : List Lexeme} {tokens : List Token} :
    ∀ {before : List Token}, tokens = tokensOf before ls ↔
      ∀ i : Nat, tokens[i]? = ls[i]?.map (Lexeme.token (before ++ tokens.take i)) := by
  induction ls generalizing tokens with
  | nil =>
      intro before
      constructor
      · rintro rfl i
        rfl
      · intro each
        exact List.length_eq_zero_iff.mp (Nat.le_zero.mp (List.getElem?_eq_none_iff.mp (each 0)))
  | cons l ls ih =>
      intro before
      cases tokens with
      | nil =>
          refine iff_of_false nofun fun each => ?_
          cases each 0
      | cons t tokens =>
          have later : ∀ i : Nat, before ++ (t :: tokens).take (i + 1) =
              before ++ [t] ++ tokens.take i := by
            intro i
            rw [List.take_succ_cons, List.append_assoc, List.singleton_append]
          constructor
          · intro same
            obtain ⟨rfl, rfl⟩ := List.cons.inj same
            intro i
            cases i with
            | zero => rw [List.take_zero, List.append_nil]; rfl
            | succ i => rw [later]; exact ih.mp rfl i
          · intro each
            have first := each 0
            rw [List.take_zero, List.append_nil] at first
            obtain rfl := Option.some.inj first
            exact congrArg _ (ih.mpr fun i => by rw [← later]; exact each (i + 1))

theorem supported_of_sound {ls : List Lexeme} (h : ∀ l ∈ ls, l.Sound) :
    ∀ {before : List Token}, ∀ t ∈ tokensOf before ls, t.kind ≠ .not := by
  induction ls with
  | nil => intro before t mem; cases mem
  | cons l ls ih =>
      intro before
      obtain ⟨here, later⟩ := List.forall_mem_cons.mp h
      refine List.forall_mem_cons.mpr ⟨?_, ih later⟩
      simp only [Lexeme.token]
      split
      · exact nofun
      · exact here.supported

/-- A text is cut to its end into sound lexemes, no more of them than there is room for, and these
are their tokens, some others standing before them. -/
def Tokenized (before : List Token) (room : Nat) (cs : List Char) (tokens : List Token) : Prop :=
  ∃ ls, Cuts cs ls [] ∧ ls.length ≤ room ∧ (∀ l ∈ ls, l.Sound) ∧ tokens = tokensOf before ls

/-- Sound lexemes are cut off a text, no more of them than there is room for, and behind them
something is wrong. -/
def Refused (text : String) (position room : Nat) (cs : List Char) (e : ExpressionError) : Prop :=
  ∃ ls left, Cuts cs ls left ∧ ls.length ≤ room ∧ (∀ l ∈ ls, l.Sound) ∧
    Offence text (position + byteLength (spelling ls)) (room - ls.length) left e

section Step
variable {text : String} {position room : Nat} {before tokens : List Token}
variable {cs chars rest : List Char} {kind : TokenKind} {e : ExpressionError}

theorem not_firstLexeme_nil (kind : TokenKind) (chars : List Char) :
    ¬ FirstLexeme kind [] chars := by
  intro first
  exact ne_nil_of_spells first.holds (List.prefix_nil.mp first.isPrefix)

theorem tokenized_nil : Tokenized before room [] tokens ↔ tokens = [] := by
  constructor
  · rintro ⟨ls, cut, -, -, rfl⟩
    obtain ⟨rfl, -⟩ := (cuts_of_none not_firstLexeme_nil).mp cut
    rfl
  · rintro rfl
    exact ⟨[], .done, Nat.zero_le _, nofun, rfl⟩

theorem not_tokenized_of_none (nonempty : cs ≠ [])
    (none : ∀ kind chars, ¬ FirstLexeme kind cs chars) : ¬ Tokenized before room cs tokens := by
  rintro ⟨ls, cut, -⟩
  exact nonempty ((cuts_of_none none).mp cut).2.symm

theorem tokenized_of_some (first : FirstLexeme kind (chars ++ rest) chars) :
    Tokenized before room (chars ++ rest) tokens ↔
      Lexeme.Sound ⟨kind, chars⟩ ∧ ∃ room', room = room' + 1 ∧
        ∃ tokens', Tokenized (before ++ [Lexeme.token before ⟨kind, chars⟩]) room' rest tokens' ∧
          tokens = Lexeme.token before ⟨kind, chars⟩ :: tokens' := by
  constructor
  · rintro ⟨ls, cut, few, sound, rfl⟩
    obtain ⟨-, whole⟩ | ⟨ls, rfl, next⟩ := (cuts_of_some first).mp cut
    · exact absurd (List.append_eq_nil_iff.mp whole.symm).1 (ne_nil_of_spells first.holds)
    · obtain ⟨here, later⟩ := List.forall_mem_cons.mp sound
      obtain ⟨room', rfl⟩ := Nat.exists_eq_add_of_le' (Nat.le_trans (Nat.succ_pos _) few)
      exact ⟨here, room', rfl, _, ⟨ls, next, Nat.le_of_succ_le_succ few, later, rfl⟩, rfl⟩
  · rintro ⟨here, room', rfl, _, ⟨ls, cut, few, later, rfl⟩, rfl⟩
    exact ⟨_ :: ls, .next first cut, Nat.succ_le_succ few, List.forall_mem_cons.mpr ⟨here, later⟩,
      rfl⟩

theorem offence_of_none (nonempty : cs ≠ [])
    (none : ∀ kind : TokenKind, ∀ more, more <+: cs → ¬ kind.Spells more) :
    Offence text position room cs e ↔ e = .noMatch text position := by
  constructor
  · rintro (⟨-, -⟩ | first | ⟨first, -, -⟩ | ⟨first, -, -, -, -⟩)
    · rfl
    all_goals exact absurd first.holds (none _ _ first.isPrefix)
  · rintro rfl
    exact .noMatch nonempty none

/-- Where a lexeme decides, the order of what can be wrong is that of the lexer. -/
theorem offence_of_some (first : FirstLexeme kind cs chars) :
    Offence text position room cs e ↔
      if kind = .not then e = .unsupported "!" position
      else if room = 0 then e = .tooManyTokens maxTokens
      else kind ≠ .blank ∧ maxTokenBytes < byteLength chars ∧
        e = .tokenTooLong position (byteLength chars) := by
  constructor
  · intro wrong
    cases wrong with
    | noMatch _ none => exact absurd first.holds (none _ _ first.isPrefix)
    | unsupported first' =>
        obtain ⟨rfl, -⟩ := first.unique first'
        rw [if_pos rfl]
    | tooMany first' supported full =>
        obtain ⟨rfl, -⟩ := first.unique first'
        rw [if_neg supported, if_pos full]
    | tooLong first' supported vacant visible long =>
        obtain ⟨rfl, rfl⟩ := first.unique first'
        rw [if_neg supported, if_neg vacant]
        exact ⟨visible, long, rfl⟩
  · intro wrong
    split at wrong
    · next refused => subst wrong refused; exact .unsupported first
    · next supported =>
      split at wrong
      · next full => subst wrong; exact .tooMany first supported full
      · next vacant =>
        obtain ⟨visible, long, rfl⟩ := wrong
        exact .tooLong first supported vacant visible long

theorem refused_of_none (none : ∀ kind chars, ¬ FirstLexeme kind cs chars) :
    Refused text position room cs e ↔ Offence text position room cs e := by
  constructor
  · rintro ⟨ls, left, cut, -, -, wrong⟩
    obtain ⟨rfl, rfl⟩ := (cuts_of_none none).mp cut
    exact wrong
  · intro wrong
    exact ⟨[], cs, .done, Nat.zero_le _, nofun, wrong⟩

theorem refused_of_some (first : FirstLexeme kind (chars ++ rest) chars) :
    Refused text position room (chars ++ rest) e ↔
      Offence text position room (chars ++ rest) e ∨
        Lexeme.Sound ⟨kind, chars⟩ ∧ ∃ room', room = room' + 1 ∧
          Refused text (position + byteLength chars) room' rest e := by
  have behind : ∀ ls : List Lexeme, position + byteLength (spelling (⟨kind, chars⟩ :: ls)) =
      position + byteLength chars + byteLength (spelling ls) := by
    intro ls
    rw [spelling, List.flatMap_cons, byteLength_append, Nat.add_assoc]
    rfl
  have fewer : ∀ (room : Nat) (l : Lexeme) (ls : List Lexeme),
      room + 1 - (l :: ls).length = room - ls.length :=
    fun room l ls => Nat.add_sub_add_right room 1 ls.length
  constructor
  · rintro ⟨ls, left, cut, few, sound, wrong⟩
    obtain ⟨rfl, rfl⟩ | ⟨ls, rfl, next⟩ := (cuts_of_some first).mp cut
    · exact .inl wrong
    · obtain ⟨here, later⟩ := List.forall_mem_cons.mp sound
      obtain ⟨room', rfl⟩ := Nat.exists_eq_add_of_le' (Nat.le_trans (Nat.succ_pos _) few)
      rw [behind, fewer] at wrong
      exact .inr ⟨here, room', rfl, ls, left, next, Nat.le_of_succ_le_succ few, later, wrong⟩
  · rintro (wrong | ⟨here, room', rfl, ls, left, cut, few, later, wrong⟩)
    · exact ⟨[], _, .done, Nat.zero_le _, nofun, wrong⟩
    · refine ⟨_ :: ls, left, .next first cut, Nat.succ_le_succ few,
        List.forall_mem_cons.mpr ⟨here, later⟩, ?_⟩
      rw [behind, fewer]
      exact wrong

end Step

/-! ## The scan -/

section Scan
variable {text : String} {position room : Nat} {before : List Token}
variable {cs chars : List Char} {kind : TokenKind}

theorem lookBack_lastKind? (t : Token) :
    lookBack (lastKind? before) t.kind = lastKind? (before ++ [t]) := by
  obtain ⟨kind, text⟩ := t
  cases kind <;> simp [lookBack, lastKind?, List.filter_append]

/-- A token is the one of its lexeme. -/
theorem token_eq (before : List Token) (kind : TokenKind) (chars : List Char) :
    Lexeme.token before ⟨kind, chars⟩ =
      ⟨kindAfter (lastKind? before) kind,
        keptText (kindAfter (lastKind? before) kind) chars⟩ := by
  have ends : ((lastKind? before).map TokenKind.endsOperand).getD false = true ↔
      AfterOperand before := by
    rw [AfterOperand]
    generalize lastKind? before = last
    cases last with
    | none => decide
    | some kind => cases kind <;> decide
  cases kind with
  | mul =>
      by_cases after : AfterOperand before <;>
        simp [Lexeme.token, kindAfter, ends, after, keptText]
  | _ => rfl

theorem keptText_of_ne_blank (previous : Option TokenKind) (chars : List Char)
    (h : kind ≠ .blank) : keptText (kindAfter previous kind) chars = String.ofList chars := by
  cases kind with
  | blank => exact absurd rfl h
  | mul =>
      simp only [kindAfter]
      split <;> rfl
  | _ => rfl

/-- A token is made of a lexeme unless it is too long. -/
theorem create_eq (before : List Token) :
    Token.create (kindAfter (lastKind? before) kind)
        (keptText (kindAfter (lastKind? before) kind) chars) position =
      if kind ≠ .blank ∧ maxTokenBytes < byteLength chars then
        .error (.tokenTooLong position (byteLength chars))
      else .ok (Lexeme.token before ⟨kind, chars⟩) := by
  rw [token_eq, Token.create]
  by_cases blank : kind = .blank
  · subst blank
    rfl
  · rw [keptText_of_ne_blank _ _ blank]
    simp only [ne_eq, blank, not_false_eq_true, true_and]
    rfl

theorem exists_firstLexeme {rule : LexRule} {n : Nat} (h : lexeme? cs = some (rule, n)) :
    ∃ chars rest, cs = chars ++ rest ∧ cs.take n = chars ∧ cs.drop n = rest ∧
      byteLength chars = n ∧ FirstLexeme rule.kind (chars ++ rest) chars := by
  obtain ⟨within, first⟩ := FirstLexeme.of_lexeme? h
  refine ⟨cs.take n, cs.drop n, (List.take_append_drop n cs).symm, rfl, rfl, ?_, ?_⟩
  · rw [byteLength_of_spells first.holds, List.length_take, Nat.min_eq_left within]
  · rw [List.take_append_drop]
    exact first

theorem cons_eq_ok_iff {outcome : Except ExpressionError (List Token)} {t : Token}
    {tokens : List Token} :
    (do let rest ← outcome; return t :: rest) = .ok tokens ↔
      ∃ rest, outcome = .ok rest ∧ tokens = t :: rest := by
  cases outcome with
  | error e => exact iff_of_false nofun (by rintro ⟨_, h, -⟩; cases h)
  | ok rest =>
      constructor
      · intro h; cases h; exact ⟨rest, rfl, rfl⟩
      · rintro ⟨_, h, rfl⟩; cases h; rfl

theorem cons_eq_error_iff {outcome : Except ExpressionError (List Token)} {t : Token}
    {e : ExpressionError} :
    (do let rest ← outcome; return t :: rest) = .error e ↔ outcome = .error e := by
  cases outcome with
  | error e' => exact ⟨fun h => by cases h; rfl, fun h => by cases h; rfl⟩
  | ok rest => exact iff_of_false nofun nofun

/-- From any position on, the lexer gives the tokens of a text or the first thing wrong in it. -/
theorem scan_iff {text : String} {room : Nat} {previous : Option TokenKind} {position : Nat}
    {cs : List Char} :
    ∀ {before : List Token}, lastKind? before = previous →
      (∀ tokens, scan text room previous position cs = .ok tokens ↔
        Tokenized before room cs tokens) ∧
      ∀ e, scan text room previous position cs = .error e ↔ Refused text position room cs e := by
  have same : ∀ {e e' : ExpressionError},
      (Except.error e' : Except ExpressionError (List Token)) = .error e ↔ e = e' :=
    ⟨fun h => by cases h; rfl, fun h => by rw [h]⟩
  -- the five ways of one step: the end, no lexeme, an operator that is refused, no room, and a
  -- lexeme that there is room for
  fun_induction scan text room previous position cs with
  | case1 room previous position cs empty =>
      intro before _
      obtain rfl := List.isEmpty_iff.mp empty
      refine ⟨fun tokens => ?_, fun e => ?_⟩
      · rw [tokenized_nil]
        exact ⟨fun h => by cases h; rfl, fun h => by rw [h]⟩
      · rw [refused_of_none not_firstLexeme_nil]
        refine iff_of_false nofun ?_
        rintro (⟨nonempty, -⟩ | first | ⟨first, -, -⟩ | ⟨first, -, -, -, -⟩)
        · exact nonempty rfl
        all_goals exact not_firstLexeme_nil _ _ first
  | case2 room previous position cs nonempty missed =>
      intro before _
      have some : cs ≠ [] := fun empty => nonempty (List.isEmpty_iff.mpr empty)
      have none := not_spells_of_lexeme? missed
      have undecided : ∀ kind chars, ¬ FirstLexeme kind cs chars :=
        fun kind chars first => none kind first.isPrefix first.holds
      refine ⟨fun tokens => iff_of_false nofun (not_tokenized_of_none some undecided), fun e => ?_⟩
      rw [refused_of_none undecided, offence_of_none some fun kind more => none kind]
      exact same
  | case3 room previous position cs _ rule n found refused =>
      intro before _
      obtain ⟨chars, rest, rfl, -, -, -, first⟩ := exists_firstLexeme found
      have unsound : ¬ Lexeme.Sound ⟨rule.kind, chars⟩ := fun sound => sound.supported refused
      refine ⟨fun tokens => iff_of_false nofun ?_, fun e => ?_⟩
      · rw [tokenized_of_some first]
        exact fun h => unsound h.1
      · rw [refused_of_some first, offence_of_some first, if_pos refused, same]
        exact (or_iff_left fun h => unsound h.1).symm
  | case4 previous position cs _ rule n found supported =>
      intro before _
      obtain ⟨chars, rest, rfl, -, -, -, first⟩ := exists_firstLexeme found
      refine ⟨fun tokens => iff_of_false nofun ?_, fun e => ?_⟩
      · rw [tokenized_of_some first]
        rintro ⟨-, room, full, -⟩
        cases full
      · rw [refused_of_some first, offence_of_some first, if_neg supported, if_pos rfl, same]
        refine (or_iff_left ?_).symm
        rintro ⟨-, room, full, -⟩
        cases full
  | case5 previous position cs _ rule n found supported room kind =>
      rename_i ih
      rintro before rfl
      obtain ⟨chars, rest, rfl, front, back, len, first⟩ := exists_firstLexeme found
      -- the lexer counts characters where positions count bytes; in a lexeme these are the same
      rw [front, back, create_eq before, ← len]
      rw [back, ← len] at ih
      by_cases long : rule.kind ≠ .blank ∧ maxTokenBytes < byteLength chars
      · have unsound : ¬ Lexeme.Sound ⟨rule.kind, chars⟩ :=
          fun sound => absurd long.2 (Nat.not_lt.mpr (sound.short long.1))
        rw [if_pos long]
        refine ⟨fun tokens => iff_of_false nofun ?_, fun e => ?_⟩
        · rw [tokenized_of_some first]
          exact fun h => unsound h.1
        · rw [refused_of_some first, offence_of_some first, if_neg supported,
            if_neg (Nat.succ_ne_zero room), or_iff_left fun h => unsound h.1]
          exact same.trans ⟨fun h => ⟨long.1, long.2, h⟩, fun h => h.2.2⟩
      · have sound : Lexeme.Sound ⟨rule.kind, chars⟩ :=
          ⟨supported, fun visible => Nat.not_lt.mp fun more => long ⟨visible, more⟩⟩
        have next : lastKind? (before ++ [Lexeme.token before ⟨rule.kind, chars⟩]) =
            lookBack (lastKind? before) kind := by
          rw [← lookBack_lastKind?, token_eq]
        obtain ⟨tokenized, refused⟩ := ih next
        rw [if_neg long]
        refine ⟨fun tokens => ?_, fun e => ?_⟩
        · rw [tokenized_of_some first]
          refine cons_eq_ok_iff.trans ⟨?_, ?_⟩
          · rintro ⟨tokens', scanned, rfl⟩
            exact ⟨sound, room, rfl, tokens', (tokenized tokens').mp scanned, rfl⟩
          · rintro ⟨-, _, ⟨⟩, tokens', scanned, rfl⟩
            exact ⟨tokens', (tokenized tokens').mpr scanned, rfl⟩
        · rw [refused_of_some first, offence_of_some first, if_neg supported,
            if_neg (Nat.succ_ne_zero room)]
          refine cons_eq_error_iff.trans
            ((refused e).trans ⟨fun h => .inr ⟨sound, room, rfl, h⟩, ?_⟩)
          rintro (⟨visible, more, -⟩ | ⟨-, _, ⟨⟩, h⟩)
          · exact absurd ⟨visible, more⟩ long
          · exact h

end Scan

end Lexer

open Lexer

/-- The lexer is the lexical grammar.  A text has tokens where it is cut to its end into lexemes
that are sound and not too many, the tokens being those of the lexemes; the lexemes make up
the text.  Otherwise the error is the first thing wrong behind the lexemes that are sound,
with its position in bytes. -/
theorem tokenize_exact (text : String) :
    (∀ tokens, tokenize text = .ok tokens ↔
      ∃ ls, Cuts text.toList ls [] ∧ ls.length ≤ maxTokens ∧ (∀ l ∈ ls, l.Sound) ∧
        ∀ i : Nat, tokens[i]? = ls[i]?.map (Lexeme.token (tokens.take i))) ∧
    (∀ e, tokenize text = .error e ↔
      ∃ ls left, Cuts text.toList ls left ∧ ls.length ≤ maxTokens ∧ (∀ l ∈ ls, l.Sound) ∧
        Offence text (byteLength (spelling ls)) (maxTokens - ls.length) left e) ∧
    (∀ ls left, Cuts text.toList ls left → String.ofList (spelling ls ++ left) = text) ∧
    ∀ tokens, tokenize text = .ok tokens → ∀ t ∈ tokens, t.kind ≠ .not := by
  obtain ⟨tokenized, refused⟩ := @scan_iff text maxTokens none 0 text.toList [] rfl
  refine ⟨fun tokens => ?_, fun e => ?_, fun ls left cut => ?_, fun tokens scanned => ?_⟩
  · rw [tokenize, tokenized]
    simp only [Tokenized, eq_tokensOf_iff, List.nil_append]
  · rw [tokenize, refused]
    simp only [Refused, Nat.zero_add]
  · rw [cut.spelling_append, String.ofList_toList]
  · obtain ⟨ls, -, -, sound, rfl⟩ := (tokenized tokens).mp scanned
    exact supported_of_sound sound

/-- A star behind a star behind a number, and an operator that is refused. -/
theorem tokenize_exact_stars :
    tokenize "2 **$t0" =
        .ok [⟨.decimal, "2"⟩, ⟨.blank, ""⟩, ⟨.mul, "*"⟩, ⟨.deref, "*"⟩, ⟨.register, "$t0"⟩] ∧
      (∃ ls, Cuts "2 **$t0".toList ls [] ∧ ls.length ≤ maxTokens ∧
        String.ofList (spelling ls ++ []) = "2 **$t0") ∧
      ∃ ls left, Cuts "2 ! 0".toList ls left ∧
        Offence "2 ! 0" (byteLength (spelling ls)) (maxTokens - ls.length) left
          (.unsupported "!" 2) := by
  have scanned : tokenize "2 **$t0" =
      .ok [⟨.decimal, "2"⟩, ⟨.blank, ""⟩, ⟨.mul, "*"⟩, ⟨.deref, "*"⟩, ⟨.register, "$t0"⟩] := by
    decide +kernel
  have failed : tokenize "2 ! 0" = .error (.unsupported "!" 2) := by decide +kernel
  obtain ⟨tokenized, -, whole, -⟩ := tokenize_exact "2 **$t0"
  obtain ⟨ls, cut, few, -, -⟩ := (tokenized _).mp scanned
  obtain ⟨-, refused, -, -⟩ := tokenize_exact "2 ! 0"
  obtain ⟨ls', left, cut', -, -, wrong⟩ := (refused _).mp failed
  exact ⟨scanned, ⟨ls, cut, few, whole ls [] cut⟩, ls', left, cut', wrong⟩

end HartMonitor
