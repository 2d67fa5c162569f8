/-
# `HartMonitor.Proofs.Expression.Spacing` — blanks between lexemes do not matter

Blanks are put in front of the lexemes of a text and behind the last one, never inside one
(`Spaced`).  The lexer cuts what comes out into the same lexemes, runs of blanks left out:

    FirstLexeme.of_head      a lexeme goes by the first character behind it, and a blank
                             there ends it
    exists_cuts_append       blanks in front of a text are a lexeme, or join the first one
    exists_cuts_of_spaced    the whole text, lexeme by lexeme

A token looks back past blanks, so that the significant tokens are the same ones, and those
settle the value of the text.
-/
import HartMonitor.Proofs.Expression.Placeless

namespace HartMonitor

open Evaluation (significant_append significant_cons_of_ne_blank)

namespace Lexer

/-- Spaces and tabs, or nothing. -/
def Blanks (gap : List Char) : Prop :=
  ∀ c ∈ gap, CharClass.blank.Holds c

/-- `Spaced ls cs`: the text `cs` is that of the lexemes `ls`, with blanks put in front of each and
behind the last. -/
inductive Spaced : List Lexeme → List Char → Prop
  | done {gap : List Char} : Blanks gap → Spaced [] gap
  | next {gap cs : List Char} {l : Lexeme} {ls : List Lexeme} : Blanks gap → Spaced ls cs →
      Spaced (l :: ls) (gap ++ (l.chars ++ cs))

def visible (ls : List Lexeme) : List Lexeme :=
  ls.filter fun l => l.kind ≠ .blank

theorem visible_cons_blank {l : Lexeme} (h : l.kind = .blank) (ls : List Lexeme) :
    visible (l :: ls) = visible ls := by
  simp [visible, h]

theorem visible_cons_of_ne_blank {l : Lexeme} (h : l.kind ≠ .blank) (ls : List Lexeme) :
    visible (l :: ls) = l :: visible ls := by
  simp [visible, h]

/-! ## What is behind a lexeme -/

/-- A lexeme that is longer than some characters goes on with the next one, except where that is the
mark of a hexadecimal number. -/
theorem spells_concat {kind : TokenKind} {chars more : List Char} {c : Char}
    (h : kind.Spells (chars ++ c :: more)) (some : chars ≠ []) (digit : c ≠ 'x') :
    kind.Spells (chars ++ [c]) := by
  have part : ∀ {front : List Char} {cls : CharClass}, cls.Run (front ++ c :: more) →
      cls.Run (front ++ [c]) := by
    intro front cls run
    refine ⟨by simp, fun d mem => run.2 d ?_⟩
    simp only [List.mem_append, List.mem_singleton] at mem
    rcases mem with mem | rfl
    · exact List.mem_append_left _ mem
    · simp
  -- a lexeme of two characters at most has nothing behind the second one
  have short : (chars ++ c :: more).length ≤ 2 → more = [] := by
    intro le
    have := List.length_pos_iff.mpr some
    simp only [List.length_append, List.length_cons] at le
    exact List.eq_nil_of_length_eq_zero (by omega)
  cases kind with
  | blank | decimal => exact part h
  | hex =>
      obtain ⟨digits, shape, run⟩ := h
      match chars, some with
      | [a], _ =>
          obtain ⟨-, shape⟩ := List.cons.inj shape
          exact absurd (List.cons.inj shape).1 digit
      | a :: b :: front, _ =>
          obtain ⟨rfl, tail⟩ := List.cons.inj shape
          obtain ⟨rfl, rfl⟩ := List.cons.inj tail
          exact ⟨front ++ [c], rfl, part run⟩
  | register =>
      obtain ⟨name, shape, run⟩ := h
      obtain ⟨a, front, rfl⟩ := List.exists_cons_of_ne_nil some
      obtain ⟨rfl, rfl⟩ := List.cons.inj shape
      exact ⟨front ++ [c], rfl, part run⟩
  | deref => exact h.elim
  | add | sub | mul | div | and | or | not | eq | neq | leftParen | rightParen =>
      obtain rfl := short (by rw [h]; decide)
      exact h

theorem head_ne_mark {kind : TokenKind} {c : Char} {more : List Char}
    (h : kind.Spells (c :: more)) : c ≠ 'x' := by
  rintro rfl
  cases kind with
  | blank | decimal => exact absurd (CharClass.has_iff.mpr (h.2 _ List.mem_cons_self)) (by decide)
  | hex | register =>
      obtain ⟨_, shape, -⟩ := h
      cases shape
  | deref => exact h
  | add | sub | mul | div | and | or | not | eq | neq | leftParen | rightParen => cases h

theorem eq_blank_of_head {kind : TokenKind} {c : Char} {more : List Char}
    (h : kind.Spells (c :: more)) (blank : CharClass.blank.Holds c) : kind = .blank :=
  eq_blank_of_has blank (has_of_spells h c List.mem_cons_self)

/-- What begins with some characters and more, and with a text behind them, goes on with the first
character of that text. -/
theorem prefix_append_cases {chars rest more : List Char} (h : more <+: chars ++ rest) :
    more <+: chars ∨ ∃ c back, more = chars ++ c :: back ∧ c ∈ rest.head? := by
  obtain inside | longer := List.prefix_or_prefix_of_prefix h (List.prefix_append chars rest)
  · exact .inl inside
  · obtain ⟨back, rfl⟩ := longer
    obtain ⟨tail, rfl⟩ := (List.prefix_append_right_inj chars).mp h
    cases back with
    | nil => exact .inl (by simp)
    | cons c back => exact .inr ⟨c, back, rfl, rfl⟩

/-- A lexeme decides in front of any text that begins as the one behind it, or with a blank. -/
theorem FirstLexeme.of_head {kind : TokenKind} {chars rest rest' : List Char}
    (h : FirstLexeme kind (chars ++ rest) chars)
    (head : ∀ c ∈ rest'.head?, c ∈ rest.head? ∧ c ≠ 'x' ∨
      CharClass.blank.Holds c ∧ kind ≠ .blank) :
    FirstLexeme kind (chars ++ rest') chars := by
  have some := ne_nil_of_spells h.holds
  -- what would decide instead is in the characters, or one longer before the other text
  have other : ∀ {other : TokenKind} {more : List Char}, other.Spells more →
      more <+: chars ++ rest' →
        more <+: chars ∨ ∃ c, other.Spells (chars ++ [c]) ∧ chars ++ [c] <+: chars ++ rest := by
    intro other more spells front
    obtain inside | ⟨c, back, rfl, mem⟩ := prefix_append_cases front
    · exact .inl inside
    obtain ⟨mem, mark⟩ | ⟨blank, visible⟩ := head c mem
    · obtain ⟨tail, rfl⟩ : ∃ tail, rest = c :: tail := List.head?_eq_some_iff.mp mem
      exact .inr ⟨c, spells_concat spells some mark, ⟨tail, by simp⟩⟩
    · obtain rfl := eq_blank_of_has blank (has_of_spells spells c (by simp))
      obtain ⟨d, front, rfl⟩ := List.exists_cons_of_ne_nil some
      exact absurd (eq_blank_of_head h.holds (spells.2 d (by simp))) visible
  refine ⟨⟨List.prefix_append _ _, h.holds, fun more front spells => ?_⟩,
    fun earlier more before front spells => ?_⟩
  · obtain inside | ⟨c, longer, front⟩ := other spells front
    · exact inside.length_le
    · have := h.longest _ front longer
      simp at this
  · obtain inside | ⟨c, longer, front⟩ := other spells front
    · exact h.first earlier more before (inside.trans (List.prefix_append _ _)) spells
    · exact h.first earlier _ before front longer

/-! ## Blanks in front of a text -/

/-- Blanks decide up to the first character that is none. -/
theorem firstLexeme_blank_iff {gap rest : List Char} :
    FirstLexeme .blank (gap ++ rest) gap ↔
      gap ≠ [] ∧ Blanks gap ∧ ∀ c ∈ rest.head?, ¬ CharClass.blank.Holds c := by
  constructor
  · intro first
    refine ⟨first.holds.1, first.holds.2, fun c mem blank => ?_⟩
    obtain ⟨tail, rfl⟩ : ∃ tail, rest = c :: tail := List.head?_eq_some_iff.mp mem
    have run : TokenKind.blank.Spells (gap ++ [c]) := by
      refine ⟨by simp, fun d mem => ?_⟩
      obtain mem | mem := List.mem_append.mp mem
      · exact first.holds.2 d mem
      · rwa [List.mem_singleton.mp mem]
    have := first.longest _ ⟨tail, by simp⟩ run
    simp at this
  · rintro ⟨some, blanks, stops⟩
    refine ⟨⟨List.prefix_append _ _, ⟨some, blanks⟩, fun more front run => ?_⟩,
      fun earlier more before => absurd before (Nat.not_lt_zero _)⟩
    obtain inside | ⟨c, back, rfl, mem⟩ := prefix_append_cases front
    · exact inside.length_le
    · exact absurd (run.2 c (by simp)) (stops c mem)

section Spaced
variable {cs cs' : List Char} {ls : List Lexeme}

/-- Blanks in front of a text are a lexeme of their own, or part of the first one. -/
theorem exists_cuts_append {gap : List Char} (blanks : Blanks gap) (cut : Cuts cs ls []) :
    ∃ ls', Cuts (gap ++ cs) ls' [] ∧ visible ls' = visible ls := by
  by_cases none : gap = []
  · subst none
    exact ⟨ls, cut, rfl⟩
  generalize stop : ([] : List Char) = left at cut
  cases cut with
  | done =>
      subst stop
      exact ⟨[⟨.blank, gap⟩], .next (firstLexeme_blank_iff.mpr ⟨none, blanks, nofun⟩) .done, rfl⟩
  | @next kind chars rest _ ls first later =>
      by_cases blank : kind = .blank
      · subst blank
        obtain ⟨-, blanks', stops⟩ := firstLexeme_blank_iff.mp first
        have joined : FirstLexeme .blank ((gap ++ chars) ++ rest) (gap ++ chars) := by
          refine firstLexeme_blank_iff.mpr ⟨by simp [none], fun c mem => ?_, stops⟩
          exact (List.mem_append.mp mem).elim (blanks c) (blanks' c)
        rw [← List.append_assoc]
        exact ⟨⟨.blank, gap ++ chars⟩ :: ls, .next joined later, rfl⟩
      · refine ⟨⟨.blank, gap⟩ :: ⟨kind, chars⟩ :: ls, .next ?_ (.next first later), rfl⟩
        refine firstLexeme_blank_iff.mpr ⟨none, blanks, fun c mem holds => blank ?_⟩
        obtain ⟨d, front, rfl⟩ := List.exists_cons_of_ne_nil (ne_nil_of_spells first.holds)
        cases mem
        exact eq_blank_of_head first.holds holds

/-- A spaced text begins with a blank, or as the text did, and not with the mark of a hexadecimal
number. -/
theorem head_of_spaced (cut : Cuts cs ls []) (spaced : Spaced ls cs') :
    ∀ c ∈ cs'.head?, c ∈ cs.head? ∧ c ≠ 'x' ∨ CharClass.blank.Holds c := by
  intro c mem
  cases spaced with
  | done blanks => exact .inr (blanks c (List.mem_of_mem_head? mem))
  | @next gap later l ls blanks _ =>
      cases gap with
      | cons d gap =>
          cases mem
          exact .inr (blanks _ List.mem_cons_self)
      | nil =>
          cases cut with
          | next first _ =>
              obtain ⟨d, front, rfl⟩ := List.exists_cons_of_ne_nil (ne_nil_of_spells first.holds)
              cases mem
              exact .inl ⟨rfl, head_ne_mark first.holds⟩

/-- A spaced text is cut into the lexemes of the text, runs of blanks left out. -/
theorem exists_cuts_of_spaced (cut : Cuts cs ls []) (spaced : Spaced ls cs') :
    ∃ ls', Cuts cs' ls' [] ∧ visible ls' = visible ls := by
  generalize stop : ([] : List Char) = left at cut
  induction cut generalizing cs' with
  | done =>
      subst stop
      cases spaced with
      | done blanks =>
          obtain ⟨ls', cut, same⟩ := exists_cuts_append blanks .done
          rw [List.append_nil] at cut
          exact ⟨ls', cut, same⟩
  | @next kind chars rest _ ls first cut ih =>
      subst stop
      cases spaced with
      | @next gap later _ _ blanks spaced =>
          obtain ⟨ls', cut', same⟩ := ih spaced rfl
          obtain ⟨ls'', joined, same'⟩ : ∃ ls'', Cuts (chars ++ later) ls'' [] ∧
              visible ls'' = visible (⟨kind, chars⟩ :: ls) := by
            by_cases blank : kind = .blank
            · subst blank
              obtain ⟨ls'', joined, same'⟩ := exists_cuts_append first.holds.2 cut'
              exact ⟨ls'', joined, same'.trans same⟩
            · refine ⟨⟨kind, chars⟩ :: ls', .next (first.of_head fun c mem => ?_) cut', ?_⟩
              · exact (head_of_spaced cut spaced c mem).imp_right fun holds => ⟨holds, blank⟩
              · rw [visible_cons_of_ne_blank blank, visible_cons_of_ne_blank blank, same]
          obtain ⟨all, whole, same''⟩ := exists_cuts_append blanks joined
          exact ⟨all, whole, same''.trans same'⟩

end Spaced

/-! ## The tokens of a spaced text -/

/-- What the lexer finds at the head of a text is the first lexeme that is cut off. -/
theorem Cuts.of_lexeme? {cs left : List Char} {ls : List Lexeme} {rule : LexRule} {n : Nat}
    (found : lexeme? cs = some (rule, n)) (later : Cuts (cs.drop n) ls left) :
    Cuts cs (⟨rule.kind, cs.take n⟩ :: ls) left := by
  obtain ⟨chars, rest, rfl, front, back, -, first⟩ := exists_firstLexeme found
  rw [back] at later
  rw [front]
  exact .next first later

theorem Cuts.length_le {cs left : List Char} {ls : List Lexeme} (cut : Cuts cs ls left) :
    ls.length ≤ cs.length := by
  induction cut with
  | done => exact Nat.zero_le _
  | next first _ ih =>
      have := List.length_pos_iff.mpr (ne_nil_of_spells first.holds)
      simp only [List.length_cons, List.length_append]
      omega

/-- A text is cut to its end in one way. -/
theorem Cuts.unique {cs : List Char} {ls : List Lexeme} (cut : Cuts cs ls []) :
    ∀ {ls' : List Lexeme}, Cuts cs ls' [] → ls' = ls := by
  generalize stop : ([] : List Char) = left at cut
  induction cut with
  | done =>
      subst stop
      intro ls' cut'
      exact ((cuts_of_none not_firstLexeme_nil).mp cut').1
  | next first _ ih =>
      subst stop
      intro ls' cut'
      obtain ⟨-, whole⟩ | ⟨later, rfl, next⟩ := (cuts_of_some first).mp cut'
      · exact absurd (List.append_eq_nil_iff.mp whole.symm).1 (ne_nil_of_spells first.holds)
      · rw [ih rfl next]

section Tokens
variable {before : List Token} {ls : List Lexeme}

theorem sound_of_visible (sound : ∀ l ∈ visible ls, l.Sound) : ∀ l ∈ ls, l.Sound := by
  intro l mem
  by_cases blank : l.kind = .blank
  · exact ⟨by rw [blank]; exact nofun, fun other => absurd blank other⟩
  · exact sound l (List.mem_filter.mpr ⟨mem, decide_eq_true blank⟩)

theorem token_significant (before : List Token) (l : Lexeme) :
    l.token (significant before) = l.token before := by
  have same : AfterOperand (significant before) ↔ AfterOperand before := by
    have twice : significant (significant before) = significant before := by
      simp [significant, List.filter_filter]
    rw [AfterOperand, AfterOperand, lastKind?_eq, lastKind?_eq, twice]
  simp only [Lexeme.token, same]

theorem significant_tokensOf :
    significant (tokensOf before ls) = tokensOf (significant before) (visible ls) := by
  induction ls generalizing before with
  | nil => rfl
  | cons l ls ih =>
      rw [tokensOf]
      by_cases blank : l.kind = .blank
      · have kind : (l.token before).isBlank = true := by simp [Lexeme.token, Token.isBlank, blank]
        have gone : ∀ rest, significant (l.token before :: rest) = significant rest := by
          intro rest
          simp [significant, kind]
        rw [gone, visible_cons_blank blank, ih, significant_append, gone]
        simp [significant]
      · have kind := kind_token_ne before (fun h => by cases h) blank
        have kept := significant_cons_of_ne_blank kind []
        rw [significant_cons_of_ne_blank kind, visible_cons_of_ne_blank blank, ih,
          significant_append, kept, tokensOf, token_significant]
        rfl

end Tokens

end Lexer

open Lexer Evaluation

/-- Blanks between the lexemes of a text do not matter, as long as there are not too many tokens for
them: the text has the same significant tokens, and the same value or the same error but for
the positions of tokens in it. -/
theorem evaluate_spaced (m : Machine) {text text' : String} {tokens : List Token}
    {ls : List Lexeme} (tokenized : tokenize text = .ok tokens) (cut : Cuts text.toList ls [])
    (spaced : Spaced ls text'.toList)
    (few : ∀ ls', Cuts text'.toList ls' [] → ls'.length ≤ maxTokens) :
    (∃ tokens', tokenize text' = .ok tokens' ∧ significant tokens' = significant tokens) ∧
      SameButPlace (evaluate m text') (evaluate m text) := by
  obtain ⟨cutting, -⟩ := @scan_iff text maxTokens none 0 text.toList [] rfl
  obtain ⟨cutting', -⟩ := @scan_iff text' maxTokens none 0 text'.toList [] rfl
  obtain ⟨_, cut', -, sound, rfl⟩ := (cutting tokens).mp tokenized
  obtain rfl := cut'.unique cut
  obtain ⟨ls', cuts, same⟩ := exists_cuts_of_spaced cut spaced
  have sound' : ∀ l ∈ ls', l.Sound := by
    refine sound_of_visible fun l mem => sound l ?_
    rw [same] at mem
    exact (List.mem_filter.mp mem).1
  have tokenized' : tokenize text' = .ok (tokensOf [] ls') :=
    (cutting' _).mpr ⟨ls', cuts, few ls' cuts, sound', rfl⟩
  have tokens_eq : significant (tokensOf [] ls') = significant (tokensOf [] ls) := by
    rw [significant_tokensOf, significant_tokensOf, same]
  refine ⟨⟨_, tokenized', tokens_eq⟩, ?_⟩
  rw [evaluate, evaluate, tokenized, tokenized']
  exact evalTokens_sameButPlace m (fewParens_of_tokenize tokenized) tokens_eq

/-- A product without a right side: the blanks move the operator, which the error names. -/
theorem evaluate_spaced_product :
    let m : Machine := ⟨Registers.zeros, 0x80000000, Memory.create 0x80000000 16⟩
    let ls : List Lexeme := [⟨.decimal, ['7']⟩, ⟨.mul, ['*']⟩]
    Cuts "7*".toList ls [] ∧ Spaced ls "\t7 * ".toList ∧
      evaluate m "7*" = .error (.missingOperand 2) ∧
      evaluate m "\t7 * " ≠ .error (.missingOperand 2) ∧
      SameButPlace (evaluate m "\t7 * ") (evaluate m "7*") := by
  intro m ls
  have cut : Cuts "7*".toList ls [] :=
    .of_lexeme? (rfl : lexeme? ['7', '*'] = some (⟨"[0-9]+", .decimal, .run "" .decimalDigit⟩, 1))
      (.of_lexeme? (rfl : lexeme? ['*'] = some (⟨"*", .mul, .exactly "*"⟩, 1)) .done)
  have tab : Blanks ['\t'] := by simp [Blanks, CharClass.Holds]
  have space : Blanks [' '] := by simp [Blanks, CharClass.Holds]
  have shape : "\t7 * ".toList = ['\t'] ++ (['7'] ++ ([' '] ++ (['*'] ++ [' ']))) := rfl
  have spaced : Spaced ls "\t7 * ".toList := by
    rw [shape]
    exact .next tab (.next space (.done space))
  have tokenized : tokenize "7*" = .ok [⟨.decimal, "7"⟩, ⟨.mul, "*"⟩] := by decide +kernel
  have few : ∀ ls', Cuts "\t7 * ".toList ls' [] → ls'.length ≤ maxTokens :=
    fun ls' cut' => Nat.le_trans cut'.length_le (by decide +kernel)
  obtain ⟨-, same⟩ := evaluate_spaced m tokenized cut spaced few
  exact ⟨cut, spaced, by decide +kernel, by decide +kernel, same⟩

end HartMonitor
