/-
# `HartMonitor.Proofs.Expression.Lexeme` — which lexeme a rule finds, and which rule decides

The lexemes of a kind are a set of texts (`Spells`), and the rules are in an order (`place`).
At the head of a text, a rule has the longest prefix that is one of its lexemes, and the
first rule that has one decides:

    FirstLexeme.of_lexeme?    what the lexer finds is this lexeme
    not_spells_of_lexeme?     where it finds none, no kind has one

There is at most one such lexeme (`FirstLexeme.unique`), so the lexer finds it wherever
there is one.
-/
import HartMonitor.Expression.Lexer
import Mathlib.Data.List.TakeWhile
import Mathlib.Data.List.Infix

namespace HartMonitor

/-! ## The lexemes of a kind -/

/-- What it is for a character to be in a class. -/
def CharClass.Holds : CharClass → Char → Prop
  | blank, c => c = ' ' ∨ c = '\t'
  | decimalDigit, c => '0' ≤ c ∧ c ≤ '9'
  | hexDigit, c => ('0' ≤ c ∧ c ≤ '9') ∨ ('a' ≤ c ∧ c ≤ 'f') ∨ ('A' ≤ c ∧ c ≤ 'F')
  | alphanumeric, c => ('0' ≤ c ∧ c ≤ '9') ∨ ('a' ≤ c ∧ c ≤ 'z') ∨ ('A' ≤ c ∧ c ≤ 'Z')

/-- One character of a class or more. -/
def CharClass.Run (cls : CharClass) (cs : List Char) : Prop :=
  cs ≠ [] ∧ ∀ c ∈ cs, cls.Holds c

/-- The lexemes of a kind of token.  A dereference has none of its own: it is read from a star. -/
def TokenKind.Spells : TokenKind → List Char → Prop
  | blank, cs => CharClass.blank.Run cs
  | hex, cs => ∃ digits, cs = '0' :: 'x' :: digits ∧ CharClass.hexDigit.Run digits
  | decimal, cs => CharClass.decimalDigit.Run cs
  | register, cs => ∃ name, cs = '$' :: name ∧ CharClass.alphanumeric.Run name
  | eq, cs => cs = ['=', '=']
  | neq, cs => cs = ['!', '=']
  | not, cs => cs = ['!']
  | and, cs => cs = ['&', '&']
  | or, cs => cs = ['|', '|']
  | add, cs => cs = ['+']
  | sub, cs => cs = ['-']
  | div, cs => cs = ['/']
  | mul, cs => cs = ['*']
  | leftParen, cs => cs = ['(']
  | rightParen, cs => cs = [')']
  | deref, _ => False

/-- Whether a character may be one of a lexeme of a kind. -/
def TokenKind.has : TokenKind → Char → Bool
  | blank, c => CharClass.blank.has c
  | hex, c => c == 'x' || CharClass.hexDigit.has c
  | decimal, c => CharClass.decimalDigit.has c
  | register, c => c == '$' || CharClass.alphanumeric.has c
  | eq, c => c == '='
  | neq, c => c == '!' || c == '='
  | not, c => c == '!'
  | and, c => c == '&'
  | or, c => c == '|'
  | add, c => c == '+'
  | sub, c => c == '-'
  | div, c => c == '/'
  | mul, c => c == '*'
  | leftParen, c => c == '('
  | rightParen, c => c == ')'
  | deref, _ => false

namespace Lexer

def ruleKinds : List TokenKind :=
  [.blank, .hex, .decimal, .register, .eq, .neq, .not, .and, .or, .add, .sub, .div, .mul,
   .leftParen, .rightParen]

theorem kind_rules : rules.map (·.kind) = ruleKinds := rfl

def place (kind : TokenKind) : Nat := ruleKinds.idxOf kind

/-- The longest prefix of a text that has a property. -/
structure Longest (P : List Char → Prop) (cs lexeme : List Char) : Prop where
  isPrefix : lexeme <+: cs
  holds : P lexeme
  longest : ∀ more, more <+: cs → P more → more.length ≤ lexeme.length

/-- The lexeme that decides at the head of a text: the longest one of its kind, no rule before that
of its kind having one. -/
structure FirstLexeme (kind : TokenKind) (cs lexeme : List Char) : Prop
    extends Longest kind.Spells cs lexeme where
  first : ∀ earlier more, place earlier < place kind → more <+: cs → ¬ earlier.Spells more

theorem Longest.unique {P : List Char → Prop} {cs a b : List Char} (ha : Longest P cs a)
    (hb : Longest P cs b) : a = b := by
  have ab := hb.longest a ha.isPrefix ha.holds
  have ba := ha.longest b hb.isPrefix hb.holds
  exact (List.prefix_of_prefix_length_le ha.isPrefix hb.isPrefix ab).eq_of_length
    (Nat.le_antisymm ab ba)

theorem place_injective : ∀ {a b : TokenKind}, place a = place b → a = b := by
  intro a b
  cases a <;> cases b <;> first | exact fun _ => rfl | exact fun h => absurd h (by decide)

/-- At most one lexeme decides. -/
theorem FirstLexeme.unique {kind kind' : TokenKind} {cs lexeme lexeme' : List Char}
    (h : FirstLexeme kind cs lexeme) (h' : FirstLexeme kind' cs lexeme') :
    kind = kind' ∧ lexeme = lexeme' := by
  obtain lt | same | gt := Nat.lt_trichotomy (place kind) (place kind')
  · exact absurd h.holds (h'.first _ _ lt h.isPrefix)
  · obtain rfl := place_injective same
    exact ⟨rfl, h.toLongest.unique h'.toLongest⟩
  · exact absurd h'.holds (h.first _ _ gt h'.isPrefix)

end Lexer

/-! ## Shapes -/

theorem CharClass.has_iff {cls : CharClass} {c : Char} : cls.has c = true ↔ cls.Holds c := by
  have range : ∀ first last : Char,
      (decide (first ≤ c) && decide (c ≤ last)) = true ↔ first ≤ c ∧ c ≤ last := by
    intro first last
    rw [Bool.and_eq_true, decide_eq_true_iff, decide_eq_true_iff]
  have digit : c.isDigit = true ↔ '0' ≤ c ∧ c ≤ '9' := range '0' '9'
  have lower : c.isLower = true ↔ 'a' ≤ c ∧ c ≤ 'z' := range 'a' 'z'
  have upper : c.isUpper = true ↔ 'A' ≤ c ∧ c ≤ 'Z' := decide_eq_true_iff
  cases cls with
  | blank => simp [has, Holds]
  | decimalDigit => exact digit
  | hexDigit =>
      simp only [has, Holds, Bool.or_eq_true, Bool.and_eq_true, decide_eq_true_eq, digit, or_assoc]
  | alphanumeric =>
      show ((c.isUpper || c.isLower) || c.isDigit) = true ↔ _
      rw [Bool.or_eq_true, Bool.or_eq_true, digit, lower, upper]
      exact Or.comm.trans (or_congr_right Or.comm)

def Shape.Spells : Shape → List Char → Prop
  | exactly text, cs => cs = text.toList
  | run lead cls, cs => ∃ more, cs = lead.toList ++ more ∧ cls.Run more

namespace Shape

open Lexer (Longest)

variable {shape : Shape} {cs : List Char} {n : Nat}

theorem length_le_of_run {cls : CharClass} {more : List Char} (head : more <+: cs)
    (run : cls.Run more) : more.length ≤ (cs.takeWhile cls.has).length := by
  obtain ⟨rest, rfl⟩ := head
  rw [List.takeWhile_append_of_pos fun c mem => CharClass.has_iff.mpr (run.2 c mem),
    List.length_append]
  exact Nat.le_add_right _ _

theorem longest_of_lexemeLength? (h : shape.lexemeLength? cs = some n) :
    n ≤ cs.length ∧ Longest shape.Spells cs (cs.take n) := by
  cases shape with
  | exactly text =>
      simp only [lexemeLength?] at h
      split at h
      · next head =>
        cases h
        obtain ⟨rest, rfl⟩ := List.isPrefixOf_iff_prefix.mp head
        have whole : (text.toList ++ rest).take text.length = text.toList := by
          rw [← String.length_toList, List.take_left]
        rw [whole, List.length_append, String.length_toList]
        refine ⟨Nat.le_add_right _ _, List.prefix_append _ _, rfl, ?_⟩
        rintro _ - rfl
        exact Nat.le_refl _
      · cases h
  | run lead cls =>
      simp only [lexemeLength?] at h
      split at h
      · next head =>
        obtain ⟨rest, rfl⟩ := List.isPrefixOf_iff_prefix.mp head
        have behind : (lead.toList ++ rest).drop lead.length = rest := by
          rw [← String.length_toList, List.drop_left]
        rw [behind] at h
        split at h
        · cases h
        · next k hk =>
          cases h
          have found : rest.take k.succ = rest.takeWhile cls.has := by
            rw [← hk]; exact (List.prefix_iff_eq_take.mp (List.takeWhile_prefix _)).symm
          have whole : (lead.toList ++ rest).take (lead.length + k.succ) =
              lead.toList ++ rest.takeWhile cls.has := by
            rw [← String.length_toList, List.take_length_add_append, found]
          have within : k.succ ≤ rest.length := by
            rw [← hk]; exact (List.takeWhile_prefix _).length_le
          refine ⟨?_, ?_, ⟨rest.takeWhile cls.has, whole, ?_, ?_⟩, ?_⟩
          · rw [List.length_append, String.length_toList]
            omega
          · exact List.take_prefix _ _
          · intro none
            rw [none] at hk
            cases hk
          · exact fun c mem => CharClass.has_iff.mp (List.mem_takeWhile_imp mem)
          · rintro _ longer ⟨more, rfl, run⟩
            rw [whole, List.length_append, List.length_append]
            have := length_le_of_run ((List.prefix_append_right_inj _).mp longer) run
            omega
      · cases h

theorem not_spells_of_lexemeLength? (h : shape.lexemeLength? cs = none) {more : List Char}
    (head : more <+: cs) : ¬ shape.Spells more := by
  cases shape with
  | exactly text =>
      rintro rfl
      rw [lexemeLength?, if_pos (List.isPrefixOf_iff_prefix.mpr head)] at h
      cases h
  | run lead cls =>
      rintro ⟨more, rfl, run⟩
      obtain ⟨rest, rfl⟩ := head
      have front : lead.toList.isPrefixOf (lead.toList ++ more ++ rest) = true := by
        rw [List.append_assoc]
        exact List.isPrefixOf_iff_prefix.mpr (List.prefix_append _ _)
      have behind : (lead.toList ++ more ++ rest).drop lead.length = more ++ rest := by
        rw [List.append_assoc, ← String.length_toList, List.drop_left]
      have some := length_le_of_run (List.prefix_append more rest) run
      have nonempty := List.length_pos_iff.mpr run.1
      simp only [lexemeLength?, front, if_true, behind] at h
      split at h
      · next none => omega
      · cases h

end Shape

namespace Lexer

/-! ## Rules -/

theorem spells_rule {rule : LexRule} (mem : rule ∈ rules) {cs : List Char} :
    rule.shape.Spells cs ↔ rule.kind.Spells cs := by
  have literal : ∀ (text : String) (chars : List Char), text.toList = chars →
      ((Shape.exactly text).Spells cs ↔ cs = chars) := by
    rintro text _ rfl
    exact Iff.rfl
  have led : ∀ (lead : String) (chars : List Char) (cls : CharClass), lead.toList = chars →
      ((Shape.run lead cls).Spells cs ↔ ∃ more, cs = chars ++ more ∧ cls.Run more) := by
    rintro lead _ cls rfl
    exact Iff.rfl
  have bare : ∀ cls : CharClass, (Shape.run "" cls).Spells cs ↔ cls.Run cs := by
    intro cls
    rw [led "" [] cls rfl]
    simp
  simp only [rules, List.mem_cons, List.not_mem_nil, or_false] at mem
  rcases mem with rfl | rfl | rfl | rfl | rfl | rfl | rfl | rfl | rfl | rfl | rfl | rfl | rfl |
    rfl | rfl
  · exact bare _
  · exact led "0x" ['0', 'x'] _ rfl
  · exact bare _
  · exact led "$" ['$'] _ rfl
  all_goals exact literal _ _ rfl

section Kind
variable {kind : TokenKind} {cs : List Char}

theorem ne_nil_of_spells (h : kind.Spells cs) : cs ≠ [] := by
  rintro rfl
  cases kind with
  | blank | decimal => exact h.1 rfl
  | hex | register => obtain ⟨_, empty, -⟩ := h; cases empty
  | deref => exact h
  | add | sub | mul | div | and | or | not | eq | neq | leftParen | rightParen => cases h

theorem has_of_spells (h : kind.Spells cs) : ∀ c ∈ cs, kind.has c = true := by
  cases kind with
  | blank | decimal => exact fun c mem => CharClass.has_iff.mpr (h.2 c mem)
  | hex =>
      obtain ⟨digits, rfl, run⟩ := h
      refine List.forall_mem_cons.mpr ⟨rfl, List.forall_mem_cons.mpr ⟨rfl, fun c mem => ?_⟩⟩
      exact Bool.or_eq_true_iff.mpr (.inr (CharClass.has_iff.mpr (run.2 c mem)))
  | register =>
      obtain ⟨name, rfl, run⟩ := h
      refine List.forall_mem_cons.mpr ⟨rfl, fun c mem => ?_⟩
      exact Bool.or_eq_true_iff.mpr (.inr (CharClass.has_iff.mpr (run.2 c mem)))
  | deref => exact h.elim
  | add | sub | mul | div | and | or | not | eq | neq | leftParen | rightParen =>
      obtain rfl : _ = _ := h
      simp [TokenKind.has]

theorem eq_leftParen_of_has (h : kind.has '(' = true) : kind = .leftParen := by
  cases kind <;> first | rfl | cases h

theorem eq_rightParen_of_has (h : kind.has ')' = true) : kind = .rightParen := by
  cases kind <;> first | rfl | cases h

theorem eq_blank_of_has {c : Char} (blank : CharClass.blank.Holds c) (h : kind.has c = true) :
    kind = .blank := by
  obtain rfl | rfl := blank <;> cases kind <;> first | rfl | cases h

theorem exists_rule_of_spells (h : kind.Spells cs) : ∃ rule ∈ rules, rule.kind = kind := by
  have listed : kind ∈ ruleKinds := by
    cases kind <;> first | decide | exact h.elim
  rw [← kind_rules] at listed
  exact List.mem_map.mp listed

end Kind

section Found
variable {rule : LexRule} {cs : List Char} {n : Nat}

theorem filter_lexemeLength? (mem : rule ∈ rules) :
    (rule.shape.lexemeLength? cs).filter (0 < ·) = rule.shape.lexemeLength? cs := by
  cases found : rule.shape.lexemeLength? cs with
  | none => rfl
  | some n =>
      have spelled := (spells_rule mem).mp (Shape.longest_of_lexemeLength? found).2.holds
      have positive : 0 < n := by
        refine Nat.pos_of_ne_zero fun zero => ne_nil_of_spells spelled ?_
        rw [zero]
        rfl
      rw [Option.filter_some, if_pos (decide_eq_true positive)]

/-- What the lexer finds at the head of a text decides there. -/
theorem FirstLexeme.of_lexeme? (h : lexeme? cs = some (rule, n)) :
    n ≤ cs.length ∧ FirstLexeme rule.kind cs (cs.take n) := by
  obtain ⟨front, rule', back, split, found, missed⟩ := List.findSome?_eq_some_iff.mp h
  have mem : rule' ∈ rules := by rw [split]; simp
  rw [filter_lexemeLength? mem] at found
  obtain ⟨n', found, same⟩ := Option.map_eq_some_iff.mp found
  cases same
  obtain ⟨within, head, spelled, longest⟩ := Shape.longest_of_lexemeLength? found
  refine ⟨within, ⟨head, (spells_rule mem).mp spelled, fun more below other => ?_⟩,
    fun earlier more lt below other => ?_⟩
  · exact longest more below ((spells_rule mem).mpr other)
  · -- the rule of the earlier kind stands in front of the one that was found
    have ordered : rules.Pairwise fun a b => place a.kind < place b.kind := by decide
    obtain ⟨rule', mem', rfl⟩ := exists_rule_of_spells other
    have before : rule' ∈ front := by
      rw [split] at mem' ordered
      obtain before | same | behind := by simpa using mem'
      · exact before
      · rw [same] at lt; exact absurd lt (Nat.lt_irrefl _)
      · have later := (List.pairwise_cons.mp (List.pairwise_append.mp ordered).2.1).1 rule' behind
        exact absurd lt (Nat.lt_asymm later)
    have none := missed rule' before
    rw [filter_lexemeLength? mem', Option.map_eq_none_iff] at none
    exact Shape.not_spells_of_lexemeLength? none below ((spells_rule mem').mpr other)

theorem not_spells_of_lexeme? (h : lexeme? cs = none) (kind : TokenKind) {more : List Char}
    (head : more <+: cs) : ¬ kind.Spells more := by
  intro spelled
  obtain ⟨rule, mem, rfl⟩ := exists_rule_of_spells spelled
  have none := List.findSome?_eq_none_iff.mp h rule mem
  rw [filter_lexemeLength? mem, Option.map_eq_none_iff] at none
  exact Shape.not_spells_of_lexemeLength? none head ((spells_rule mem).mpr spelled)

end Found

/-! ## Bytes -/

def byteLength (cs : List Char) : Nat := (String.ofList cs).utf8ByteSize

@[simp]
theorem byteLength_append (front back : List Char) :
    byteLength (front ++ back) = byteLength front + byteLength back := by
  rw [byteLength, String.ofList_append, String.utf8ByteSize_append]
  rfl

theorem utf8Size_of_holds {cls : CharClass} {c : Char} (h : cls.Holds c) : c.utf8Size = 1 := by
  have below : ∀ last : Char, last.val ≤ 127 → c ≤ last → c.utf8Size = 1 :=
    fun last small le => Char.utf8Size_eq_one_iff.mpr (UInt32.le_trans le small)
  cases cls with
  | blank => obtain rfl | rfl := h <;> rfl
  | decimalDigit => exact below '9' (by decide) h.2
  | hexDigit =>
      obtain h | h | h := h
      · exact below '9' (by decide) h.2
      · exact below 'f' (by decide) h.2
      · exact below 'F' (by decide) h.2
  | alphanumeric =>
      obtain h | h | h := h
      · exact below '9' (by decide) h.2
      · exact below 'z' (by decide) h.2
      · exact below 'Z' (by decide) h.2

theorem byteLength_of_run {cls : CharClass} {cs : List Char} (h : ∀ c ∈ cs, cls.Holds c) :
    byteLength cs = cs.length := by
  induction cs with
  | nil => rfl
  | cons c rest ih =>
      obtain ⟨first, others⟩ := List.forall_mem_cons.mp h
      have single : byteLength [c] = 1 := by
        rw [byteLength, ← String.singleton_eq_ofList, String.utf8ByteSize_singleton,
          utf8Size_of_holds first]
      rw [← List.singleton_append, byteLength_append, ih others, single, List.length_append]
      rfl

theorem byteLength_of_spells {kind : TokenKind} {cs : List Char} (h : kind.Spells cs) :
    byteLength cs = cs.length := by
  cases kind with
  | blank | decimal => exact byteLength_of_run h.2
  | hex =>
      obtain ⟨digits, rfl, run⟩ := h
      exact (byteLength_append ['0', 'x'] digits).trans
        (by rw [byteLength_of_run run.2]; exact Nat.add_comm _ _)
  | register =>
      obtain ⟨name, rfl, run⟩ := h
      exact (byteLength_append ['$'] name).trans
        (by rw [byteLength_of_run run.2]; exact Nat.add_comm _ _)
  | deref => exact h.elim
  | add | sub | mul | div | and | or | not | eq | neq | leftParen | rightParen => cases h; rfl

end Lexer

end HartMonitor
