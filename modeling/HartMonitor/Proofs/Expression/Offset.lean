/-
# `HartMonitor.Proofs.Expression.Offset` — cutting a text at byte offsets is safe

The lexer reads bytes and cuts the text at offsets that it counts in bytes.  What it finds
is a lexeme, and lexemes are ASCII, so that an offset behind one is between two characters
if the offset before it is:

    cut?_eq_some_iff     where a text can be cut at an offset
    firstRule_utf8       on bytes, the rules find what they find on characters
    tokenize_eq          no cut of the lexer is outside the text or inside a character
-/
import HartMonitor.Proofs.Expression.Checked
import HartMonitor.Proofs.Expression.Lexical

namespace HartMonitor

open Lexer

/-! ## Characters and their bytes -/

theorem Lexer.byteLength_cons (c : Char) (rest : List Char) :
    byteLength (c :: rest) = c.utf8Size + byteLength rest := by
  rw [← List.singleton_append, byteLength_append, byteLength, ← String.singleton_eq_ofList,
    String.utf8ByteSize_singleton]

theorem toNat_ofUInt8 (b : UInt8) : (Char.ofUInt8 b).val.toNat = b.toNat := UInt8.toNat_toUInt32 b

theorem utf8EncodeChar_of_ascii {c : Char} (h : c.utf8Size = 1) :
    ∃ b, String.utf8EncodeChar c = [b] ∧ Char.ofUInt8 b = c := by
  refine ⟨_, String.utf8EncodeChar_eq_singleton h, Char.ext (UInt32.toNat_inj.mp ?_)⟩
  have small : c.val.toNat ≤ 127 := Char.utf8Size_eq_one_iff.mp h
  rw [toNat_ofUInt8, UInt32.toNat_toUInt8]
  omega

theorem utf8EncodeChar_of_not_ascii {c : Char} (h : c.utf8Size ≠ 1) :
    ∃ b more, String.utf8EncodeChar c = b :: more ∧ 128 ≤ b.toNat := by
  have large : ¬ c.val.toNat ≤ 127 := fun small => h (Char.utf8Size_eq_one_iff.mpr small)
  rw [String.utf8EncodeChar.eq_1, if_neg large]
  -- the lead byte of two, three or four
  split
  · refine ⟨_, _, rfl, ?_⟩
    rw [UInt8.toNat_ofNat']
    omega
  split
  · refine ⟨_, _, rfl, ?_⟩
    rw [UInt8.toNat_ofNat']
    omega
  · refine ⟨_, _, rfl, ?_⟩
    rw [UInt8.toNat_ofNat']
    omega

theorem lt_of_has_ofUInt8 {cls : CharClass} {b : UInt8} (h : cls.has (Char.ofUInt8 b) = true) :
    b.toNat < 128 := by
  have small : (Char.ofUInt8 b).val.toNat ≤ 127 :=
    Char.utf8Size_eq_one_iff.mp (utf8Size_of_holds (CharClass.has_iff.mp h))
  rw [toNat_ofUInt8] at small
  omega

namespace Checked

section Bind
variable {α β : Type}

theorem bind_eq_safe {x : Checked α} {f : α → Checked β} {r : Except ExpressionError α}
    {g : α → Except ExpressionError β} (hx : x = safe r) (hf : ∀ a, r = .ok a → f a = safe (g a)) :
    x >>= f = safe (r >>= g) := by
  subst hx
  cases r with
  | error e => rfl
  | ok a => exact hf a rfl

end Bind

theorem utf8_append (front back : List Char) : utf8 (front ++ back) = utf8 front ++ utf8 back :=
  List.flatMap_append

theorem length_utf8 (cs : List Char) : (utf8 cs).length = byteLength cs := by
  rw [byteLength, ← String.size_toByteArray, String.toByteArray_ofList, List.utf8Encode, utf8,
    List.size_toByteArray]

theorem utf8_prefix {front cs : List Char} : utf8 front <+: utf8 cs ↔ front <+: cs := by
  constructor
  · rintro ⟨rest, same⟩
    refine List.isPrefix_of_utf8Encode_append_eq_utf8Encode rest.toByteArray ?_
    have whole := congrArg List.toByteArray same
    rw [List.toByteArray_append] at whole
    exact whole
  · rintro ⟨rest, rfl⟩
    exact ⟨utf8 rest, (utf8_append front rest).symm⟩

/-- A run of characters of a class has as many bytes as characters. -/
theorem takeWhile_utf8 (cls : CharClass) (cs : List Char) :
    ((utf8 cs).takeWhile fun b => cls.has (Char.ofUInt8 b)).length =
      (cs.takeWhile cls.has).length := by
  induction cs with
  | nil => rfl
  | cons c rest ih =>
      show ((String.utf8EncodeChar c ++ utf8 rest).takeWhile _).length = _
      by_cases ascii : c.utf8Size = 1
      · obtain ⟨b, encoded, same⟩ := utf8EncodeChar_of_ascii ascii
        rw [encoded, List.singleton_append, List.takeWhile_cons, List.takeWhile_cons, same]
        cases cls.has c with
        | true => exact congrArg (· + 1) ih
        | false => rfl
      · -- neither the character nor its first byte is in any class
        obtain ⟨b, more, encoded, large⟩ := utf8EncodeChar_of_not_ascii ascii
        have byte : cls.has (Char.ofUInt8 b) = false :=
          Bool.eq_false_iff.mpr fun inside => absurd (lt_of_has_ofUInt8 inside) (by omega)
        have char : cls.has c = false :=
          Bool.eq_false_iff.mpr fun inside =>
            ascii (utf8Size_of_holds (CharClass.has_iff.mp inside))
        rw [encoded, List.cons_append, List.takeWhile_cons, List.takeWhile_cons, byte, char]
        rfl

/-! ## Cuts -/

/-- A text can be cut at an offset where some of its characters take that many bytes. -/
theorem cut?_eq_some_iff {cs : List Char} :
    ∀ {n : Nat} {front back : List Char},
      cut? n cs = some (front, back) ↔ cs = front ++ back ∧ byteLength front = n := by
  induction cs with
  | nil =>
      intro n front back
      rw [cut?]
      split
      · next zero =>
        subst zero
        rw [Option.some_inj, Prod.mk.injEq, List.nil_eq_append_iff]
        constructor
        · rintro ⟨rfl, rfl⟩
          exact ⟨⟨rfl, rfl⟩, rfl⟩
        · rintro ⟨⟨rfl, rfl⟩, -⟩
          exact ⟨rfl, rfl⟩
      · next some =>
        refine iff_of_false (by simp) ?_
        rintro ⟨none, length⟩
        obtain ⟨rfl, -⟩ := List.nil_eq_append_iff.mp none
        exact some length.symm
  | cons c rest ih =>
      intro n front back
      have positive := c.utf8Size_pos
      rw [cut?]
      cases front with
      | nil =>
          rw [List.nil_append]
          by_cases zero : n = 0
          · rw [if_pos zero, zero]
            simp [byteLength]
          · rw [if_neg zero]
            refine iff_of_false ?_ fun h => zero h.2.symm
            split <;> simp
      | cons d front =>
          rw [List.cons_append, List.cons.injEq, byteLength_cons]
          have positive' := d.utf8Size_pos
          by_cases zero : n = 0
          · rw [if_pos zero]
            exact iff_of_false (by simp) fun h => by omega
          rw [if_neg zero]
          by_cases short : n < c.utf8Size
          · rw [if_pos short]
            refine iff_of_false (by simp) ?_
            rintro ⟨⟨rfl, -⟩, length⟩
            omega
          rw [if_neg short, Option.map_eq_some_iff]
          constructor
          · rintro ⟨⟨front', back'⟩, cut, same⟩
            cases same
            obtain ⟨rfl, length⟩ := ih.mp cut
            exact ⟨⟨rfl, rfl⟩, by omega⟩
          · rintro ⟨⟨rfl, rfl⟩, length⟩
            exact ⟨(front, back), ih.mpr ⟨rfl, by omega⟩, rfl⟩

theorem bytesFrom_append (front back : List UInt8) :
    bytesFrom (front ++ back) front.length = pure back := by
  rw [bytesFrom, if_pos (by simp), List.drop_left]

/-- A piece of a text is between the offsets where it begins and where it ends. -/
theorem slice_append {text : String} {front piece back : List Char}
    (h : text.toList = front ++ (piece ++ back)) :
    slice text (byteLength front) (byteLength front + byteLength piece) =
      pure (String.ofList piece) := by
  have first := cut?_eq_some_iff.mpr ⟨h, rfl⟩
  have second : cut? (byteLength piece) (piece ++ back) = some (piece, back) :=
    cut?_eq_some_iff.mpr ⟨rfl, rfl⟩
  simp only [slice, first]
  rw [if_neg (by omega), Nat.add_sub_cancel_left, second]

/-! ## Rules on bytes -/

end Checked

def Shape.opening : Shape → String
  | exactly text => text
  | run lead _ => lead

/-- The lexemes of a shape begin with ASCII characters, where they begin with something. -/
def Shape.Ascii (shape : Shape) : Prop :=
  byteLength shape.opening.toList = shape.opening.length

namespace Checked

/-- On the bytes of some characters, a shape has the lexeme that it has on the characters. -/
theorem matched_utf8 {shape : Shape} (ascii : shape.Ascii) (cs : List Char) :
    matched (utf8 cs) shape = pure ((shape.lexemeLength? cs).getD 0) := by
  have found : ∀ front : List Char, (utf8 front).isPrefixOf (utf8 cs) = front.isPrefixOf cs := by
    intro front
    rw [Bool.eq_iff_iff, List.isPrefixOf_iff_prefix, List.isPrefixOf_iff_prefix, utf8_prefix]
  cases shape with
  | exactly text =>
      replace ascii : byteLength text.toList = text.length := ascii
      simp only [matched, Shape.lexemeLength?, found, length_utf8, ascii]
      split <;> rfl
  | run lead cls =>
      replace ascii : byteLength lead.toList = lead.length := ascii
      simp only [matched, Shape.lexemeLength?, found]
      split
      · next head =>
        obtain ⟨rest, rfl⟩ := List.isPrefixOf_iff_prefix.mp head
        rw [utf8_append, bytesFrom_append, pure_bind, takeWhile_utf8, length_utf8, ascii,
          ← String.length_toList, List.drop_left]
        cases (rest.takeWhile cls.has).length <;> rfl
      · rfl

theorem ascii_rules : ∀ rule ∈ rules, rule.shape.Ascii := by
  unfold Shape.Ascii
  decide +kernel

/-- On the bytes of some characters, the rule decides that decides on the characters. -/
theorem firstRule_utf8 (cs : List Char) : firstRule (utf8 cs) rules = pure (lexeme? cs) := by
  suffices ∀ {rs : List LexRule}, (∀ rule ∈ rs, rule.shape.Ascii) →
      firstRule (utf8 cs) rs = pure (rs.findSome? fun rule =>
        ((rule.shape.lexemeLength? cs).filter (0 < ·)).map fun len => (rule, len)) from
    this ascii_rules
  intro rs ascii
  induction rs with
  | nil => rfl
  | cons rule more ih =>
      obtain ⟨first, others⟩ := List.forall_mem_cons.mp ascii
      rw [firstRule, matched_utf8 first, pure_bind, ih others, List.findSome?_cons]
      match rule.shape.lexemeLength? cs with
      | none | some 0 | some (n + 1) => rfl

/-! ## The scan -/

section Scan
variable {text : String} {front cs : List Char}

/-- One step of the scan: no cut is outside the text, or inside a character. -/
theorem scan_step (whole : text.toList = front ++ cs) (nonempty : cs ≠ []) (tokens : List Token)
    (previous : Option TokenKind) :
    scan text tokens previous (byteLength front) =
      match lexeme? cs with
      | none => throw (.noMatch text (byteLength front))
      | some (rule, len) =>
        if rule.kind = .not then throw (.unsupported "!" (byteLength front))
        else if maxTokens ≤ tokens.length then throw (.tooManyTokens maxTokens)
        else (do
          let kind := kindAfter previous rule.kind
          let token ← safe (Token.create kind (keptText kind (cs.take len)) (byteLength front))
          scan text (tokens ++ [token]) (lookBack previous kind) (byteLength front + len)) := by
  have length : (utf8 text.toList).length = (utf8 front).length + (utf8 cs).length := by
    rw [whole, utf8_append, List.length_append]
  have positive : 0 < (utf8 cs).length := by
    obtain ⟨c, rest, rfl⟩ := List.exists_cons_of_ne_nil nonempty
    rw [length_utf8, byteLength_cons]
    exact Nat.add_pos_left c.utf8Size_pos _
  have rest : bytesFrom (utf8 text.toList) (byteLength front) = pure (utf8 cs) := by
    rw [whole, utf8_append, ← length_utf8, bytesFrom_append]
  rw [scan, if_pos (by rw [← length_utf8]; omega), rest, pure_bind, firstRule_utf8, pure_bind]
  cases found : lexeme? cs with
  | none => rfl
  | some hit =>
      obtain ⟨rule, n⟩ := hit
      obtain ⟨chars, behind, rfl, taken, -, len, -⟩ := exists_firstLexeme found
      dsimp only
      rw [← len, slice_append whole, pure_bind, len, taken, String.toList_ofList]

/-- From any offset between two characters on, the scan gives the tokens that the lexer gives. -/
theorem scan_eq {room : Nat} {previous : Option TokenKind} {position : Nat} :
    ∀ {front : List Char} {tokens : List Token}, text.toList = front ++ cs →
      byteLength front = position → tokens.length + room = maxTokens →
      scan text tokens previous position = safe (do
        let more ← Lexer.scan text room previous position cs
        return tokens ++ more) := by
  -- the five ways of one step: the end, no lexeme, an operator that is refused, no room, and a
  -- lexeme that there is room for
  fun_induction Lexer.scan text room previous position cs with
  | case1 room previous position cs empty =>
      rintro front tokens whole rfl _
      obtain rfl := List.isEmpty_iff.mp empty
      rw [scan, if_neg (by rw [length_utf8, whole]; simp)]
      show _ = safe (.ok (tokens ++ []))
      rw [List.append_nil]
      rfl
  | case2 room previous position cs nonempty missed =>
      rintro front tokens whole rfl _
      rw [scan_step whole (by simpa using nonempty), missed]
      rfl
  | case3 room previous position cs nonempty rule n found refused =>
      rintro front tokens whole rfl _
      rw [scan_step whole (by simpa using nonempty), found]
      dsimp only
      rw [if_pos refused]
      rfl
  | case4 previous position cs nonempty rule n found supported =>
      rintro front tokens whole rfl full
      have none : maxTokens ≤ tokens.length := Nat.le_of_eq full.symm
      rw [scan_step whole (by simpa using nonempty), found]
      dsimp only
      rw [if_neg supported, if_pos none]
      rfl
  | case5 previous position cs nonempty rule n found supported room kind =>
      rename_i ih
      rintro front tokens whole rfl fits
      obtain ⟨chars, rest, rfl, -, back, len, -⟩ := exists_firstLexeme found
      rw [scan_step whole (by simpa using nonempty), found]
      dsimp only
      rw [if_neg supported, if_neg (by omega), bind_assoc]
      refine bind_eq_safe rfl fun token _ => ?_
      have behind : text.toList = front ++ chars ++ (chars ++ rest).drop n := by
        rw [back, whole, List.append_assoc]
      have offset : byteLength (front ++ chars) = byteLength front + n := by
        rw [byteLength_append, len]
      have less : (tokens ++ [token]).length + room = maxTokens := by
        rw [List.length_append, List.length_singleton]
        omega
      rw [ih behind offset less, bind_assoc]
      simp only [pure_bind, List.append_assoc, List.singleton_append]

end Scan

/-- No cut of the lexer is outside the text, or inside a character. -/
theorem tokenize_eq (text : String) : tokenize text = safe (HartMonitor.tokenize text) := by
  have whole := @scan_eq text text.toList maxTokens none 0 [] [] rfl rfl rfl
  simp only [List.nil_append, bind_pure] at whole
  exact whole

end Checked

end HartMonitor
