/-
# `HartMonitor.Proofs.Rv32i.Pattern` — what the text of a pattern says about a word

A symbol that is read pushes the ones before it to the left, and the first of more than
thirty-two are pushed out.  So bit `j` of a row of symbols is what symbol `j` from the
right says, wherever the row begins:

    getLsbD_ofSymbols    a bit of the mask, or of the expected values
    matches_ofSymbols    the words that have these values

A text is read in one pass over its bytes, in which a symbol is counted and a foreign
character ends the pass at once (`scan`).  The count is checked behind the last byte only,
which is why a foreign character weighs more than any number of symbols.  It has 32 bits, so
that `2 ^ 32` symbols too many are not noticed (`compile_zeros`).
-/
import HartMonitor.Instruction.Pattern
import HartMonitor.Proofs.Expression.Offset
import Mathlib.Data.List.Forall2

namespace HartMonitor

def BitSymbol.fixes (s : BitSymbol) : Bool := s != .free

def bitChar (b : Bool) : Char := if b then '1' else '0'

namespace Pattern

variable {cs : List Char} {symbols : List BitSymbol} {text : String} {w : Word}

/-! ## Rows of symbols -/

theorem ofSymbols_concat (symbols : List BitSymbol) (s : BitSymbol) :
    ofSymbols (symbols ++ [s]) = (ofSymbols symbols).extend s := by
  rw [ofSymbols, List.foldl_append]
  rfl

/-- One more symbol comes behind the bits that are there. -/
theorem getLsbD_extend (p : Pattern) (s : BitSymbol) (j : Nat) :
    (p.extend s).mask.getLsbD j =
        (decide (j < 32) && if j = 0 then s.fixes else p.mask.getLsbD (j - 1)) ∧
    (p.extend s).expected.getLsbD j =
        (decide (j < 32) && if j = 0 then s == .one else p.expected.getLsbD (j - 1)) := by
  cases s <;> cases j <;> simp [extend, BitSymbol.fixes]

/-- A word that takes up a bit of every symbol has them in their order, the last at the right. -/
theorem getLsbD_ofSymbols {bits : Pattern → Word} {tells : BitSymbol → Bool} (start : bits ⟨0, 0⟩ = 0)
    (more : ∀ p s j, (bits (p.extend s)).getLsbD j =
      (decide (j < 32) && if j = 0 then tells s else (bits p).getLsbD (j - 1)))
    (symbols : List BitSymbol) (j : Nat) :
    (bits (ofSymbols symbols)).getLsbD j =
      (decide (j < 32) && (symbols.reverse[j]?).any tells) := by
  induction symbols using List.reverseRecOn generalizing j with
  | nil =>
      rw [ofSymbols, List.foldl_nil, start]
      simp
  | append_singleton symbols s ih =>
      rw [ofSymbols_concat, more, List.reverse_concat]
      cases j with
      | zero => simp
      | succ j =>
          rw [if_neg (Nat.succ_ne_zero j), Nat.add_sub_cancel, ih, List.getElem?_cons_succ]
          by_cases inside : j + 1 < 32
          · simp [inside, Nat.lt_of_succ_lt inside]
          · simp [inside]

theorem getLsbD_mask (symbols : List BitSymbol) (j : Nat) :
    (ofSymbols symbols).mask.getLsbD j =
      (decide (j < 32) && (symbols.reverse[j]?).any BitSymbol.fixes) :=
  getLsbD_ofSymbols rfl (fun p s j => (getLsbD_extend p s j).1) symbols j

theorem getLsbD_expected (symbols : List BitSymbol) (j : Nat) :
    (ofSymbols symbols).expected.getLsbD j =
      (decide (j < 32) && (symbols.reverse[j]?).any (· == .one)) :=
  getLsbD_ofSymbols rfl (fun p s j => (getLsbD_extend p s j).2) symbols j

theorem expected_outside_mask (symbols : List BitSymbol) :
    (ofSymbols symbols).expected &&& ~~~(ofSymbols symbols).mask = 0 := by
  apply BitVec.eq_of_getLsbD_eq
  intro j hj
  rw [BitVec.getLsbD_and, BitVec.getLsbD_not, getLsbD_mask, getLsbD_expected]
  cases symbols.reverse[j]? with
  | none => simp
  | some s => cases s <;> simp [BitSymbol.fixes]

theorem bit_matches (s : BitSymbol) (b : Bool) :
    (b && s.fixes) = (s == .one) ↔ s = .free ∨ s = if b then .one else .zero := by
  cases s <;> cases b <;> decide

/-- A word matches thirty-two symbols where each is free or has the value of its bit. -/
theorem matches_ofSymbols (width : symbols.length = 32) :
    (ofSymbols symbols).Matches w ↔
      ∀ (i : Nat) (hi : i < symbols.length),
        symbols[i] = .free ∨ symbols[i] = if w.getLsbD (31 - i) then .one else .zero := by
  -- bit `31 - i` of both words comes from symbol `i`
  have bit : ∀ i (hi : i < symbols.length),
      (w &&& (ofSymbols symbols).mask).getLsbD (31 - i) =
          (w.getLsbD (31 - i) && symbols[i].fixes) ∧
        (ofSymbols symbols).expected.getLsbD (31 - i) = (symbols[i] == .one) := by
    intro i hi
    have inside : 31 - i < 32 := by omega
    have place : symbols.reverse[31 - i]? = some symbols[i] := by
      rw [List.getElem?_reverse (by omega), List.getElem?_eq_some_iff]
      exact ⟨by omega, by congr 1; omega⟩
    rw [BitVec.getLsbD_and, getLsbD_mask, getLsbD_expected, place]
    simp [inside]
  rw [Matches]
  constructor
  · intro same i hi
    rw [← bit_matches, ← (bit i hi).1, ← (bit i hi).2, same]
  · intro each
    apply BitVec.eq_of_getLsbD_eq
    intro j hj
    have hi : 31 - j < symbols.length := by omega
    have here := (bit_matches _ _).mpr (each (31 - j) hi)
    rw [← (bit _ hi).1, ← (bit _ hi).2] at here
    rwa [show 31 - (31 - j) = j by omega] at here

/-! ## Texts -/

def alphabet : List Char := ['0', '1', '?', ' ']

def significant (text : String) : List Char := text.toList.filter (· ≠ ' ')

theorem blank_mem_alphabet : ' ' ∈ alphabet := by decide

theorem utf8Size_of_mem_alphabet {c : Char} (h : c ∈ alphabet) : c.utf8Size = 1 := by
  have all : alphabet.all (·.utf8Size = 1) = true := by decide
  exact of_decide_eq_true (List.all_eq_true.mp all c h)

theorem ofChar?_eq_none {c : Char} (solid : c ≠ ' ') : BitSymbol.ofChar? c = none ↔ c ∉ alphabet := by
  simp only [alphabet, List.mem_cons, List.not_mem_nil, or_false, BitSymbol.ofChar?]
  split <;> simp_all

theorem symbols?_eq (cs : List Char) :
    symbols? cs = (cs.filter (· ≠ ' ')).mapM BitSymbol.ofChar? := by
  induction cs with
  | nil => rfl
  | cons c rest ih =>
      by_cases blank : c = ' '
      · rw [symbols?, if_pos blank, ih, List.filter_cons_of_neg (by simpa using blank)]
      · rw [symbols?, if_neg blank, ih, List.filter_cons_of_pos (by simpa using blank),
          List.mapM_cons]
        cases BitSymbol.ofChar? c with
        | none => rfl
        | some s => cases (rest.filter (· ≠ ' ')).mapM BitSymbol.ofChar? <;> rfl

theorem symbols?_eq_none : symbols? cs = none ↔ ∃ c ∈ cs, c ∉ alphabet := by
  induction cs with
  | nil => simp [symbols?]
  | cons c rest ih =>
      by_cases blank : c = ' '
      · subst blank
        rw [symbols?, if_pos rfl, ih]
        simp [alphabet]
      · have foreign := ofChar?_eq_none blank
        rw [symbols?, if_neg blank]
        cases here : BitSymbol.ofChar? c with
        | none => exact iff_of_true rfl ⟨c, List.mem_cons_self, foreign.mp here⟩
        | some s =>
            have own : c ∈ alphabet := by simpa [here] using foreign
            simp [ih, own]

theorem forall₂_symbols (h : symbols? text.toList = some symbols) :
    List.Forall₂ (fun c s => BitSymbol.ofChar? c = some s) (significant text) symbols := by
  rw [symbols?_eq] at h
  rw [significant]
  generalize text.toList.filter (· ≠ ' ') = cs at h
  induction cs generalizing symbols with
  | nil => cases h; exact .nil
  | cons c rest ih =>
      rw [List.mapM_cons] at h
      cases here : BitSymbol.ofChar? c with
      | none => rw [here] at h; cases h
      | some s =>
          cases later : rest.mapM BitSymbol.ofChar? with
          | none => rw [here, later] at h; cases h
          | some more => rw [here, later] at h; cases h; exact .cons here (ih later)

theorem width_eq (symbols : List BitSymbol) : width symbols = UInt32.ofNat symbols.length := by
  induction symbols using List.reverseRecOn with
  | nil => rfl
  | append_singleton symbols s ih =>
      rw [width, List.foldl_append, List.length_append, UInt32.ofNat_add, ← ih]
      rfl

/-- A count below `2 ^ 32` is right. -/
theorem width_eq_iff (short : symbols.length < 2 ^ 32) :
    width symbols = 32 ↔ symbols.length = 32 := by
  rw [width_eq, UInt32.ofNat_eq_iff_mod_eq_toNat, Nat.mod_eq_of_lt short]
  exact Iff.rfl

theorem compile_eq_ok {p : Pattern} :
    compile text = .ok p ↔
      ∃ symbols, symbols? text.toList = some symbols ∧ width symbols = 32 ∧
        p = ofSymbols symbols := by
  rw [compile]
  cases symbols? text.toList with
  | none => simp
  | some symbols =>
      by_cases wide : width symbols = 32
      · simp [wide, eq_comm]
      · simp [wide]

theorem compile_eq_foreignCharacter :
    compile text = .error .foreignCharacter ↔ ∃ c ∈ text.toList, c ∉ alphabet := by
  rw [← symbols?_eq_none, compile]
  cases symbols? text.toList with
  | none => simp
  | some symbols =>
      by_cases wide : width symbols = 32
      · simp [wide]
      · simp [wide]

section Short
variable (short : (significant text).length < 2 ^ 32)
include short

theorem compile_eq_wrongWidth :
    compile text = .error .wrongWidth ↔
      (∀ c ∈ text.toList, c ∈ alphabet) ∧ (significant text).length ≠ 32 := by
  have own : (∀ c ∈ text.toList, c ∈ alphabet) ↔ symbols? text.toList ≠ none := by
    rw [Ne, symbols?_eq_none]
    simp
  rw [own, compile]
  cases found : symbols? text.toList with
  | none => simp
  | some symbols =>
      have same := (forall₂_symbols found).length_eq
      rw [same] at short ⊢
      by_cases wide : symbols.length = 32
      · simp [width_eq_iff short, wide]
      · simp [width_eq_iff short, wide]

/-- A text that has only symbols and blanks, and the right number of symbols, describes a pattern. -/
theorem compile_succeeds_iff :
    (∃ p, compile text = .ok p) ↔
      (∀ c ∈ text.toList, c ∈ alphabet) ∧ (significant text).length = 32 := by
  have foreign := (@compile_eq_foreignCharacter text).mpr
  have width := (compile_eq_wrongWidth short).mpr
  constructor
  · rintro ⟨p, described⟩
    have own : ∀ c ∈ text.toList, c ∈ alphabet := by
      by_contra some
      have := foreign (by simpa using some)
      rw [described] at this
      cases this
    refine ⟨own, ?_⟩
    by_contra other
    have := width ⟨own, other⟩
    rw [described] at this
    cases this
  · rintro ⟨own, count⟩
    cases result : compile text with
    | ok p => exact ⟨p, rfl⟩
    | error e =>
        cases e with
        | foreignCharacter =>
            obtain ⟨c, here, not⟩ := compile_eq_foreignCharacter.mp result
            exact absurd (own c here) not
        | wrongWidth => exact absurd count ((compile_eq_wrongWidth short).mp result).2

end Short

theorem agrees_ofChar? {c : Char} {s : BitSymbol} (h : BitSymbol.ofChar? c = some s) (b : Bool) :
    (s = .free ∨ s = if b then .one else .zero) ↔ c = '?' ∨ c = bitChar b := by
  simp only [BitSymbol.ofChar?] at h
  split at h <;> cases h <;> cases b <;> decide

/-- The words that a text describes. -/
theorem matches_of_compile {p : Pattern} (short : (significant text).length < 2 ^ 32)
    (h : compile text = .ok p) :
    p.Matches w ↔ ∀ (i : Nat) (hi : i < (significant text).length),
      (significant text)[i] = '?' ∨ (significant text)[i] = bitChar (w.getLsbD (31 - i)) := by
  obtain ⟨symbols, found, wide, rfl⟩ := compile_eq_ok.mp h
  have pairs := forall₂_symbols found
  have same := pairs.length_eq
  rw [same] at short
  rw [matches_ofSymbols ((width_eq_iff short).mp wide)]
  constructor
  · intro each i hi
    exact (agrees_ofChar? (pairs.get hi (same ▸ hi)) _).mp (each i (same ▸ hi))
  · intro each i hi
    exact (agrees_ofChar? (pairs.get (same ▸ hi) hi) _).mpr (each i (same ▸ hi))

/-! ## One pass over the bytes -/

open Checked (utf8)

/-- The pattern of some bytes, behind others that were read; `count` symbols were counted. -/
def scan (p : Pattern) (count : UInt32) : List UInt8 → Except PatternError Pattern
  | [] => if count = 32 then .ok p else .error .wrongWidth
  | b :: rest =>
    if Char.ofUInt8 b = ' ' then scan p count rest
    else
      let mask := p.mask <<< 1
      let expected := p.expected <<< 1
      match Char.ofUInt8 b with
      | '0' => scan ⟨mask ||| 1, expected⟩ (count + 1) rest
      | '1' => scan ⟨mask ||| 1, expected ||| 1⟩ (count + 1) rest
      | '?' => scan ⟨mask, expected⟩ (count + 1) rest
      | _ => .error .foreignCharacter

/-- One more byte, by the character that it is. -/
theorem scan_cons (p : Pattern) (count : UInt32) (b : UInt8) (rest : List UInt8) :
    scan p count (b :: rest) =
      if Char.ofUInt8 b = ' ' then scan p count rest
      else
        match BitSymbol.ofChar? (Char.ofUInt8 b) with
        | some s => scan (p.extend s) (count + 1) rest
        | none => .error .foreignCharacter := by
  rw [scan]
  generalize Char.ofUInt8 b = c
  refine ite_congr rfl (fun _ => rfl) fun _ => ?_
  split
  · rfl
  · rfl
  · rfl
  · next zero one free =>
      have none : BitSymbol.ofChar? c = none := by
        rw [BitSymbol.ofChar?]
        · exact zero
        · exact one
        · exact free
      rw [none]

/-- The pass ends as its characters say, whatever was read before. -/
theorem scan_utf8 (p : Pattern) (count : UInt32) (cs : List Char) :
    scan p count (utf8 cs) =
      match symbols? cs with
      | none => .error .foreignCharacter
      | some symbols =>
        if symbols.foldl (fun count _ => count + 1) count = 32 then .ok (symbols.foldl extend p)
        else .error .wrongWidth := by
  induction cs generalizing p count with
  | nil => rfl
  | cons c rest ih =>
      rw [show utf8 (c :: rest) = String.utf8EncodeChar c ++ utf8 rest from rfl]
      by_cases ascii : c.utf8Size = 1
      · obtain ⟨b, encoded, same⟩ := utf8EncodeChar_of_ascii ascii
        rw [encoded, List.singleton_append, scan_cons, same, symbols?]
        split
        · exact ih p count
        · cases BitSymbol.ofChar? c with
          | none => rfl
          | some s =>
              simp only [ih]
              cases symbols? rest <;> rfl
      · -- the first byte of a longer character is foreign, and so is the character
        obtain ⟨b, more, encoded, large⟩ := utf8EncodeChar_of_not_ascii ascii
        have lead : Char.ofUInt8 b ∉ alphabet := by
          intro own
          have small := Char.utf8Size_eq_one_iff.mp (utf8Size_of_mem_alphabet own)
          rw [UInt32.le_iff_toNat_le, toNat_ofUInt8] at small
          exact absurd (Nat.lt_of_le_of_lt small (by decide)) (Nat.not_lt.mpr large)
        have whole : c ∉ alphabet := fun own => ascii (utf8Size_of_mem_alphabet own)
        have solid : Char.ofUInt8 b ≠ ' ' := fun blank => lead (blank ▸ blank_mem_alphabet)
        rw [encoded, List.cons_append, scan_cons, if_neg solid, (ofChar?_eq_none solid).mpr lead,
          symbols?_eq_none.mpr ⟨c, List.mem_cons_self, whole⟩]

theorem compile_eq_scan (text : String) : compile text = scan ⟨0, 0⟩ 0 (utf8 text.toList) := by
  rw [scan_utf8, compile]
  cases symbols? text.toList <;> rfl

/-- A text of fewer than `2 ^ 32` symbols describes a pattern exactly where its characters are symbols
and blanks, and thirty-two of them are symbols; a wrong number of symbols is reported where there is
no other fault.  The words of the pattern are those that agree with every symbol, the first one being
for the most significant bit.  In any text it does not matter where the blanks stand, and a foreign
character is reported wherever it stands.  All of this is found in one pass over the bytes. -/
theorem compile_faithful (text : String) :
    ((significant text).length < 2 ^ 32 →
      ((∃ p, compile text = .ok p) ↔
        (∀ c ∈ text.toList, c ∈ alphabet) ∧ (significant text).length = 32) ∧
      (∀ p, compile text = .ok p → ∀ w : Word,
        p.Matches w ↔ ∀ (i : Nat) (hi : i < (significant text).length),
          (significant text)[i] = '?' ∨ (significant text)[i] = bitChar (w.getLsbD (31 - i))) ∧
      (compile text = .error .wrongWidth ↔
        (∀ c ∈ text.toList, c ∈ alphabet) ∧ (significant text).length ≠ 32)) ∧
    (∀ p, compile text = .ok p → p.expected &&& ~~~p.mask = 0) ∧
    (∀ other, significant other = significant text → compile other = compile text) ∧
    (compile text = .error .foreignCharacter ↔ ∃ c ∈ text.toList, c ∉ alphabet) ∧
    compile text = scan ⟨0, 0⟩ 0 (Checked.utf8 text.toList) := by
  refine ⟨fun short => ⟨compile_succeeds_iff short, ?words, compile_eq_wrongWidth short⟩, ?inside,
    ?blanks, compile_eq_foreignCharacter, compile_eq_scan text⟩
  case words => exact fun p described w => matches_of_compile short described
  case inside =>
    intro p described
    obtain ⟨symbols, -, -, rfl⟩ := compile_eq_ok.mp described
    exact expected_outside_mask symbols
  case blanks =>
    intro other same
    rw [significant, significant] at same
    rw [compile, compile, symbols?_eq, symbols?_eq, same]

/-- The text of a row, which one word matches and another does not, is the same without its blanks.
A symbol more is one too many, and a foreign character behind that is what is reported. -/
theorem compile_faithful_addi :
    let text := "??????? ????? ????? 000 ????? 00100 11"
    let joined := "?????????????????000?????0010011"
    (∃ p, compile text = .ok p ∧ p.Matches 0xfff10093 ∧ ¬ p.Matches 0x00001013) ∧
    compile joined = compile text ∧
    compile (joined ++ "0") = .error .wrongWidth ∧
    compile (joined ++ "0x") = .error .foreignCharacter := by
  intro text joined
  obtain ⟨counted, -, blanks, -⟩ := compile_faithful text
  obtain ⟨described, words, -⟩ := counted (by decide +kernel)
  obtain ⟨counted', -⟩ := compile_faithful (joined ++ "0")
  obtain ⟨-, -, wide⟩ := counted' (by decide +kernel)
  obtain ⟨-, -, -, foreign, -⟩ := compile_faithful (joined ++ "0x")
  have spelled : ∀ {other : String}, other.toList.all (· ∈ alphabet) = true →
      ∀ c ∈ other.toList, c ∈ alphabet :=
    fun all c hc => of_decide_eq_true (List.all_eq_true.mp all c hc)
  obtain ⟨p, compiled⟩ := described.mpr ⟨spelled (by decide +kernel), by decide +kernel⟩
  refine ⟨⟨p, compiled, ?_, ?_⟩, blanks joined (by decide +kernel),
    wide.mpr ⟨spelled (by decide +kernel), by decide +kernel⟩,
    foreign.mpr ⟨'x', by decide +kernel⟩⟩
  · exact (words p compiled 0xfff10093).mpr (by decide +kernel)
  · exact fun fits => absurd ((words p compiled 0x00001013).mp fits) (by decide +kernel)

/-! ## Too many symbols -/

theorem symbols?_zeros (n : Nat) :
    symbols? (List.replicate n '0') = some (List.replicate n .zero) := by
  induction n with
  | zero => rfl
  | succ n ih => simp only [List.replicate_succ, symbols?, ih]; rfl

theorem compile_zeros {n : Nat} (wraps : n % 2 ^ 32 = 32) :
    ∃ p, compile (String.ofList (List.replicate n '0')) = .ok p := by
  have wide : width (List.replicate n .zero) = 32 := by
    rw [width_eq, List.length_replicate, UInt32.ofNat_eq_iff_mod_eq_toNat, wraps]
    rfl
  exact ⟨_, compile_eq_ok.mpr ⟨_, by rw [String.toList_ofList, symbols?_zeros], wide, rfl⟩⟩

theorem length_significant_zeros (n : Nat) :
    (significant (String.ofList (List.replicate n '0'))).length = n := by
  have all : (List.replicate n '0').filter (· ≠ ' ') = List.replicate n '0' :=
    List.filter_eq_self.mpr fun c mem => by rw [List.eq_of_mem_replicate mem]; rfl
  rw [significant, String.toList_ofList, all, List.length_replicate]

/-- A text of `2 ^ 32` symbols too many is taken for a pattern. -/
theorem compile_of_too_many_zeros :
    let text := String.ofList (List.replicate (2 ^ 32 + 32) '0')
    (∃ p, compile text = .ok p) ∧ (significant text).length ≠ 32 := by
  intro text
  have length : (significant text).length = 2 ^ 32 + 32 := length_significant_zeros _
  refine ⟨compile_zeros (by decide), ?_⟩
  rw [length]
  decide

end Pattern

end HartMonitor
