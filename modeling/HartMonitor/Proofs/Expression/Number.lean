/-
# `HartMonitor.Proofs.Expression.Number` — operands and operators on words are those on numbers

A phrase has a number for its value; the evaluator works on words.  The two agree at
every leaf and at every operator, errors included:

    map_operand         a literal or a register
    map_dereference     a byte of memory
    map_apply           a binary operator

A numeral is read digit by digit from the left, and spells the number whose digits it
has (`digitsFrom?_eq`).
-/
import HartMonitor.Expression.Evaluation
import HartMonitor.Proofs.Expression.Grammar
import HartMonitor.Proofs.Memory.Window

namespace HartMonitor

def asNumber (outcome : Except ExpressionError Word) : Except ExpressionError Nat :=
  outcome.map BitVec.toNat

theorem asNumber_eq_ok_iff {outcome : Except ExpressionError Word} {w : Word} :
    asNumber outcome = .ok w.toNat ↔ outcome = .ok w := by
  cases outcome with
  | error e => simp [asNumber, Except.map]
  | ok v => simp [asNumber, Except.map, BitVec.toNat_inj]

theorem asNumber_eq_error_iff {outcome : Except ExpressionError Word} {e : ExpressionError} :
    asNumber outcome = .error e ↔ outcome = .error e := by
  cases outcome with
  | error e' => simp [asNumber, Except.map]
  | ok v => simp [asNumber, Except.map]

/-- What follows an evaluation goes by its number. -/
theorem asNumber_bind {outcome : Except ExpressionError Word} {number : Except ExpressionError Nat}
    {f : Word → Except ExpressionError Word} {g : Nat → Except ExpressionError Nat}
    (h : asNumber outcome = number) (hf : ∀ w, asNumber (f w) = g w.toNat) :
    asNumber (outcome >>= f) = number >>= g := by
  subst h
  cases outcome with
  | error e => rfl
  | ok w => exact hf w

/-! ## Numerals -/

namespace Text

theorem spelledNumber_cons (base : Nat) (c : Char) (rest : List Char) :
    spelledNumber base (c :: rest) =
      (digitValue? c).getD 0 * base ^ rest.length + spelledNumber base rest := by
  simp only [spelledNumber, List.reverse_cons, List.map_append, Nat.ofDigits_append,
    List.length_map, List.length_reverse, List.map_cons, List.map_nil, Nat.ofDigits_singleton]
  rw [Nat.mul_comm, Nat.add_comm]

/-- Digits that all exist in a base are read as the number they spell, behind the one that
was read before. -/
theorem digitsFrom?_eq {base : Nat} {cs : List Char} :
    ∀ (high : Nat), (∀ c ∈ cs, ∃ d, digitBelow? base c = some d) →
      digitsFrom? base high cs = some (high * base ^ cs.length + spelledNumber base cs) := by
  induction cs with
  | nil =>
      intro high _
      simp [digitsFrom?, spelledNumber]
  | cons c rest ih =>
      intro high h
      obtain ⟨⟨d, hd⟩, hrest⟩ := List.forall_mem_cons.mp h
      have value : digitValue? c = some d := (Option.filter_eq_some_iff.mp hd).1
      rw [digitsFrom?, hd, Option.bind_some, ih _ hrest, spelledNumber_cons, value,
        Option.getD_some, List.length_cons, Nat.pow_succ]
      congr 1
      rw [Nat.add_mul, Nat.mul_assoc, Nat.mul_comm base, Nat.add_assoc]

theorem digitBelow?_of_lt {base d : Nat} {c : Char} (h : digitValue? c = some d) (hd : d < base) :
    digitBelow? base c = some d := by
  simp [digitBelow?, h, hd]

theorem toNat_sub_lt {c first last : Char} (h : first ≤ c ∧ c ≤ last) :
    c.toNat - first.toNat < last.toNat - first.toNat + 1 := by
  have h₂ : c.toNat ≤ last.toNat := UInt32.le_iff_toNat_le.mp (Char.le_def.mp h.2)
  omega

theorem digitBelow?_decimalDigit {c : Char} (h : CharClass.decimalDigit.has c = true) :
    ∃ d, digitBelow? 10 c = some d := by
  have range : '0' ≤ c ∧ c ≤ '9' := by
    simpa [CharClass.has, Char.isDigit, Char.le_def] using h
  exact ⟨_, digitBelow?_of_lt (by simp [digitValue?, range]) (toNat_sub_lt range)⟩

theorem digitBelow?_hexDigit {c : Char} (h : CharClass.hexDigit.has c = true) :
    ∃ d, digitBelow? 16 c = some d := by
  have value : ∃ d, digitValue? c = some d ∧ d < 16 := by
    simp only [digitValue?, Bool.and_eq_true, decide_eq_true_eq]
    split
    · next range =>
      have : c.toNat - '0'.toNat < 10 := toNat_sub_lt range
      exact ⟨_, rfl, by omega⟩
    · next decimal =>
      split
      · next range =>
        have : c.toNat - 'a'.toNat < 6 := toNat_sub_lt range
        exact ⟨_, rfl, by omega⟩
      · next lower =>
        split
        · next range =>
          have : c.toNat - 'A'.toNat < 6 := toNat_sub_lt range
          exact ⟨_, rfl, by omega⟩
        · next upper =>
          simp only [CharClass.has, Char.isDigit, Bool.or_eq_true, Bool.and_eq_true,
            decide_eq_true_eq] at h
          rcases h with (h | h) | h
          · exact absurd h decimal
          · exact absurd h lower
          · exact absurd h upper
  obtain ⟨d, hd, small⟩ := value
  exact ⟨d, digitBelow?_of_lt hd small⟩

/-- Digits are read as the number they spell, if it fits the width. -/
theorem numeral?_eq {base bits : Nat} {cs : List Char} (nonempty : cs ≠ [])
    (h : ∀ c ∈ cs, ∃ d, digitBelow? base c = some d) :
    numeral? base bits cs =
      if spelledNumber base cs < 2 ^ bits then some (spelledNumber base cs) else none := by
  have bare : unsignedDigits cs = cs := by
    unfold unsignedDigits
    split
    · next rest =>
      obtain ⟨d, hd⟩ := h '+' List.mem_cons_self
      exact absurd hd (by simp [digitBelow?, show digitValue? '+' = none by decide])
    · rfl
  cases cs with
  | nil => exact absurd rfl nonempty
  | cons c rest =>
      have read := digitsFrom?_eq 0 h
      rw [Nat.zero_mul, Nat.zero_add] at read
      simp only [numeral?, bare, read, Option.filter_some, decide_eq_true_eq, Nat.one_shiftLeft]

end Text

namespace Evaluation

open Text

theorem map_literal {base : Nat} (text : String) {digits : List Char} (nonempty : digits ≠ [])
    (h : ∀ c ∈ digits, ∃ d, digitBelow? base c = some d) :
    asNumber (literal base text digits) = literalNumber text (spelledNumber base digits) := by
  rw [literal, numeral?_eq nonempty h, literalNumber]
  split
  · next n hn =>
    split at hn
    · next small =>
      cases hn
      rw [if_pos small, asNumber, Except.map, BitVec.toNat_ofNat, Nat.mod_eq_of_lt small]
    · cases hn
  · next hn =>
    split at hn
    · cases hn
    · next large => rw [if_neg large]; rfl

/-! ## Registers -/

/-- Of the names that start with the mark, only the one of register zero is canonical. -/
theorem ofName?_marked {text : String} {name : List Char} (h : text.toList = '$' :: name) :
    RegisterNumber.ofName? text = if String.ofList name = "0" then some 0 else none := by
  have unmarked : ∀ other : String, other.toList.head? ≠ some '$' → other ≠ text := by
    intro other ho e
    rw [e, h] at ho
    exact ho rfl
  have tail : ∀ other ∈ RegisterNumber.names.tail, other ≠ text := by
    have : ∀ other ∈ RegisterNumber.names.tail, other.toList.head? ≠ some '$' := by decide
    exact fun other ho => unmarked other (this other ho)
  have zero : "$0" = text ↔ String.ofList name = "0" := by
    rw [← String.toList_inj, ← String.toList_inj, h, String.toList_ofList]
    simp [eq_comm]
  have others : RegisterNumber.names.tail.findIdx? (fun other => decide (other = text)) = none :=
    List.findIdx?_eq_none_iff.mpr fun other ho => by simpa using tail other ho
  rw [RegisterNumber.ofName?, if_neg (unmarked "zero" (by decide)).symm,
    if_neg (unmarked "fp" (by decide)).symm]
  change ((("$0" :: RegisterNumber.names.tail).findIdx? _).map _) = _
  by_cases hz : String.ofList name = "0"
  · simp [List.findIdx?_cons, zero.mpr hz, hz]
  · simp [List.findIdx?_cons, mt zero.mp hz, hz, others]

theorem map_registerValue (m : Machine) {text : String} {name : List Char}
    (h : text.toList = '$' :: name) :
    asNumber (registerValue m text) = registerNumber m text (String.ofList name) := by
  have bare : bareName text = String.ofList name := by simp only [bareName, h]
  simp only [registerValue, bare, registerNumber, Registers.readNamed?, ofName?_marked h,
    markedRegister?]
  split
  · rfl
  · by_cases hz : String.ofList name = "0"
    · simp [hz, asNumber, Except.map]
    · simp only [hz, if_false, Option.map_none, Option.none_or]
      cases RegisterNumber.ofName? (String.ofList name) with
      | none => rfl
      | some r => rfl

/-- An operand has the number that its token stands for. -/
theorem map_operand (m : Machine) {t : Token} (h : t.WellSpelled)
    (single : t.kind.isOperand = true) : asNumber (operand m t) = operandNumber m t := by
  match hk : t.kind with
  | .decimal =>
      simp only [Token.WellSpelled, hk] at h
      simp only [operand, operandNumber, hk]
      exact map_literal t.text h.1 fun c hc => digitBelow?_decimalDigit (h.2 c hc)
  | .hex =>
      simp only [Token.WellSpelled, hk] at h
      obtain ⟨digits, hd, nonempty, hall⟩ := h
      have behind : dropBytes 2 ('0' :: 'x' :: digits) = digits := by
        simp [dropBytes, Char.utf8Size]
      simp only [operand, operandNumber, hk, hd, behind]
      exact map_literal t.text nonempty fun c hc => digitBelow?_hexDigit (hall c hc)
  | .register =>
      simp only [Token.WellSpelled, hk] at h
      obtain ⟨name, hn, -, -⟩ := h
      simp only [operand, operandNumber, hk, hn]
      exact map_registerValue m hn
  | .blank | .add | .sub | .mul | .div | .deref | .and | .or | .not | .eq | .neq | .leftParen
  | .rightParen =>
      rw [hk] at single
      cases single

/-! ## Memory and operators -/

theorem toNat_wordOfBytes_singleton (b : Byte) : (wordOfBytes [b]).toNat = b.toNat := by
  have := b.isLt
  rw [toNat_wordOfBytes, List.map_singleton, Nat.ofDigits_singleton]
  omega

theorem map_dereference (m : Machine) (addr : Word) :
    asNumber (dereference m addr) = byteNumber m addr.toNat := by
  have physical : Physical.contains addr = true ↔
      0x80000000 ≤ addr.toNat ∧ addr.toNat ≤ 0x87ffffff := by
    simp [Physical.contains, Physical.base, Physical.last, BitVec.le_def]
  have covers : m.memory.Covers addr 1 ↔ m.memory.base.toNat ≤ addr.toNat ∧
      addr.toNat < m.memory.base.toNat + m.memory.size := m.memory.covers_iff addr 1
  have again : BitVec.ofNat 32 addr.toNat = addr := by simp
  simp only [dereference, byteNumber, again, ← and_assoc, ← physical]
  simp only [and_assoc, ← covers, Memory.read, Memory.readFor_eq]
  by_cases hp : Physical.contains addr = true
  · by_cases hc : m.memory.Covers addr 1
    · simp only [hp, hc, if_true, and_self]
      exact congrArg Except.ok (toNat_wordOfBytes_singleton _)
    · simp only [hp, hc, if_true, if_false, and_false]
      rfl
  · simp only [hp, if_false, false_and, Bool.false_eq_true]
    rfl

theorem asNumber_wordOfBool {c : Bool} {P : Prop} [Decidable P] (h : c = true ↔ P) :
    asNumber (.ok (wordOfBool c)) = .ok (if P then 1 else 0) := by
  by_cases hP : P
  · rw [if_pos hP, h.mpr hP]; rfl
  · rw [if_neg hP, Bool.eq_false_iff.mpr (mt h.mp hP)]; rfl

theorem map_apply (op : BinaryOp) (a b : Word) :
    asNumber (op.apply a b) = op.number a.toNat b.toNat := by
  cases op with
  | add => exact congrArg Except.ok (BitVec.toNat_add a b)
  | sub =>
      have hb := b.isLt
      refine congrArg Except.ok ((BitVec.toNat_sub a b).trans ?_)
      congr 1; omega
  | mul => exact congrArg Except.ok (BitVec.toNat_mul a b)
  | div =>
      have zero : b = 0 ↔ b.toNat = 0 := by simp [BitVec.toNat_eq]
      simp only [BinaryOp.apply, BinaryOp.number, zero]
      split
      · rfl
      · exact congrArg Except.ok BitVec.toNat_udiv
  | and => exact asNumber_wordOfBool (by simp [BitVec.toNat_eq])
  | or => exact asNumber_wordOfBool (by simp [BitVec.toNat_eq])
  | eq => exact asNumber_wordOfBool (by simp [BitVec.toNat_eq])
  | neq => exact asNumber_wordOfBool (by simp [BitVec.toNat_eq])

end Evaluation

end HartMonitor
