/-
# `HartMonitor.Proofs.Machine.Widening` — the low bits of a word in two's complement

The low `bits` bits of a word are one number of the signed range, in three ways:

    by residue      the number in `[-2 ^ (bits - 1), 2 ^ (bits - 1))` that is congruent to the word
    by bits         the bits themselves, and copies of the topmost of them above
    by shifts       up to the sign of the word, and back down with copies of it coming in

`signExtendFrom` goes by bits, and no way differs from another (`toInt_signExtendFrom_eq_iff`,
`signExtendFrom_eq_shifted`).  A load can do its own shifts, too, where it does not read a whole word
(`Memory.loadShifted`).
-/
import HartMonitor.Proofs.Rv32i.View
import Mathlib.Data.Int.ModEq

namespace HartMonitor

/-- The low `bits` bits of a word shifted up to its sign and back down, copies of the sign coming
in. -/
def shiftedFrom (bits : Nat) (w : Word) : Word :=
  (w <<< (32 - bits)).sshiftRight (32 - bits)

section SignExtension
variable {bits : Nat} {v w : Word}

/-! ## By residue -/

theorem toInt_signExtendFrom (narrow : bits ≤ 32) (w : Word) :
    (signExtendFrom bits w).toInt = (w.toNat : Int).bmod (2 ^ bits) := by
  rw [signExtendFrom, BitVec.toInt_signExtend_of_le narrow, BitVec.toInt_setWidth]

/-- The signed range has one number in every class of residues. -/
theorem toInt_signExtendFrom_eq_iff (pos : 0 < bits) (narrow : bits ≤ 32) {z : Int} :
    (signExtendFrom bits w).toInt = z ↔
      (-2 ^ (bits - 1) ≤ z ∧ z < 2 ^ (bits - 1)) ∧ z ≡ w.toNat [ZMOD 2 ^ bits] := by
  obtain ⟨k, rfl⟩ := Nat.exists_eq_succ_of_ne_zero pos.ne'
  have double : ((2 ^ (k + 1) : Nat) : Int) = 2 * 2 ^ k := by push_cast; ring
  rw [toInt_signExtendFrom narrow, Int.bmod_eq_iff (Nat.two_pow_pos _), Int.modEq_comm,
    Int.modEq_iff_dvd, and_assoc, Nat.succ_sub_one, double]
  have half : (2 * 2 ^ k : Int) / 2 = 2 ^ k := by omega
  have up : (2 * 2 ^ k + 1 : Int) / 2 = 2 ^ k := by omega
  rw [half, up, pow_succ']

/-! ## By bits -/

theorem getLsbD_signExtendFrom (pos : 0 < bits) (w : Word) (i : Nat) :
    (signExtendFrom bits w).getLsbD i =
      (decide (i < 32) && w.getLsbD (if i < bits then i else bits - 1)) := by
  rw [signExtendFrom, BitVec.getLsbD_signExtend, BitVec.msb_setWidth, decide_eq_true pos,
    Bool.true_and]
  by_cases low : i < bits
  · simp only [low, if_true, BitVec.getLsbD_setWidth, decide_true, Bool.true_and]
  · simp only [low, if_false]

theorem signExtendFrom_congr (pos : 0 < bits) (same : ∀ i < bits, v.getLsbD i = w.getLsbD i) :
    signExtendFrom bits v = signExtendFrom bits w := by
  refine BitVec.eq_of_getLsbD_eq fun i _ => ?_
  rw [getLsbD_signExtendFrom pos, getLsbD_signExtendFrom pos]
  refine congrArg _ (same _ ?_)
  split <;> omega

theorem signExtendFrom_idem (pos : 0 < bits) (narrow : bits ≤ 32) (w : Word) :
    signExtendFrom bits (signExtendFrom bits w) = signExtendFrom bits w := by
  refine signExtendFrom_congr pos fun i low => ?_
  rw [getLsbD_signExtendFrom pos, decide_eq_true (by omega : i < 32), Bool.true_and, if_pos low]

/-! ## By shifts -/

theorem signExtendFrom_eq_shifted (pos : 0 < bits) (narrow : bits ≤ 32) (w : Word) :
    signExtendFrom bits w = shiftedFrom bits w := by
  refine BitVec.eq_of_getLsbD_eq fun i hi => ?_
  -- the sign, once shifted up, is the topmost bit of the width
  have top : (w <<< (32 - bits)).msb = w.getLsbD (bits - 1) := by
    rw [BitVec.msb_eq_getLsbD_last, BitVec.getLsbD_shiftLeft]
    have place : 32 - 1 - (32 - bits) = bits - 1 := by omega
    have above : ¬ 32 - 1 < 32 - bits := by omega
    simp only [place, above, decide_false, Bool.not_false]
    rfl
  rw [getLsbD_signExtendFrom pos, shiftedFrom, BitVec.getLsbD_sshiftRight, top]
  by_cases low : i < bits
  · have inside : 32 - bits + i < 32 := by omega
    simp [hi, low, inside]
  · have outside : ¬ 32 - bits + i < 32 := by omega
    simp [hi, low, outside]

end SignExtension

/-! ## Loads -/

namespace Memory

variable {m : Memory} {addr raw : Word} {width : Width}

/-- The word that a load puts into its destination, where a load shifts by itself. -/
def loadShifted (m : Memory) (addr : Word) (width : Width) (signed : Bool) : Except Trap Word :=
  (m.read addr width.bytes).map fun raw : Word =>
    if signed && width != .word then (raw <<< (32 - width.bits)).sshiftRight (32 - width.bits)
    else raw

theorem toNat_lt_of_read (h : m.read addr width.bytes = .ok raw) :
    raw.toNat < 2 ^ width.bits := by
  rw [read, readFor_eq] at h
  split at h
  · cases h
    have bound := ofDigits_lt (m.store.slice (addr.toNat - m.base.toNat) width.bytes)
    rw [Store.length_slice] at bound
    rw [toNat_wordOfBytes, Width.bits, Nat.pow_mul]
    exact Nat.lt_of_le_of_lt (Nat.mod_le _ _) bound
  · cases h

theorem signExtendFrom_word (w : Word) : signExtendFrom Width.word.bits w = w := by
  rw [signExtendFrom_eq_shifted (by decide) (by decide), shiftedFrom]
  exact (BitVec.sshiftRight_zero).trans (BitVec.shiftLeft_zero w)

theorem loadWord_eq_loadShifted (m : Memory) (addr : Word) (width : Width) (signed : Bool) :
    m.loadWord addr width signed = m.loadShifted addr width signed := by
  have widened : ∀ raw : Word, signExtendFrom width.bits raw = shiftedFrom width.bits raw :=
    signExtendFrom_eq_shifted (Nat.mul_pos (by decide) width.bytes_pos)
      (Nat.mul_le_mul_left 8 width.bytes_le_four)
  rw [loadWord, loadShifted]
  refine congrArg (Except.map · _) (funext fun raw => ?_)
  cases signed with
  | false => rfl
  | true =>
      cases width with
      | byte | half => exact widened raw
      | word => exact signExtendFrom_word raw

end Memory

/-- The low bits of a word are extended to the one number that they are in two's complement: the one
of the signed range that is congruent to the word, modulo two to the width.  Extended once more it
stays the same, and no bit above the width counts.

A signed load of one or two bytes extends what it reads so, by shifts of its own; an unsigned one
leaves it as it was read, below two to the width. -/
theorem sign_extension_representative :
    (∀ (bits : Nat) (w : Word), 1 ≤ bits → bits ≤ 32 →
      (∀ z : Int, (signExtendFrom bits w).toInt = z ↔
        (-2 ^ (bits - 1) ≤ z ∧ z < 2 ^ (bits - 1)) ∧ z ≡ w.toNat [ZMOD 2 ^ bits]) ∧
      signExtendFrom bits (signExtendFrom bits w) = signExtendFrom bits w ∧
      (∀ v : Word, (∀ i < bits, v.getLsbD i = w.getLsbD i) →
        signExtendFrom bits v = signExtendFrom bits w) ∧
      signExtendFrom bits w = shiftedFrom bits w) ∧
    (∀ (m : Memory) (addr : Word) (width : Width) (signed : Bool),
      m.loadWord addr width signed = m.loadShifted addr width signed) ∧
    ∀ (m : Memory) (addr raw : Word) (width : Width) (bits : Nat),
      (width, bits) = (.byte, 8) ∨ (width, bits) = (.half, 16) →
      m.read addr width.bytes = .ok raw →
        m.loadShifted addr width true = .ok (signExtendFrom bits raw) ∧
        m.loadShifted addr width false = .ok raw ∧ raw.toNat < 2 ^ bits := by
  refine ⟨fun bits w pos narrow => ⟨fun z => toInt_signExtendFrom_eq_iff pos narrow,
    signExtendFrom_idem pos narrow w, fun v => signExtendFrom_congr pos,
    signExtendFrom_eq_shifted pos narrow w⟩, Memory.loadWord_eq_loadShifted, ?_⟩
  intro m addr raw width bits widths found
  have whole : bits = width.bits := by
    obtain h | h := widths <;> cases h <;> rfl
  have loads : ∀ signed, m.loadWord addr width signed =
      .ok (if signed then signExtendFrom width.bits raw else raw) := fun signed => by
    rw [Memory.loadWord, found]
    rfl
  rw [← m.loadWord_eq_loadShifted, ← m.loadWord_eq_loadShifted, loads, loads, whole]
  exact ⟨rfl, rfl, Memory.toNat_lt_of_read found⟩

/-- The twelve bits `0x800` are the least number of twelve bits.  Of a word with other bits above
them no other number comes out, and a signed load of the byte `0x80` gives `-128`. -/
theorem sign_extension_representative_least :
    let m : Memory := ⟨0x80000000, (Store.zeros 4).put 0 [0x80, 0xff], by decide⟩
    (signExtendFrom 12 0x00000800).toInt = -2048 ∧
      signExtendFrom 12 0xabcd1800 = signExtendFrom 12 0x00000800 ∧
      m.read 0x80000000 1 = .ok 0x80 ∧ m.loadWord 0x80000000 .byte true = .ok 0xffffff80 ∧
      m.loadWord 0x80000000 .byte false = .ok 0x80 := by
  intro m
  obtain ⟨words, shifts, loads⟩ := sign_extension_representative
  obtain ⟨number, -, upper, -⟩ := words 12 0x00000800 (by decide) (by decide)
  have found : m.read 0x80000000 1 = .ok 0x80 := by decide +kernel
  obtain ⟨signed, unsigned, -⟩ := loads m 0x80000000 0x80 .byte 8 (.inl rfl) found
  refine ⟨(number _).mpr ⟨by decide, by decide⟩, upper _ (by decide), found, ?_, ?_⟩
  · rw [shifts, signed]
    decide +kernel
  · rw [shifts, unsigned]

end HartMonitor
