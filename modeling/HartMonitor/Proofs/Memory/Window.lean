/-
# `HartMonitor.Proofs.Memory.Window` — when an access succeeds, and what it sees

`Memory.Covers` decides every access: inside the window it succeeds, outside it raises
the fault of its kind.  A read gives the word that the bytes of the store spell; its
number is their little-endian value.

    readFor_eq              one equation for fetches and reads
    write_of_covers         the memory after a write, by base and store
    toNat_wordOfBytes       the number of a word, from its bytes
-/
import HartMonitor.Memory
import Mathlib.Data.Nat.Digits.Defs

namespace HartMonitor

/-! ## Words as numbers -/

theorem wordOfBytes_cons (b : Byte) (rest : List Byte) :
    wordOfBytes (b :: rest) = wordOfBytes rest * 256 + b.setWidth 32 := by
  have disjoint : wordOfBytes rest <<< 8 &&& b.setWidth 32 = 0#32 := by
    apply BitVec.eq_of_getLsbD_eq
    intro i hi
    by_cases low : i < 8
    · simp [low]
    · simp [BitVec.getLsbD_of_ge b i (by omega)]
  rw [wordOfBytes, ← BitVec.add_eq_or_of_and_eq_zero _ _ disjoint,
    BitVec.shiftLeft_eq_mul_twoPow]
  rfl

/-- The number of a word is the little-endian value of its bytes. -/
theorem toNat_wordOfBytes (bytes : List Byte) :
    (wordOfBytes bytes).toNat = Nat.ofDigits 256 (bytes.map BitVec.toNat) % 2 ^ 32 := by
  induction bytes with
  | nil => rfl
  | cons b rest ih =>
      rw [wordOfBytes_cons, List.map_cons, Nat.ofDigits_cons, BitVec.toNat_add, BitVec.toNat_mul,
        ih, BitVec.toNat_setWidth]
      have hb : b.toNat < 2 ^ 8 := b.isLt
      rw [show (256 : Word).toNat = 256 from rfl]
      omega

namespace Memory

theorem covers_iff (m : Memory) (addr : Word) (len : Nat) :
    m.Covers addr len ↔
      m.base.toNat ≤ addr.toNat ∧ addr.toNat + len ≤ m.base.toNat + m.size := by
  simp only [Covers, Store.Holds, BitVec.le_def, size]
  omega

/-- The outcome of a fetch or a read. -/
theorem readFor_eq (m : Memory) (kind : Access) (addr : Word) (len : Nat) :
    m.readFor kind addr len =
      if m.Covers addr len then
        .ok (wordOfBytes (m.store.slice (addr.toNat - m.base.toNat) len))
      else .error (kind.fault addr len) := by
  by_cases below : m.base ≤ addr
  · by_cases holds : m.store.Holds (addr.toNat - m.base.toNat) len
    · simp [readFor, offset?, Covers, Store.readWord?, Store.read?, below, holds, orFault]
    · simp [readFor, offset?, Covers, Store.readWord?, Store.read?, below, holds, orFault]
  · simp [readFor, offset?, Covers, below, orFault]

/-- A write inside the window puts the bytes of the word into the store. -/
theorem write_of_covers {m : Memory} {addr : Word} {len : Nat} (w : Word)
    (h : m.Covers addr len) :
    ∃ n, m.write addr len w = .ok n ∧ n.base = m.base ∧
      n.store = m.store.put (addr.toNat - m.base.toNat) (bytesOfWord w len) := by
  have fits : m.Covers addr (bytesOfWord w len).length := by rwa [length_bytesOfWord]
  cases found : m.replace? addr (bytesOfWord w len) with
  | none =>
      have outside := (replace?_eq_some m ⟨m.base, m.store.put _ _, by simpa using m.fits⟩ addr
        (bytesOfWord w len)).mpr ⟨fits, rfl, rfl⟩
      rw [found] at outside
      cases outside
  | some n =>
      refine ⟨n, ?_, ((replace?_eq_some m n addr _).mp found).2⟩
      rw [write, replaceWord?_eq_replace?, found]
      rfl

theorem write_of_not_covers {m : Memory} {addr : Word} {len : Nat} (w : Word)
    (h : ¬ m.Covers addr len) : m.write addr len w = .error (.storeFault addr len) := by
  rw [write, replaceWord?, if_neg h]
  rfl

end Memory

end HartMonitor
