/-
# `HartMonitor.Proofs.Rv32i.View` — a machine as a hart of numbers

The registers of a machine are seen by their numbers, its memory as the bytes that lie
in the window (`Machine.toHart`).  What the machine does to its parts shows as what the
hart does to its own:

    retire_toHart        a register written, and `pc` moved
    readFor_toHart       a fetch or a read
    storeWord_toHart     a write
-/
import HartMonitor.Proofs.Machine.Precise
import HartMonitor.Proofs.Memory.Window
import HartMonitor.Proofs.Rv32i.Field

namespace HartMonitor

open Rv32i (Hart index)

/-- The byte at an address, if the address lies in the window. -/
def Memory.number? (m : Memory) (a : Nat) : Option Nat :=
  if m.base.toNat ≤ a ∧ a < m.base.toNat + m.size then
    some (m.store.byteAt (a - m.base.toNat)).toNat
  else none

def Machine.toHart (m : Machine) : Hart where
  pc := m.pc.toNat
  reg r := (m.regs.read (BitVec.ofFin r)).toNat
  memory := m.memory.number?

/-! ## Registers -/

namespace Machine

variable {m : Machine}

theorem reg_toHart (r : RegisterNumber) : m.toHart.reg (index r) = (m.regs.read r).toNat := rfl

/-- A register written, register zero put back, and `pc` moved. -/
theorem retire_toHart (zero : m.regs.read 0 = 0) (rd : RegisterNumber) (w dnpc : Word) :
    (m.retire rd w dnpc).resetZero.toHart = (m.toHart.set (index rd) w.toNat).jump dnpc.toNat := by
  refine Hart.ext rfl (funext fun r => ?_) rfl
  show (((m.regs.write rd w).write 0 0).read (BitVec.ofFin r)).toNat = _
  simp only [Hart.jump, Hart.set]
  by_cases hz : r = 0
  · subst hz
    rw [if_neg (fun h => h.2 rfl)]
    have left : ((m.regs.write rd w).write 0 0).read 0 = 0 := Registers.read_write_self _ 0 0
    exact congrArg BitVec.toNat (left.trans zero.symm)
  · have other : (0 : RegisterNumber) ≠ BitVec.ofFin r := fun h => hz (congrArg BitVec.toFin h).symm
    rw [Registers.read_write_of_ne _ _ other]
    by_cases hr : r = index rd
    · rw [if_pos ⟨hr, hz⟩, hr]
      exact congrArg BitVec.toNat (Registers.read_write_self m.regs rd w)
    · rw [if_neg (fun h => hr h.1), Registers.read_write_of_ne]
      · rfl
      · exact fun h => hr (congrArg BitVec.toFin h).symm

theorem move_toHart (zero : m.regs.read 0 = 0) (dnpc : Word) :
    ({ m with pc := dnpc } : Machine).resetZero.toHart = m.toHart.jump dnpc.toNat := by
  have same : ({ m with pc := dnpc } : Machine).resetZero = { m with pc := dnpc } :=
    resetZero_of_zero zero
  rw [same]
  rfl

end Machine

/-! ## Memory -/

theorem Width.bytes_pos (width : Width) : 0 < width.bytes := by
  cases width with
  | byte | half | word => exact Nat.succ_pos _

theorem Width.bytes_le_four (width : Width) : width.bytes ≤ 4 := by
  cases width with
  | byte => exact Nat.le_add_left 1 3
  | half => exact Nat.le_add_left 2 2
  | word => exact Nat.le_refl 4

theorem Store.slice_succ (s : Store) (offset len : Nat) :
    s.slice offset (len + 1) = s.byteAt offset :: s.slice (offset + 1) len := by
  simp only [slice, List.range_succ_eq_map, List.map_cons, List.map_map, Nat.add_zero]
  refine congrArg _ (List.map_congr_left fun i _ => ?_)
  exact congrArg s.byteAt (by simp only [Nat.succ_eq_add_one]; omega)

/-- Bytes inside the window spell their little-endian value. -/
theorem Memory.number?_inside {m : Memory} {h : Hart} (view : h.memory = m.number?) {len : Nat} :
    ∀ {a : Nat}, m.base.toNat ≤ a → a + len ≤ m.base.toNat + m.size →
      h.number? a len =
        some (Nat.ofDigits 256 ((m.store.slice (a - m.base.toNat) len).map BitVec.toNat)) := by
  induction len with
  | zero => intro a _ _; rfl
  | succ len ih =>
      intro a low high
      have here : h.memory a = some (m.store.byteAt (a - m.base.toNat)).toNat := by
        rw [view, Memory.number?, if_pos ⟨low, by omega⟩]
      have next : a + 1 - m.base.toNat = a - m.base.toNat + 1 := by omega
      rw [Hart.number?, here, ih (by omega) (by omega), Store.slice_succ, List.map_cons,
        Nat.ofDigits_cons, next]
      rfl

theorem Memory.number?_outside {m : Memory} {h : Hart} (view : h.memory = m.number?) {len : Nat} :
    ∀ {a : Nat}, 0 < len → ¬ (m.base.toNat ≤ a ∧ a + len ≤ m.base.toNat + m.size) →
      h.number? a len = none := by
  induction len with
  | zero => intro a pos _; cases pos
  | succ len ih =>
      intro a _ out
      rw [Hart.number?]
      by_cases here : m.base.toNat ≤ a ∧ a < m.base.toNat + m.size
      · have rest : h.number? (a + 1) len = none := by
          refine ih ?_ ?_
          · exact Nat.pos_of_ne_zero fun hl => out ⟨here.1, by omega⟩
          · exact fun inside => out ⟨here.1, by omega⟩
        rw [rest]
        cases h.memory a <;> rfl
      · have gone : h.memory a = none := by rw [view, Memory.number?, if_neg here]
        rw [gone]
        rfl

theorem toNat_extract_byte (w : Word) (i : Nat) :
    (w.extractLsb' (8 * i) 8).toNat = w.toNat / 256 ^ i % 256 := by
  have byte : 2 ^ 8 = 256 := rfl
  rw [Rv32i.toNat_extract, Rv32i.field, Nat.pow_mul, byte]

/-- The memory with some bytes put in, byte by byte. -/
theorem Memory.number?_of_put {mem after : Memory} {addr : Word} {data : List Byte}
    (covers : mem.Covers addr data.length) (base : after.base = mem.base)
    (store : after.store = mem.store.put (addr.toNat - mem.base.toNat) data) (a : Nat) :
    after.number? a =
      if addr.toNat ≤ a ∧ a < addr.toNat + data.length then
        (data[a - addr.toNat]?).map BitVec.toNat
      else mem.number? a := by
  obtain ⟨low, high⟩ := (mem.covers_iff addr data.length).mp covers
  have size : after.size = mem.size := by rw [Memory.size, store, Store.size_put]; rfl
  have place : a - mem.base.toNat - (addr.toNat - mem.base.toNat) = a - addr.toNat := by omega
  simp only [Memory.number?, base, size, store, Store.byteAt_put, place]
  by_cases inside : addr.toNat ≤ a ∧ a < addr.toNat + data.length
  · have window : mem.base.toNat ≤ a ∧ a < mem.base.toNat + mem.size := by omega
    have behind : addr.toNat - mem.base.toNat ≤ a - mem.base.toNat := by omega
    have within : a - addr.toNat < data.length := by omega
    rw [if_pos window, if_pos inside, if_pos behind, List.getElem?_eq_getElem within]
    rfl
  · rw [if_neg inside]
    by_cases window : mem.base.toNat ≤ a ∧ a < mem.base.toNat + mem.size
    · rw [if_pos window, if_pos window]
      by_cases behind : addr.toNat - mem.base.toNat ≤ a - mem.base.toNat
      · have beyond : data.length ≤ a - addr.toNat := by omega
        rw [if_pos behind, List.getElem?_eq_none beyond, Option.getD_none]
      · rw [if_neg behind]
    · rw [if_neg window, if_neg window]

theorem ofDigits_lt (bytes : List Byte) :
    Nat.ofDigits 256 (bytes.map BitVec.toNat) < 256 ^ bytes.length := by
  induction bytes with
  | nil => simp
  | cons b rest ih =>
      have := b.isLt
      rw [List.map_cons, Nat.ofDigits_cons, List.length_cons, Nat.pow_succ]
      omega

namespace Machine

variable {m : Machine}

/-- A fetch or a read of up to four bytes. -/
theorem readFor_toHart (kind : Access) (addr : Word) {len : Nat} (pos : 0 < len)
    (small : len ≤ 4) :
    match m.toHart.number? addr.toNat len with
    | some x => x < 256 ^ len ∧ ∃ w, m.memory.readFor kind addr len = .ok w ∧ w.toNat = x
    | none => m.memory.readFor kind addr len = .error (kind.fault addr len) := by
  have view : m.toHart.memory = m.memory.number? := rfl
  rw [Memory.readFor_eq]
  by_cases covers : m.memory.Covers addr len
  · obtain ⟨low, high⟩ := (m.memory.covers_iff addr len).mp covers
    have bound := ofDigits_lt (m.memory.store.slice (addr.toNat - m.memory.base.toNat) len)
    rw [Store.length_slice] at bound
    have fits : 256 ^ len ≤ 256 ^ 4 := Nat.pow_le_pow_right (by decide) small
    rw [Memory.number?_inside view low high, if_pos covers]
    refine ⟨bound, _, rfl, ?_⟩
    rw [toNat_wordOfBytes]
    exact Nat.mod_eq_of_lt (Nat.lt_of_lt_of_le bound fits)
  · rw [Memory.number?_outside view pos (mt (m.memory.covers_iff addr len).mpr covers),
      if_neg covers]

/-- The memory after a write, byte by byte. -/
theorem number?_put {mem after : Memory} {addr w : Word} {len : Nat} (covers : mem.Covers addr len)
    (base : after.base = mem.base)
    (store : after.store = mem.store.put (addr.toNat - mem.base.toNat) (bytesOfWord w len))
    (a : Nat) :
    after.number? a =
      if addr.toNat ≤ a ∧ a < addr.toNat + len then
        some (w.toNat / 256 ^ (a - addr.toNat) % 256)
      else mem.number? a := by
  have count := length_bytesOfWord w len
  have whole : mem.Covers addr (bytesOfWord w len).length := by rwa [count]
  rw [Memory.number?_of_put whole base store, count, getElem?_bytesOfWord]
  by_cases inside : addr.toNat ≤ a ∧ a < addr.toNat + len
  · have within : a - addr.toNat < len := by omega
    rw [if_pos inside, if_pos inside, if_pos within, Option.map_some, toNat_extract_byte]
  · rw [if_neg inside, if_neg inside]

/-- A write of a word's low bytes. -/
theorem storeWord_toHart (addr : Word) (width : Width) (w : Word) :
    match m.toHart.store? addr.toNat width.bytes w.toNat with
    | some h => ∃ memory, m.memory.storeWord addr width w = .ok memory ∧
        ({ m with memory := memory } : Machine).toHart = h
    | none => m.memory.storeWord addr width w = .error (.storeFault addr width.bytes) := by
  have view : m.toHart.memory = m.memory.number? := rfl
  rw [Hart.store?, Memory.storeWord]
  by_cases covers : m.memory.Covers addr width.bytes
  · obtain ⟨low, high⟩ := (m.memory.covers_iff addr width.bytes).mp covers
    obtain ⟨memory, written, base, store⟩ := Memory.write_of_covers w covers
    rw [Memory.number?_inside view low high]
    refine ⟨memory, written, Hart.ext rfl rfl (funext fun a => ?_)⟩
    exact number?_put covers base store a
  · rw [Memory.number?_outside view width.bytes_pos (mt (m.memory.covers_iff addr _).mpr covers)]
    exact Memory.write_of_not_covers w covers

end Machine

end HartMonitor
