/-
# `HartMonitor.Proofs.Memory.Contains` — the window that is shown, and the accesses

The window is shown as its first and its last address, both in it.  No such pair says
that there is no address at all: a memory without bytes shows its base twice, although
every access to it faults.  So the test of a range against the window

    contains addr len    0 < len,  first ≤ addr,  addr - first + len ≤ last - first + 1

agrees with the accesses wherever there is a byte, and without one it differs from them
for the single byte at the base.
-/
import HartMonitor.Proofs.Memory.ByteArray

namespace HartMonitor.Memory

variable {m : Memory} {addr : Word} {len : Nat}

theorem toNat_window_last (m : Memory) :
    m.window.2.toNat = m.base.toNat + (max m.size 1 - 1) := by
  have fits : m.base.toNat + m.size ≤ 2 ^ 32 := m.fits
  have below := m.base.isLt
  exact toNat_add_ofNat (by omega)

/-- The test of a range, as if a memory without bytes had one. -/
theorem contains_iff (m : Memory) (addr : Word) (len : Nat) :
    m.contains addr len = true ↔
      0 < len ∧ m.base.toNat ≤ addr.toNat ∧ addr.toNat + len ≤ m.base.toNat + max m.size 1 := by
  have last := m.toNat_window_last
  have first : m.window.1 = m.base := rfl
  simp only [contains, Bool.and_eq_true, bne_iff_ne, decide_eq_true_eq, first, last, BitVec.le_def]
  omega

theorem contains_iff_covers (filled : 0 < m.size) (pos : 0 < len) :
    m.contains addr len = true ↔ m.Covers addr len := by
  rw [contains_iff, covers_iff]
  omega

theorem mem_window_iff_covers (filled : 0 < m.size) :
    (m.window.1 ≤ addr ∧ addr ≤ m.window.2) ↔ m.Covers addr 1 := by
  have first : m.window.1 = m.base := rfl
  rw [covers_iff, BitVec.le_def, BitVec.le_def, m.toNat_window_last, first]
  omega

theorem History.size_pos {base : Word} {size : Nat} (h : History base size m) (filled : 0 < size) :
    0 < m.size := by
  have below := base.isLt
  rw [h.shape.2]
  omega

theorem History.size_zero {base : Word} (h : History base 0 m) : m.size = 0 := by
  rw [h.shape.2, Nat.zero_min]

theorem History.not_covers_of_empty {base : Word} (h : History base 0 m) (pos : 0 < len) :
    ¬ m.Covers addr len := by
  rw [Memory.covers_iff, h.size_zero]
  omega

theorem History.window_of_empty {base : Word} (h : History base 0 m) :
    m.window = (base, base) := by
  rw [window, h.size_zero, h.shape.1]
  simp

theorem History.contains_of_empty {base : Word} (h : History base 0 m) :
    m.contains addr len = true ↔ addr = base ∧ len = 1 := by
  rw [contains_iff, h.size_zero, h.shape.1, ← BitVec.toNat_inj]
  omega

/-- The test of a range agrees with the accesses, and the window shows the addresses that can be
read, whatever was written and loaded.  Without bytes there is no such address: the window shows the
base, the test holds of the byte there, and all accesses fault. -/
theorem contains_agrees_with_accesses {base : Word} {size : Nat} (h : History base size m) :
    (∀ (addr : Word) (width : Width),
      ((∃ w, m.fetch addr width.bytes = .ok w) ↔ ∃ w, m.read addr width.bytes = .ok w) ∧
      (∀ v, (∃ n, m.write addr width.bytes v = .ok n) ↔ ∃ w, m.read addr width.bytes = .ok w) ∧
      (¬ (size = 0 ∧ addr = base ∧ width = .byte) →
        (m.contains addr width.bytes = true ↔ ∃ w, m.read addr width.bytes = .ok w))) ∧
    (0 < size → ∀ addr : Word,
      (m.window.1 ≤ addr ∧ addr ≤ m.window.2) ↔ ∃ w, m.read addr 1 = .ok w) ∧
    (size = 0 → m.window = (base, base) ∧ m.contains base 1 = true ∧
      ∀ (addr : Word) (width : Width), ¬ ∃ w, m.read addr width.bytes = .ok w) := by
  have reads : ∀ {addr : Word} {len : Nat}, (∃ w, m.read addr len = .ok w) ↔ m.Covers addr len :=
    readFor_succeeds_iff .read
  refine ⟨fun addr width => ⟨?fetched, ?wrote, ?tested⟩, ?shown, ?empty⟩
  case fetched => exact (readFor_succeeds_iff .fetch).trans reads.symm
  case wrote => exact fun v => write_succeeds_iff.trans reads.symm
  case tested =>
    intro other
    rcases Nat.eq_zero_or_pos size with rfl | filled
    · have faults : ¬ m.Covers addr width.bytes := h.not_covers_of_empty width.bytes_pos
      have failed : ¬ (addr = base ∧ width.bytes = 1) := by
        rintro ⟨here, one⟩
        cases width with
        | byte => exact other ⟨rfl, here, rfl⟩
        | half | word => cases one
      rw [reads, h.contains_of_empty]
      exact iff_of_false failed faults
    · rw [reads, contains_iff_covers (h.size_pos filled) width.bytes_pos]
  case shown =>
    intro filled addr
    rw [reads, mem_window_iff_covers (h.size_pos filled)]
  case empty =>
    rintro rfl
    refine ⟨h.window_of_empty, h.contains_of_empty.mpr ⟨rfl, rfl⟩, fun addr width => ?_⟩
    rw [reads]
    exact h.not_covers_of_empty width.bytes_pos

/-- Four bytes, of which the last was written: it is in the window, and a halfword there is not. -/
theorem contains_agrees_with_accesses_four :
    ∃ m : Memory, History 0x80000000 4 m ∧
      ((m.window.1 ≤ 0x80000003 ∧ (0x80000003 : Word) ≤ m.window.2) ↔
        ∃ w, m.read 0x80000003 1 = .ok w) ∧
      (m.contains 0x80000003 2 = true ↔ ∃ w, m.read 0x80000003 2 = .ok w) := by
  have start : History 0x80000000 4 (.create 0x80000000 4) := .create
  have covers : (Memory.create 0x80000000 4).Covers 0x80000003 Width.byte.bytes := by decide
  obtain ⟨m, wrote⟩ := (@write_succeeds_iff _ _ 7 _).mpr covers
  have after : History 0x80000000 4 m := start.write wrote
  have agrees := contains_agrees_with_accesses after
  exact ⟨m, after, agrees.2.1 (Nat.succ_pos 3) _, (agrees.1 0x80000003 .half).2.2 nofun⟩

/-- Without bytes the test holds of the byte at the base, which no access reaches, and the window
shows an address that cannot be read. -/
theorem contains_base_of_empty :
    ¬ ((Memory.create 0x80000000 0).contains 0x80000000 1 = true ↔
      ∃ w, (Memory.create 0x80000000 0).read 0x80000000 1 = .ok w) ∧
    ¬ ∀ addr : Word,
      ((Memory.create 0x80000000 0).window.1 ≤ addr ∧
        addr ≤ (Memory.create 0x80000000 0).window.2) ↔
      ∃ w, (Memory.create 0x80000000 0).read addr 1 = .ok w := by
  have fault : ¬ ∃ w, (Memory.create 0x80000000 0).read 0x80000000 1 = .ok w := nofun
  refine ⟨fun agree => fault (agree.mp rfl), fun shown => fault ((shown 0x80000000).mp ?_)⟩
  exact ⟨BitVec.le_refl _, BitVec.le_refl _⟩

end HartMonitor.Memory
