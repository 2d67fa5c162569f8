/-
# `HartMonitor.Proofs.Simulator.Examine` — memory as it is shown and as it is dereferenced

A range of memory is tested as a whole, against the physical addresses and against the window
of memory; an expression dereferences one address, which is tested by itself.  The two agree
byte by byte (`bytesIn_succeeds_iff`, `dereference_of_bytesIn`).  A range that leaves the physical
addresses, or wraps around the end of the address space, passes an address that is not physical:

    addr                            last physical | first that is not
    |<------------------ len ------------------------------------------>|

A range without bytes has no address that could be dereferenced.  It is shown where its address
is physical, and in the window or right behind it.

The window is the one that memory was configured with, whatever a simulator was asked for since
(`history_of_reachable`).
-/
import HartMonitor.Proofs.Memory.ByteArray
import HartMonitor.Proofs.Simulator.Invariant

namespace HartMonitor

open Evaluation (dereference)

variable {s : Simulator} {addr len : Word}

/-! ## The physical addresses -/

namespace Physical

theorem contains_iff (addr : Word) :
    contains addr = true ↔ base.toNat ≤ addr.toNat ∧ addr.toNat ≤ last.toNat := by
  simp only [contains, Bool.and_eq_true, decide_eq_true_eq, BitVec.le_def]

theorem containsRange_iff {n : Nat} (pos : 0 < n) :
    containsRange addr n = true ↔
      base.toNat ≤ addr.toNat ∧ addr.toNat + n ≤ last.toNat + 1 := by
  simp only [containsRange, Bool.and_eq_true, Bool.or_eq_true, contains_iff, beq_iff_eq,
    decide_eq_true_eq]
  omega

theorem containsRange_iff_forall {n : Nat} (pos : 0 < n) :
    containsRange addr n = true ↔ ∀ i < n, contains (addr + BitVec.ofNat 32 i) = true := by
  have end_lt : last.toNat + 1 < 2 ^ 32 := by decide
  rw [containsRange_iff pos]
  constructor
  · intro ⟨low, high⟩ i hi
    rw [contains_iff, toNat_add_ofNat (by omega)]
    omega
  · intro each
    obtain ⟨low, here⟩ := (contains_iff addr).mp (by simpa using each 0 pos)
    refine ⟨low, ?_⟩
    -- the first address behind the physical ones would be one of the range
    by_contra past
    have behind := (contains_iff _).mp (each (last.toNat + 1 - addr.toNat) (by omega))
    rw [toNat_add_ofNat (by omega)] at behind
    omega

end Physical

/-! ## One address and many -/

theorem Evaluation.dereference_eq_ok_iff {m : Machine} {v : Word} :
    dereference m addr = .ok v ↔
      Physical.contains addr = true ∧ m.memory.read addr 1 = .ok v := by
  rw [dereference]
  cases Physical.contains addr with
  | false => exact iff_of_false nofun nofun
  | true =>
      rw [if_pos rfl]
      cases m.memory.read addr 1 with
      | ok w => simp only [Except.ok.injEq, true_and]
      | error t => exact iff_of_false nofun nofun

namespace Simulator

/-- The bytes of a range, or the error that names it. -/
theorem bytesIn_eq (s : Simulator) (addr len : Word) :
    s.bytesIn addr len =
      if Physical.containsRange addr len.toNat = true ∧ s.machine.memory.Covers addr len.toNat then
        .ok (s.machine.memory.store.slice (addr.toNat - s.machine.memory.base.toNat) len.toNat)
      else .error (.outOfWindow addr len) := by
  rw [bytesIn, Memory.bytes_eq]
  by_cases physical : Physical.containsRange addr len.toNat = true
  · by_cases covers : s.machine.memory.Covers addr len.toNat
    · rw [if_pos physical, if_pos covers, if_pos ⟨physical, covers⟩]
    · rw [if_pos physical, if_neg covers, if_neg fun both => covers both.2]
  · rw [if_neg physical, if_neg fun both => physical both.1]

/-- A range has bytes where each of its addresses can be dereferenced. -/
theorem bytesIn_succeeds_iff (pos : 0 < len.toNat) :
    (∃ bytes, s.bytesIn addr len = .ok bytes) ↔
      ∀ i < len.toNat, ∃ v, dereference s.machine (addr + BitVec.ofNat 32 i) = .ok v := by
  have one : ∀ i, (∃ v, dereference s.machine (addr + BitVec.ofNat 32 i) = .ok v) ↔
      Physical.contains (addr + BitVec.ofNat 32 i) = true ∧
        s.machine.memory.Covers (addr + BitVec.ofNat 32 i) 1 := by
    intro i
    simp only [Evaluation.dereference_eq_ok_iff, exists_and_left]
    exact and_congr_right fun _ => Memory.readFor_succeeds_iff .read
  have all : (∃ bytes, s.bytesIn addr len = .ok bytes) ↔
      Physical.containsRange addr len.toNat = true ∧ s.machine.memory.Covers addr len.toNat := by
    rw [bytesIn_eq]
    split
    · next both => exact iff_of_true ⟨_, rfl⟩ both
    · next out => exact iff_of_false nofun out
  simp only [one, all, forall_and]
  rw [← Physical.containsRange_iff_forall pos]
  refine and_congr_right fun physical => Memory.covers_iff_forall pos ?_
  have := (Physical.containsRange_iff pos).mp physical
  have : Physical.last.toNat + 1 < 2 ^ 32 := by decide
  omega

/-- And these bytes are what is found there. -/
theorem dereference_of_bytesIn {bytes : List Byte} (h : s.bytesIn addr len = .ok bytes) :
    bytes.length = len.toNat ∧ ∀ (i : Nat) (hi : i < bytes.length),
      dereference s.machine (addr + BitVec.ofNat 32 i) = .ok (bytes[i].setWidth 32) := by
  have shown : Physical.containsRange addr len.toNat = true ∧
      s.machine.memory.bytes addr len.toNat = .ok bytes := by
    rw [bytesIn_eq] at h
    split at h
    · next both => rw [Memory.bytes_eq, if_pos both.2]; exact ⟨both.1, by cases h; rfl⟩
    · cases h
  obtain ⟨count, reads⟩ := Memory.read_of_bytes shown.2
  refine ⟨count, fun i hi => Evaluation.dereference_eq_ok_iff.mpr ⟨?_, reads i hi⟩⟩
  rw [count] at hi
  exact (Physical.containsRange_iff_forall (Nat.zero_lt_of_lt hi)).mp shown.1 i hi

/-- A range without bytes is shown where it stands in or right behind the window. -/
theorem bytesIn_zero {base : Word} {size : Nat} (made : Memory.History base size s.machine.memory) :
    s.bytesIn addr 0 =
      if Physical.contains addr = true ∧ base ≤ addr ∧ addr.toNat ≤ base.toNat + size then .ok []
      else .error (.outOfWindow addr 0) := by
  have fits := addr.isLt
  have same : (Physical.containsRange addr 0 = true ∧ s.machine.memory.Covers addr 0) ↔
      Physical.contains addr = true ∧ base ≤ addr ∧ addr.toNat ≤ base.toNat + size := by
    have physical : Physical.containsRange addr 0 = Physical.contains addr := Bool.and_true _
    rw [physical, made.covers_iff, Memory.InWindow, BitVec.le_def]
    refine and_congr_right fun _ => and_congr_right fun low => ?_
    omega
  rw [bytesIn_eq]
  exact if_congr same rfl rfl

/-- Two expressions that have values give a range. -/
theorem examine_of_values {count place : String}
    (counted : HartMonitor.evaluate s.machine count = .ok len)
    (placed : HartMonitor.evaluate s.machine place = .ok addr) :
    s.examine count place = (s, (s.bytesIn addr len).map fun bytes => (addr, bytes)) := by
  simp only [examine, evaluate, counted, placed]

end Simulator

/-! ## The window of a simulator -/

section History
variable {base : Word} {size : Nat} {m : Machine}

open Memory (History)

theorem history_of_apply {row : Instruction.Row} {inst : Word} {o : Instruction.Operands}
    {next : Machine} (made : History base size m.memory) (h : m.apply row inst o = .ok next) :
    History base size next.memory := by
  simp only [Machine.apply] at h
  split at h
  · cases h; exact made
  · cases h; exact made
  · cases h; exact made
  · cases h; exact made
  · cases h; exact made
  · next width signed _ =>
    cases loaded : m.memory.loadWord (o.src1 + o.imm) width signed with
    | error t => rw [loaded] at h; cases h
    | ok w => rw [loaded] at h; cases h; exact made
  · next width _ =>
    cases stored : m.memory.storeWord (o.src1 + o.imm) width o.src2 with
    | error t => rw [stored] at h; cases h
    | ok memory => rw [stored] at h; cases h; exact .write made stored
  · cases h; exact made
  · cases h
  · cases h

theorem history_of_step (made : History base size m.memory) :
    History base size m.step.1.memory := by
  have executed := m.executed_step
  generalize m.step = out at executed
  cases executed with
  | unfetched | undescribed | trapped => exact made
  | completed _ _ done => exact (history_of_apply made done :)

theorem history_lasting : Lasting fun s => History base size s.machine.memory where
  turn made taken := by
    have stepped := history_of_step made
    cases taken with
    | went hs | fired hs | lost hs | ended hs | trapped hs => rwa [hs] at stepped
  state _ made := made

theorem history_of_place {memory : Memory} (made : History base size memory) (image : Image) :
    History base size (image.place memory).1 := by
  rw [Image.place]
  induction image.segments generalizing memory with
  | nil => exact made
  | cons segment rest ih =>
      rw [Image.placeSegments]
      split
      · exact made
      · next loaded => exact ih (.load made loaded)

/-- The memory of a simulator is the one it was configured with, after some writes and loads. -/
theorem history_of_reachable {config : Config} {Allowed : Simulator → Request → Prop}
    (h : Reachable Allowed (.create config) s) :
    History config.memory.ramBase config.memory.ramSize s.machine.memory := by
  refine h.invariant (P := fun s => History _ _ s.machine.memory) .create fun s r made _ => ?_
  match r with
  | .load image =>
      have placed := history_of_place made image
      simp only [Simulator.perform, Simulator.loadImage]
      split <;> exact placed
  | .step n => exact history_lasting.step made n
  | .quit => exact made
  | .evaluate _ | .watch _ | .unwatch _ | .toggle _ | .examine _ _ | .registers =>
      rwa [(Request.Idle.requested (by trivial) s).machine]

end History

/-- Showing memory agrees with dereferencing it, byte by byte, for two expressions that have
values.  A range with bytes is shown exactly where each of its addresses can be dereferenced, and
as what is found there; one without any, where its address is physical and in the configured
window or right behind it.  Otherwise the error names the range. -/
theorem examine_agrees_with_dereference {count place : String}
    (counted : evaluate s.machine count = .ok len) (placed : evaluate s.machine place = .ok addr) :
    (s.examine count place).1 = s ∧
    (len ≠ 0 →
      ((∃ found, (s.examine count place).2 = .ok found) ↔
        ∀ i < len.toNat, ∃ v, dereference s.machine (addr + BitVec.ofNat 32 i) = .ok v) ∧
      (∀ start bytes, (s.examine count place).2 = .ok (start, bytes) →
        start = addr ∧ bytes.length = len.toNat ∧ ∀ (i : Nat) (hi : i < bytes.length),
          dereference s.machine (addr + BitVec.ofNat 32 i) = .ok (bytes[i].setWidth 32)) ∧
      ((¬ ∃ found, (s.examine count place).2 = .ok found) →
        (s.examine count place).2 = .error (.outOfWindow addr len))) ∧
    (len = 0 → ∀ config Allowed, Reachable Allowed (.create config) s →
      (s.examine count place).2 =
        if Physical.contains addr = true ∧ config.memory.ramBase ≤ addr ∧
            addr.toNat ≤ config.memory.ramBase.toNat + config.memory.ramSize then .ok (addr, [])
        else .error (.outOfWindow addr 0)) := by
  rw [Simulator.examine_of_values counted placed]
  refine ⟨rfl, fun nonzero => ⟨?succeeds, ?shows, ?fails⟩, ?zero⟩
  case succeeds =>
    have pos : 0 < len.toNat := Nat.pos_of_ne_zero fun h => nonzero (BitVec.eq_of_toNat_eq h)
    rw [← Simulator.bytesIn_succeeds_iff pos]
    cases s.bytesIn addr len with
    | ok bytes => exact iff_of_true ⟨_, rfl⟩ ⟨_, rfl⟩
    | error e => exact iff_of_false nofun nofun
  case shows =>
    intro start bytes h
    cases shown : s.bytesIn addr len with
    | ok found =>
        rw [shown] at h
        cases h
        exact ⟨rfl, Simulator.dereference_of_bytesIn shown⟩
    | error e => rw [shown] at h; cases h
  case fails =>
    intro none
    rw [Simulator.bytesIn_eq] at none ⊢
    split at none
    · exact absurd ⟨_, rfl⟩ none
    · next out => rw [if_neg out]; rfl
  case zero =>
    rintro rfl config Allowed reached
    rw [Simulator.bytesIn_zero (history_of_reachable reached)]
    split <;> rfl

/-- The last four physical bytes, in a window that goes on behind them: they are shown, and a fifth,
which memory has, is not, because it cannot be dereferenced.  Without bytes the window alone does
not count either. -/
theorem examine_agrees_with_dereference_at_end :
    let config : Config := { memory := ⟨0x87fffffc, 16⟩ }
    let s := (Simulator.create config).perform (.load (.raw [0x11, 0x22, 0x33, 0x44] 0x87fffffc))
    (evaluate s.machine "4" = .ok 4 ∧ evaluate s.machine "5" = .ok 5 ∧
      evaluate s.machine "4-4" = .ok 0 ∧ evaluate s.machine "0x87fffffc" = .ok 0x87fffffc ∧
      evaluate s.machine "0x88000000" = .ok 0x88000000) ∧
    (∀ i < 4, ∃ v, dereference s.machine (0x87fffffc + BitVec.ofNat 32 i) = .ok v) ∧
    (∃ found, (s.examine "4" "0x87fffffc").2 = .ok found) ∧
    s.machine.memory.read 0x88000000 1 = .ok 0 ∧
    (s.examine "5" "0x87fffffc").2 = .error (.outOfWindow 0x87fffffc 5) ∧
    (s.examine "4-4" "0x88000000").2 = .error (.outOfWindow 0x88000000 0) := by
  intro config s
  have four : evaluate s.machine "4" = .ok 4 := by decide +kernel
  have five : evaluate s.machine "5" = .ok 5 := by decide +kernel
  have none : evaluate s.machine "4-4" = .ok 0 := by decide +kernel
  have start : evaluate s.machine "0x87fffffc" = .ok 0x87fffffc := by decide +kernel
  have behind : evaluate s.machine "0x88000000" = .ok 0x88000000 := by decide +kernel
  have each : ∀ i < 4, ∃ v, dereference s.machine (0x87fffffc + BitVec.ofNat 32 i) = .ok v := by
    intro i hi
    match i, hi with
    | 0, _ => exact ⟨0x11, by decide +kernel⟩
    | 1, _ => exact ⟨0x22, by decide +kernel⟩
    | 2, _ => exact ⟨0x33, by decide +kernel⟩
    | 3, _ => exact ⟨0x44, by decide +kernel⟩
  obtain ⟨-, shown, -⟩ := examine_agrees_with_dereference four start
  obtain ⟨-, refused, -⟩ := examine_agrees_with_dereference five start
  obtain ⟨-, -, empty⟩ := examine_agrees_with_dereference none behind
  refine ⟨⟨four, five, none, start, behind⟩, each, (shown (by decide)).1.mpr each,
    by decide +kernel, (refused (by decide)).2.2 fun found => ?_, ?_⟩
  · obtain ⟨v, last⟩ := ((refused (by decide)).1.mp found) 4 (by decide)
    have missing : dereference s.machine (0x87fffffc + BitVec.ofNat 32 4) =
        .error (.outsideWindow 0x88000000) := by decide +kernel
    rw [missing] at last
    cases last
  · rw [empty rfl config (fun _ _ => True) (.request .start trivial)]
    rfl

end HartMonitor
