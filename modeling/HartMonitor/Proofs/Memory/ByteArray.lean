/-
# `HartMonitor.Proofs.Memory.ByteArray` — memory is a byte array behind a window

What memory holds is seen as a partial map from addresses to bytes (`Memory.number?`).
What every access does is said of that map:

    littleEndian? bytes a len    the number that the `len` bytes from `a` on spell
    lowBytes x len               the `len` low bytes of a number, the least one first
    overlaid bytes a data        the map with `data` laid over it from `a` on

Writes and loads move neither end of the window (`History.shape`), so that the two
numbers a memory was made of decide which accesses succeed (`InWindow`).  A write is a
load of the low bytes of a word (`write_eq_load`), and is not treated apart.

    readFor_eq_ok_iff         a read gives the number that the bytes of the map spell
    bytes_eq_ok_iff           a range shows what reading each of its bytes gives
    number?_of_load           a load lays its slice over the map
    loadWord_of_storeWord     what was stored is loaded again, widened

`IsByteArray` puts them together, for the memories that writes and loads lead to.
-/
import HartMonitor.Machine.Transfer
import HartMonitor.Proofs.Machine.InPlace
import HartMonitor.Proofs.Rv32i.View

namespace HartMonitor

/-! ## Bytes by their addresses -/

/-- The number that the `len` bytes from an address on spell, the first one weighing least, if all
of them are there. -/
def littleEndian? (bytes : Nat → Option Nat) (a : Nat) : Nat → Option Nat
  | 0 => some 0
  | len + 1 => do
    let low ← bytes a
    let high ← littleEndian? bytes (a + 1) len
    return low + 256 * high

/-- The `len` low bytes of a number, the least one first. -/
def lowBytes (x len : Nat) : List Nat :=
  (List.range len).map fun i => x / 256 ^ i % 256

/-- The bytes with others laid over them from an address on. -/
def overlaid (bytes : Nat → Option Nat) (a : Nat) (data : List Nat) : Nat → Option Nat := fun b =>
  if a ≤ b ∧ b < a + data.length then data[b - a]? else bytes b

theorem Rv32i.Hart.number?_eq (h : Rv32i.Hart) (len : Nat) :
    ∀ a, h.number? a len = littleEndian? h.memory a len := by
  induction len with
  | zero => intro a; rfl
  | succ len ih =>
      intro a
      rw [Rv32i.Hart.number?, littleEndian?, ih]

theorem map_toNat_bytesOfWord (w : Word) (len : Nat) :
    (bytesOfWord w len).map BitVec.toNat = lowBytes w.toNat len := by
  refine List.ext_getElem? fun i => ?_
  rw [List.getElem?_map, getElem?_bytesOfWord, lowBytes, List.getElem?_map]
  by_cases low : i < len
  · rw [if_pos low, List.getElem?_range low, Option.map_some, Option.map_some,
      toNat_extract_byte]
  · rw [if_neg low, List.getElem?_eq_none (by simpa using low)]
    rfl

theorem toNat_add_ofNat {addr : Word} {i : Nat} (fits : addr.toNat + i < 2 ^ 32) :
    (addr + BitVec.ofNat 32 i).toNat = addr.toNat + i := by
  rw [BitVec.toNat_add, BitVec.toNat_ofNat]
  omega

theorem wordOfBytes_bytesOfWord_eq (w : Word) (len : Nat) :
    wordOfBytes (bytesOfWord w len) = (w.setWidth (8 * len)).setWidth 32 := by
  apply BitVec.eq_of_getLsbD_eq
  intro i hi
  rw [getLsbD_wordOfBytes_bytesOfWord]
  simp [hi]

theorem setWidth_inj {x y : Byte} (h : x.setWidth 32 = y.setWidth 32) : x = y := by
  have back : ∀ z : Byte, (z.setWidth 32).setWidth 8 = z := fun z => by
    rw [BitVec.setWidth_setWidth_of_le _ (Nat.le_add_left 8 24), BitVec.setWidth_eq]
  rw [← back x, h, back]

theorem Store.slice_put (s : Store) (offset : Nat) (data : List Byte) :
    (s.put offset data).slice offset data.length = data := by
  refine List.ext_getElem (Store.length_slice _ _ _) fun i _ hi => ?_
  simp [Store.slice, Store.byteAt_put, hi]

namespace Memory

/-! ## The window -/

/-- The `len` bytes from an address on lie in a window of `size` bytes from `base` on, which is cut
at the end of the address space. -/
def InWindow (base : Word) (size : Nat) (addr : Word) (len : Nat) : Prop :=
  base ≤ addr ∧ addr.toNat - base.toNat + len ≤ min size (2 ^ 32 - base.toNat)

instance (base : Word) (size : Nat) (addr : Word) (len : Nat) :
    Decidable (InWindow base size addr len) :=
  inferInstanceAs (Decidable (_ ∧ _))

/-- The memories that come of one of `size` zeros from `base` on, by writes and by loads. -/
inductive History (base : Word) (size : Nat) : Memory → Prop
  | create : History base size (.create base size)
  | write {m n : Memory} {addr v : Word} {width : Width} : History base size m →
      m.write addr width.bytes v = .ok n → History base size n
  | load {m n : Memory} {addr : Word} {data : List Byte} : History base size m →
      m.load addr data = .ok n → History base size n

variable {m n : Memory} {addr v : Word} {len : Nat} {data : List Byte}

theorem readFor_succeeds_iff (kind : Access) :
    (∃ w, m.readFor kind addr len = .ok w) ↔ m.Covers addr len := by
  rw [readFor_eq]
  by_cases covers : m.Covers addr len
  · rw [if_pos covers]
    exact iff_of_true ⟨_, rfl⟩ covers
  · rw [if_neg covers]
    refine iff_of_false ?_ covers
    rintro ⟨w, h⟩
    cases h

theorem write_succeeds_iff : (∃ n, m.write addr len v = .ok n) ↔ m.Covers addr len := by
  constructor
  · rintro ⟨n, wrote⟩
    by_contra out
    rw [write_of_not_covers v out] at wrote
    cases wrote
  · intro covers
    obtain ⟨n, wrote, -⟩ := write_of_covers v covers
    exact ⟨n, wrote⟩

/-- A write is a load of the low bytes of a word. -/
theorem write_eq_load (m : Memory) (addr : Word) (len : Nat) (v : Word) :
    m.write addr len v = m.load addr (bytesOfWord v len) := by
  rw [write, load, replaceWord?_eq_replace?, length_bytesOfWord]

theorem load_eq_ok_iff :
    m.load addr data = .ok n ↔ m.Covers addr data.length ∧ n.base = m.base ∧
      n.store = m.store.put (addr.toNat - m.base.toNat) data := by
  rw [← replace?_eq_some, load]
  cases m.replace? addr data with
  | none => exact iff_of_false nofun nofun
  | some found => rw [orFault, Except.ok.injEq, Option.some.injEq]

theorem load_of_covers (h : m.Covers addr data.length) : ∃ n, m.load addr data = .ok n := by
  refine ⟨⟨m.base, m.store.put (addr.toNat - m.base.toNat) data, ?_⟩, ?_⟩
  · rw [Store.size_put]
    exact m.fits
  · exact load_eq_ok_iff.mpr ⟨h, rfl, rfl⟩

theorem load_of_not_covers (h : ¬ m.Covers addr data.length) :
    m.load addr data = .error (.storeFault addr data.length) := by
  rw [load]
  cases placed : m.replace? addr data with
  | none => rfl
  | some n => exact absurd ((replace?_eq_some m n addr data).mp placed).1 h

theorem shape_of_load (h : m.load addr data = .ok n) : n.base = m.base ∧ n.size = m.size := by
  obtain ⟨-, base, store⟩ := load_eq_ok_iff.mp h
  refine ⟨base, ?_⟩
  rw [size, store, Store.size_put]
  rfl

/-- Nothing that is done to a memory moves its window. -/
theorem History.shape {base : Word} {size : Nat} (h : History base size m) :
    m.base = base ∧ m.size = min size (2 ^ 32 - base.toNat) := by
  induction h with
  | create => exact ⟨rfl, rfl⟩
  | write _ wrote ih =>
      rw [write_eq_load] at wrote
      obtain ⟨same, kept⟩ := shape_of_load wrote
      exact ⟨same.trans ih.1, kept.trans ih.2⟩
  | load _ loaded ih =>
      obtain ⟨same, kept⟩ := shape_of_load loaded
      exact ⟨same.trans ih.1, kept.trans ih.2⟩

theorem History.covers_iff {base : Word} {size : Nat} (h : History base size m) :
    m.Covers addr len ↔ InWindow base size addr len := by
  obtain ⟨rfl, cut⟩ := h.shape
  rw [InWindow, ← cut]
  rfl

/-! ## Reads -/

/-- A fetch or a read gives the number that the bytes of the window spell. -/
theorem readFor_eq_ok_iff (kind : Access) (pos : 0 < len) (small : len ≤ 4) (w : Word) :
    m.readFor kind addr len = .ok w ↔ littleEndian? m.number? addr.toNat len = some w.toNat := by
  have outcome := Machine.readFor_toHart (m := ⟨.zeros, 0, m⟩) kind addr pos small
  have view : (Machine.toHart ⟨.zeros, 0, m⟩).memory = m.number? := rfl
  rw [Rv32i.Hart.number?_eq, view] at outcome
  cases spelled : littleEndian? m.number? addr.toNat len with
  | none =>
      rw [spelled] at outcome
      dsimp only at outcome
      rw [outcome]
      exact iff_of_false (fun h => by cases h) (fun h => by cases h)
  | some x =>
      rw [spelled] at outcome
      obtain ⟨-, found, read, rfl⟩ := outcome
      dsimp only at read
      rw [read, Except.ok.injEq, Option.some.injEq]
      exact ⟨congrArg BitVec.toNat, BitVec.eq_of_toNat_eq⟩

/-- The bytes of a range, or the fault of a read. -/
theorem bytes_eq (m : Memory) (addr : Word) (len : Nat) :
    m.bytes addr len =
      if m.Covers addr len then .ok (m.store.slice (addr.toNat - m.base.toNat) len)
      else .error (.loadFault addr len) := by
  by_cases below : m.base ≤ addr
  · by_cases holds : m.store.Holds (addr.toNat - m.base.toNat) len
    · simp [bytes, offset?, Covers, Store.read?, below, holds, orFault]
    · simp [bytes, offset?, Covers, Store.read?, below, holds, orFault, Access.fault]
  · simp [bytes, offset?, Covers, below, orFault, Access.fault]

/-- Each of the bytes of a range is what a read of one byte gives. -/
theorem read_of_bytes (h : m.bytes addr len = .ok data) :
    data.length = len ∧ ∀ (i : Nat) (hi : i < data.length),
      m.read (addr + BitVec.ofNat 32 i) 1 = .ok (data[i].setWidth 32) := by
  rw [bytes_eq] at h
  by_cases covers : m.Covers addr len
  · rw [if_pos covers, Except.ok.injEq] at h
    subst h
    refine ⟨Store.length_slice _ _ _, fun i hi => ?_⟩
    rw [Store.length_slice] at hi
    obtain ⟨low, high⟩ := (m.covers_iff addr len).mp covers
    have fits : m.base.toNat + m.size ≤ 2 ^ 32 := m.fits
    have place : (addr + BitVec.ofNat 32 i).toNat = addr.toNat + i :=
      toNat_add_ofNat (by omega)
    have one : m.Covers (addr + BitVec.ofNat 32 i) 1 := by
      rw [covers_iff, place]
      omega
    have offset : addr.toNat + i - m.base.toNat = addr.toNat - m.base.toNat + i := by omega
    rw [read, readFor_eq, if_pos one, place, offset, Store.slice_succ, wordOfBytes_cons]
    simp [Store.slice, wordOfBytes]
  · rw [if_neg covers] at h
    cases h

theorem covers_iff_forall (pos : 0 < len) (fits : addr.toNat + len ≤ 2 ^ 32) :
    m.Covers addr len ↔ ∀ i < len, m.Covers (addr + BitVec.ofNat 32 i) 1 := by
  have place : ∀ i < len, (addr + BitVec.ofNat 32 i).toNat = addr.toNat + i :=
    fun i hi => toNat_add_ofNat (by omega)
  constructor
  · intro covers i hi
    rw [covers_iff] at covers ⊢
    rw [place i hi]
    omega
  · intro each
    -- the first and the last byte are inside, so that all of them are
    have first := (m.covers_iff _ 1).mp (each 0 pos)
    have last := (m.covers_iff _ 1).mp (each (len - 1) (by omega))
    rw [place _ (by omega)] at first last
    rw [covers_iff]
    omega

/-- What is read in place of each byte of a range is what the range shows, where the range does not
pass the end of the address space. -/
theorem bytes_eq_ok_iff (pos : 0 < len) (fits : addr.toNat + len ≤ 2 ^ 32) :
    m.bytes addr len = .ok data ↔
      data.length = len ∧ ∀ (i : Nat) (hi : i < data.length),
        m.read (addr + BitVec.ofNat 32 i) 1 = .ok (data[i].setWidth 32) := by
  refine ⟨read_of_bytes, ?_⟩
  rintro ⟨rfl, each⟩
  have covers : m.Covers addr data.length :=
    (covers_iff_forall pos fits).mpr fun i hi => (readFor_succeeds_iff .read).mp ⟨_, each i hi⟩
  have shown := bytes_eq m addr data.length
  rw [if_pos covers] at shown
  obtain ⟨count, reads⟩ := read_of_bytes shown
  rw [shown, Except.ok.injEq]
  refine List.ext_getElem count fun i hi hi' => setWidth_inj ?_
  exact Except.ok.inj ((reads i hi).symm.trans (each i hi'))

/-! ## Writes and loads -/

/-- A load lays its slice over the bytes of the window. -/
theorem number?_of_load (h : m.load addr data = .ok n) :
    n.number? = overlaid m.number? addr.toNat (data.map BitVec.toNat) := by
  obtain ⟨covers, base, store⟩ := load_eq_ok_iff.mp h
  funext a
  rw [number?_of_put covers base store, overlaid, List.length_map, List.getElem?_map]

/-- A write lays the low bytes of a word over the bytes of the window. -/
theorem number?_of_write (h : m.write addr len v = .ok n) :
    n.number? = overlaid m.number? addr.toNat (lowBytes v.toNat len) := by
  rw [write_eq_load] at h
  rw [number?_of_load h, map_toNat_bytesOfWord]

theorem readFor_of_load (h : m.load addr data = .ok n) (kind : Access) :
    n.readFor kind addr data.length = .ok (wordOfBytes data) := by
  obtain ⟨covers, base, store⟩ := load_eq_ok_iff.mp h
  have still : n.Covers addr data.length := by
    rw [covers_iff, base, (shape_of_load h).2]
    exact (m.covers_iff addr _).mp covers
  rw [readFor_eq, if_pos still, base, store, Store.slice_put]

/-- What was stored is loaded again with the same width, widened. -/
theorem loadWord_of_storeWord {width : Width} (h : m.storeWord addr width v = .ok n)
    (signed : Bool) :
    n.loadWord addr width signed =
      .ok (if signed then (v.setWidth width.bits).signExtend 32
        else (v.setWidth width.bits).setWidth 32) := by
  rw [storeWord, write_eq_load] at h
  have again := readFor_of_load h .read
  rw [length_bytesOfWord, wordOfBytes_bytesOfWord_eq] at again
  rw [loadWord, read, again]
  cases signed with
  | false => rfl
  | true =>
      have narrow : width.bits ≤ 32 := Nat.mul_le_mul_left 8 width.bytes_le_four
      have low : ((v.setWidth width.bits).setWidth 32).setWidth width.bits =
          v.setWidth width.bits := by
        rw [BitVec.setWidth_setWidth_of_le _ narrow, BitVec.setWidth_eq]
      exact congrArg (fun x => Except.ok (x.signExtend 32)) low

/-! ## The byte array -/

/-- A memory of `size` bytes from `base` on is a byte array behind its window, whatever was written
and loaded before. -/
structure IsByteArray (base : Word) (size : Nat) (m : Memory) : Prop where
  /-- An access succeeds exactly where all its bytes are in the window. -/
  succeeds : ∀ (addr : Word) (width : Width) (v : Word),
    ((∃ w, m.fetch addr width.bytes = .ok w) ↔ InWindow base size addr width.bytes) ∧
    ((∃ w, m.read addr width.bytes = .ok w) ↔ InWindow base size addr width.bytes) ∧
    ((∃ n, m.write addr width.bytes v = .ok n) ↔ InWindow base size addr width.bytes)
  /-- Elsewhere it is the fault of its own kind. -/
  faults : ∀ (addr : Word) (width : Width) (v : Word), ¬ InWindow base size addr width.bytes →
    m.fetch addr width.bytes = .error (.fetchFault addr) ∧
    m.read addr width.bytes = .error (.loadFault addr width.bytes) ∧
    m.write addr width.bytes v = .error (.storeFault addr width.bytes)
  /-- A write in place that faults changes nothing. -/
  untouched : ∀ (addr : Word) (width : Width) (v : Word), ¬ InWindow base size addr width.bytes →
    ∀ (regs : Registers) (pc : Word),
      (InPlace.writeWord addr width.bytes v).run.run ⟨regs, pc, m⟩ =
        (.error (.storeFault addr width.bytes), ⟨regs, pc, m⟩)
  /-- Fetches and reads are little-endian. -/
  shows : ∀ (b : Word) (width : Width) (w : Word),
    (m.fetch b width.bytes = .ok w ↔
      littleEndian? m.number? b.toNat width.bytes = some w.toNat) ∧
    (m.read b width.bytes = .ok w ↔
      littleEndian? m.number? b.toNat width.bytes = some w.toNat)
  /-- After a write, the bytes it covers are the low ones of its value, and the others are the
  previous ones. -/
  written : ∀ (a : Word) (stored : Width) (v : Word) (n : Memory),
    m.write a stored.bytes v = .ok n → ∀ (b : Word) (width : Width) (w : Word),
      n.read b width.bytes = .ok w ↔
        littleEndian? (overlaid m.number? a.toNat (lowBytes v.toNat stored.bytes)) b.toNat
          width.bytes = some w.toNat
  /-- A slice is loaded where all of it is in the window. -/
  placed : ∀ (a : Word) (data : List Byte),
    (InWindow base size a data.length → ∃ n, m.load a data = .ok n) ∧
    (¬ InWindow base size a data.length → m.load a data = .error (.storeFault a data.length))
  /-- After a load, the bytes it covers are those of the slice, and the others are the previous
  ones. -/
  loaded : ∀ (a : Word) (data : List Byte) (n : Memory),
    m.load a data = .ok n → ∀ (b : Word) (width : Width) (w : Word),
      n.read b width.bytes = .ok w ↔
        littleEndian? (overlaid m.number? a.toNat (data.map BitVec.toNat)) b.toNat
          width.bytes = some w.toNat
  /-- A range has bytes where all of it is in the window. -/
  ranges : ∀ (addr : Word) (len : Nat),
    (InWindow base size addr len → ∃ data, m.bytes addr len = .ok data ∧ data.length = len) ∧
    (¬ InWindow base size addr len → m.bytes addr len = .error (.loadFault addr len))
  /-- The bytes of a range are those that reading each of them gives. -/
  agrees : ∀ (addr : Word) (len : Nat) (data : List Byte), 0 < len → addr.toNat + len ≤ 2 ^ 32 →
    (m.bytes addr len = .ok data ↔
      data.length = len ∧ ∀ (i : Nat) (hi : i < data.length),
        m.read (addr + BitVec.ofNat 32 i) 1 = .ok (data[i].setWidth 32))
  /-- What was stored is loaded again with the same width, extended by its sign or by zeros. -/
  transfers : ∀ (a : Word) (width : Width) (v : Word) (n : Memory),
    m.storeWord a width v = .ok n →
      n.loadWord a width true = .ok ((v.setWidth width.bits).signExtend 32) ∧
      n.loadWord a width false = .ok ((v.setWidth width.bits).setWidth 32)

/-- A memory is a byte array behind a window, whatever was written and loaded. -/
theorem byteArray_behind_window {base : Word} {size : Nat} (h : History base size m) :
    IsByteArray base size m where
  succeeds addr width v := by
    rw [← h.covers_iff]
    exact ⟨readFor_succeeds_iff .fetch, readFor_succeeds_iff .read, write_succeeds_iff⟩
  faults addr width v out := by
    rw [← h.covers_iff] at out
    refine ⟨?_, ?_, write_of_not_covers v out⟩
    · rw [fetch, readFor_eq, if_neg out]
      rfl
    · rw [read, readFor_eq, if_neg out]
      rfl
  untouched addr width v out regs pc := by
    rw [← h.covers_iff] at out
    rw [InPlace.run_writeWord, write_of_not_covers v out]
  shows b width w :=
    ⟨readFor_eq_ok_iff .fetch width.bytes_pos width.bytes_le_four w,
      readFor_eq_ok_iff .read width.bytes_pos width.bytes_le_four w⟩
  written a stored v n wrote b width w := by
    rw [← number?_of_write wrote]
    exact readFor_eq_ok_iff .read width.bytes_pos width.bytes_le_four w
  placed a data := by
    rw [← h.covers_iff]
    exact ⟨load_of_covers, load_of_not_covers⟩
  loaded a data n put b width w := by
    rw [← number?_of_load put]
    exact readFor_eq_ok_iff .read width.bytes_pos width.bytes_le_four w
  ranges addr len := by
    rw [← h.covers_iff, bytes_eq]
    constructor
    · intro covers
      rw [if_pos covers]
      exact ⟨_, rfl, Store.length_slice _ _ _⟩
    · intro out
      rw [if_neg out]
  agrees addr len data pos fits := bytes_eq_ok_iff pos fits
  transfers a width v n stored :=
    ⟨loadWord_of_storeWord stored true, loadWord_of_storeWord stored false⟩

/-- A hundred bytes are cut to the last eight addresses.  A word that overlaps the one written there
shows two of its bytes, and no word passes the last address. -/
theorem byteArray_behind_window_at_end :
    ∃ m : Memory, History 0xfffffff8 100 m ∧ IsByteArray 0xfffffff8 100 m ∧
      m.read 0xfffffffa 4 = .ok 0xbeef0000 ∧
      m.read 0xfffffffd 4 = .error (.loadFault 0xfffffffd 4) := by
  have start : History 0xfffffff8 100 (.create 0xfffffff8 100) := .create
  have fresh := byteArray_behind_window start
  have inside : InWindow 0xfffffff8 100 0xfffffffc 4 := by decide
  have outside : ¬ InWindow 0xfffffff8 100 0xfffffffd 4 := by decide
  obtain ⟨m, wrote⟩ := (fresh.succeeds 0xfffffffc .word 0xdeadbeef).2.2.mpr inside
  have after : History 0xfffffff8 100 m := start.write wrote
  refine ⟨m, after, byteArray_behind_window after, ?_, ?_⟩
  · exact (fresh.written 0xfffffffc .word 0xdeadbeef m wrote 0xfffffffa .word _).mpr rfl
  · exact ((byteArray_behind_window after).faults 0xfffffffd .word 0 outside).2.1

end Memory

end HartMonitor
