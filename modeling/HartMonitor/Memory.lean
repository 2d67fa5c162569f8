/-
# `HartMonitor.Memory` — a store of bytes behind a window of addresses

The byte at offset `i` of the store answers to the address `base + i`.  The window
never passes the end of the address space: a larger size is cut (`Memory.create`),
and the type keeps it so.  An access that is not wholly inside the window changes
nothing and raises the fault of its own kind.

    kind      fault                       raised by
    fetch     fetchFault addr             fetch
    read      loadFault addr len          read, bytes
    write     storeFault addr len         write, load

`replace?_eq_some` says what a successful change is: all its bytes lie in the window,
and the store is the old one with the new bytes put in.
-/
import HartMonitor.Memory.Store
import HartMonitor.Trap

namespace HartMonitor

/-- What an access to memory is for. -/
inductive Access where
  | fetch
  | read
  | write
deriving DecidableEq, Repr

namespace Access

def all : List Access := [fetch, read, write]

def name : Access → String
  | fetch => "fetch"
  | read => "read"
  | write => "write"

/-- The trap raised by an access of this kind outside the window. -/
def fault (addr : Word) (len : Nat) : Access → Trap
  | fetch => .fetchFault addr
  | read => .loadFault addr len
  | write => .storeFault addr len

end Access

/-- Memory: a store whose first byte is at the address `base`. -/
structure Memory where
  base : Word
  store : Store
  fits : base.toNat + store.size ≤ 1 <<< 32

namespace Memory

theorem fits_zeros (base : Word) (size : Nat) :
    base.toNat + (Store.zeros (min size ((1 <<< 32) - base.toNat))).size ≤ 1 <<< 32 := by
  have := base.isLt
  simp only [Store.zeros]
  omega

/-- Memory of `size` zeros from `base` on, cut at the end of the address space. -/
def create (base : Word) (size : Nat) : Memory where
  base := base
  store := Store.zeros (min size ((1 <<< 32) - base.toNat))
  fits := fits_zeros base size

def size (m : Memory) : Nat := m.store.size

/-- The offset that an address has in the store, if it is not below the base. -/
def offset? (m : Memory) (addr : Word) : Option Nat :=
  if m.base ≤ addr then some (addr.toNat - m.base.toNat) else none

/-- The `len` bytes from an address on are all in the window. -/
def Covers (m : Memory) (addr : Word) (len : Nat) : Prop :=
  m.base ≤ addr ∧ m.store.Holds (addr.toNat - m.base.toNat) len

instance (m : Memory) (addr : Word) (len : Nat) : Decidable (m.Covers addr len) :=
  inferInstanceAs (Decidable (_ ∧ _))

/-- The byte that an address shows; the one at offset zero for an address below the base. -/
def byteAt (m : Memory) (addr : Word) : Byte :=
  m.store.byteAt (addr.toNat - m.base.toNat)

/-- A result that may be missing, with a fault in its place. -/
def orFault {α : Type} (kind : Access) (addr : Word) (len : Nat) : Option α → Except Trap α
  | some a => .ok a
  | none => .error (kind.fault addr len)

def bytes (m : Memory) (addr : Word) (len : Nat) : Except Trap (List Byte) :=
  orFault .read addr len ((m.offset? addr).bind fun off => m.store.read? off len)

/-- The word that the `len` bytes from an address on spell, for an access of the given kind. -/
def readFor (m : Memory) (kind : Access) (addr : Word) (len : Nat) : Except Trap Word :=
  orFault kind addr len ((m.offset? addr).bind fun off => m.store.readWord? off len)

def fetch (m : Memory) (addr : Word) (len : Nat) : Except Trap Word :=
  m.readFor .fetch addr len

def read (m : Memory) (addr : Word) (len : Nat) : Except Trap Word :=
  m.readFor .read addr len

/-- The memory with the bytes from an address on replaced, if they are all inside. -/
def replace? (m : Memory) (addr : Word) (data : List Byte) : Option Memory :=
  (m.offset? addr).bind fun off =>
    match h : m.store.write? off data with
    | none => none
    | some store => some ⟨m.base, store, Store.size_of_write? h ▸ m.fits⟩

/-- The memory with the low `len` bytes of a word in place of those from an address on, if they are
all inside; only then is the word taken apart. -/
def replaceWord? (m : Memory) (addr : Word) (len : Nat) (w : Word) : Option Memory :=
  if m.Covers addr len then m.replace? addr (bytesOfWord w len) else none

def load (m : Memory) (addr : Word) (data : List Byte) : Except Trap Memory :=
  orFault .write addr data.length (m.replace? addr data)

/-- The memory with the low `len` bytes of a word written from an address on. -/
def write (m : Memory) (addr : Word) (len : Nat) (w : Word) : Except Trap Memory :=
  orFault .write addr len (m.replaceWord? addr len w)

/-- The first and the last address of the window; a memory without bytes shows the base alone. -/
def window (m : Memory) : Word × Word :=
  (m.base, m.base + BitVec.ofNat 32 (max m.size 1 - 1))

def contains (m : Memory) (addr : Word) (len : Nat) : Bool :=
  let (first, last) := m.window
  len != 0 && first ≤ addr
    && addr.toNat - first.toNat + len ≤ last.toNat - first.toNat + 1

/-! ## The window and the store -/

/-- Bytes can be replaced exactly where all of them are in the window. -/
theorem replace?_eq_some (m n : Memory) (addr : Word) (data : List Byte) :
    m.replace? addr data = some n ↔
      m.Covers addr data.length ∧ n.base = m.base ∧
        n.store = m.store.put (addr.toNat - m.base.toNat) data := by
  by_cases below : m.base ≤ addr
  · simp only [replace?, offset?, Covers, below, if_true, Option.bind_some, true_and]
    split
    · next h =>
      have out : ¬ m.store.Holds (addr.toNat - m.base.toNat) data.length := by
        intro holds
        simp [Store.write?, holds] at h
      simp only [reduceCtorEq, false_iff, not_and]
      exact fun holds => absurd holds out
    · next store h =>
      obtain ⟨holds, rfl⟩ := (Store.write?_eq_some _ _ _ _).1 h
      cases n
      simp only [Option.some.injEq, Memory.mk.injEq, holds, true_and]
      exact and_congr eq_comm eq_comm
  · simp [replace?, offset?, Covers, below]

theorem replaceWord?_eq_replace? (m : Memory) (addr : Word) (len : Nat) (w : Word) :
    m.replaceWord? addr len w = m.replace? addr (bytesOfWord w len) := by
  by_cases inside : m.Covers addr len
  · simp [replaceWord?, inside]
  · rw [replaceWord?, if_neg inside, eq_comm, Option.eq_none_iff_forall_ne_some]
    intro n h
    have := ((replace?_eq_some m n addr _).1 h).1
    rw [length_bytesOfWord] at this
    exact inside this

end Memory

end HartMonitor
