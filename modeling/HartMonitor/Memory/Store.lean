/-
# `HartMonitor.Memory.Store` — a fixed number of bytes, all zero at first

A store of `size` bytes is kept sparsely: a byte that was never written is zero and
takes no room.  Its view is `byteAt`, a byte for every offset; the operations are
given by what they do to the view.

    byteAt_put       a slice of bytes written from an offset on
    write?_eq_some   a slice is writable exactly where it lies inside, with `put` as
                     its effect
-/
import HartMonitor.Word
import Std.Data.TreeMap

namespace HartMonitor

/-- Bytes at the offsets below `size`; those without a cell are zero. -/
structure Store where
  size : Nat
  cells : Std.TreeMap Nat Byte

namespace Store

def zeros (size : Nat) : Store := ⟨size, ∅⟩

def isEmpty (s : Store) : Bool := s.size == 0

/-- The byte at an offset, zero if it was never written. -/
def byteAt (s : Store) (offset : Nat) : Byte :=
  s.cells.getD offset 0

def setByte (s : Store) (offset : Nat) (b : Byte) : Store :=
  { s with cells := s.cells.insert offset b }

/-- The store with the bytes from an offset on replaced by `data`. -/
def put (s : Store) (offset : Nat) : List Byte → Store
  | [] => s
  | b :: rest => (s.setByte offset b).put (offset + 1) rest

/-- Whether the `len` bytes from an offset on exist. -/
def Holds (s : Store) (offset len : Nat) : Prop :=
  offset + len ≤ s.size

instance (s : Store) (offset len : Nat) : Decidable (s.Holds offset len) :=
  inferInstanceAs (Decidable (_ ≤ _))

def slice (s : Store) (offset len : Nat) : List Byte :=
  (List.range len).map fun i => s.byteAt (offset + i)

/-- The `len` bytes from an offset on, if they all exist. -/
def read? (s : Store) (offset len : Nat) : Option (List Byte) :=
  if s.Holds offset len then some (s.slice offset len) else none

/-- The store with the bytes from an offset on replaced by `data`, if they all exist. -/
def write? (s : Store) (offset : Nat) (data : List Byte) : Option Store :=
  if s.Holds offset data.length then some (s.put offset data) else none

/-- The word that the `len` bytes from an offset on spell, if they all exist. -/
def readWord? (s : Store) (offset len : Nat) : Option Word :=
  (s.read? offset len).map wordOfBytes

/-- The store with the low `len` bytes of a word written from an offset on, if they all exist; only
then is the word taken apart. -/
def writeWord? (s : Store) (offset len : Nat) (w : Word) : Option Store :=
  if s.Holds offset len then some (s.put offset (bytesOfWord w len)) else none

/-! ## The view after each operation -/

theorem byteAt_setByte (s : Store) (offset other : Nat) (b : Byte) :
    (s.setByte offset b).byteAt other = if offset = other then b else s.byteAt other := by
  simp [setByte, byteAt, Std.TreeMap.getD_insert]

@[simp]
theorem size_put (s : Store) (offset : Nat) (data : List Byte) :
    (s.put offset data).size = s.size := by
  induction data generalizing s offset with
  | nil => rfl
  | cons b rest ih => exact ih (s.setByte offset b) (offset + 1)

/-- A byte after a slice was written: the one of the slice where it covers the offset, the old one
elsewhere. -/
theorem byteAt_put (s : Store) (offset other : Nat) (data : List Byte) :
    (s.put offset data).byteAt other =
      if offset ≤ other then (data[other - offset]?).getD (s.byteAt other) else s.byteAt other := by
  induction data generalizing s offset with
  | nil => simp [put]
  | cons b rest ih =>
    rw [put, ih, byteAt_setByte]
    by_cases h : offset = other
    · subst h
      rw [if_neg (Nat.not_succ_le_self offset), if_pos rfl, if_pos (Nat.le_refl offset),
        Nat.sub_self]
      rfl
    · by_cases hlt : offset < other
      · have step : other - offset = (other - (offset + 1)) + 1 := by omega
        have le : offset + 1 ≤ other := hlt
        have le' : offset ≤ other := by omega
        simp [h, le, le', step]
      · have nle : ¬ offset + 1 ≤ other := hlt
        have nle' : ¬ offset ≤ other := by omega
        simp [h, nle, nle']

theorem write?_eq_some (s t : Store) (offset : Nat) (data : List Byte) :
    s.write? offset data = some t ↔ s.Holds offset data.length ∧ s.put offset data = t := by
  simp [write?]

theorem writeWord?_eq_write? (s : Store) (offset len : Nat) (w : Word) :
    s.writeWord? offset len w = s.write? offset (bytesOfWord w len) := by
  simp [writeWord?, write?, length_bytesOfWord]

theorem length_slice (s : Store) (offset len : Nat) : (s.slice offset len).length = len := by
  simp [slice]

theorem size_of_write? {s t : Store} {offset : Nat} {data : List Byte}
    (h : s.write? offset data = some t) : t.size = s.size := by
  obtain ⟨-, rfl⟩ := (write?_eq_some s t offset data).1 h
  simp

end Store

end HartMonitor
