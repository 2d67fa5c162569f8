/-
# `HartMonitor.Proofs.Image.Placement` — memory after an image was placed

Segments are placed one behind the other, so that an address has the byte of the last one
that covers it (`lastByte?`), and its old byte where none does:

    segments, in order     [a b c d]
                               [e f]
                                 [g h i]
    memory                 . a e g h i .

The first segment that does not fit ends the placement.  The ones before it were placed, and
nothing of it or of those behind it was (`exists_misfit`).  Which segments fit is decided by
the window alone, and no placement moves that.
-/
import HartMonitor.Proofs.Memory.ByteArray
import HartMonitor.Simulator

namespace HartMonitor

def Segment.byte? (s : Segment) (a : Word) : Option Byte :=
  if s.addr.toNat ≤ a.toNat then s.data[a.toNat - s.addr.toNat]? else none

/-- All bytes of a segment are for addresses in the window of a memory. -/
def Segment.Fits (s : Segment) (m : Memory) : Prop :=
  m.base.toNat ≤ s.addr.toNat ∧ s.addr.toNat + s.data.length ≤ m.base.toNat + m.size

instance (s : Segment) (m : Memory) : Decidable (s.Fits m) :=
  inferInstanceAs (Decidable (_ ∧ _))

namespace Image

/-- The byte that the last of the segments that cover an address has for it. -/
def lastByte? (segments : List Segment) (a : Word) : Option Byte :=
  segments.reverse.findSome? (·.byte? a)

/-- A memory is another one with some segments laid over it, a later one over an earlier one. -/
structure Overlaid (segments : List Segment) (m n : Memory) : Prop where
  /-- The window is the same. -/
  window : n.base = m.base ∧ n.size = m.size
  /-- A byte is that of the last segment that covers it, or the old one. -/
  bytes : ∀ a, n.bytes a 1 =
    match lastByte? segments a with
    | some b => .ok [b]
    | none => m.bytes a 1

variable {m n : Memory} {s : Segment} {segments before after : List Segment} {a : Word}

/-! ## One segment -/

theorem covers_iff_fits : m.Covers s.addr s.data.length ↔ s.Fits m :=
  m.covers_iff s.addr s.data.length

theorem lastByte?_cons :
    lastByte? (s :: segments) a = (lastByte? segments a).or (s.byte? a) := by
  rw [lastByte?, List.reverse_cons, List.findSome?_append, List.findSome?_singleton, lastByte?]

/-- A byte after a segment was loaded. -/
theorem bytes_of_load (h : m.load s.addr s.data = .ok n) (a : Word) :
    n.bytes a 1 =
      match s.byte? a with
      | some b => .ok [b]
      | none => m.bytes a 1 := by
  obtain ⟨covers, base, store⟩ := Memory.load_eq_ok_iff.mp h
  obtain ⟨-, size⟩ := Memory.shape_of_load h
  obtain ⟨low, high⟩ := covers_iff_fits.mp covers
  have same : n.Covers a 1 ↔ m.Covers a 1 := by
    rw [Memory.covers_iff, Memory.covers_iff, base, size]
  have slice : ∀ (store : Store) off, store.slice off 1 = [store.byteAt off] := fun _ _ => rfl
  rw [Memory.bytes_eq, Memory.bytes_eq, if_congr same rfl rfl, base, store, slice, slice]
  by_cases covered : m.Covers a 1
  · obtain ⟨below, -⟩ := (m.covers_iff a 1).mp covered
    have view : (m.store.put (s.addr.toNat - m.base.toNat) s.data).byteAt
        (a.toNat - m.base.toNat) =
          (s.byte? a).getD (m.store.byteAt (a.toNat - m.base.toNat)) := by
      rw [Store.byteAt_put, Segment.byte?]
      by_cases above : s.addr.toNat ≤ a.toNat
      · rw [if_pos (by omega), if_pos above]
        congr 2
        omega
      · rw [if_neg (by omega), if_neg above]
        rfl
    rw [if_pos covered, if_pos covered, view]
    cases s.byte? a <;> rfl
  · have out : s.byte? a = none := by
      rw [Segment.byte?]
      split
      · rw [Memory.covers_iff] at covered
        exact List.getElem?_eq_none (by omega)
      · rfl
    rw [if_neg covered, if_neg covered, out]

/-! ## Segments in their order -/

theorem Overlaid.nil : Overlaid [] m m := ⟨⟨rfl, rfl⟩, fun _ => rfl⟩

theorem Overlaid.cons {mid : Memory} (h : m.load s.addr s.data = .ok mid)
    (later : Overlaid segments mid n) : Overlaid (s :: segments) m n where
  window := ⟨later.window.1.trans (Memory.shape_of_load h).1,
    later.window.2.trans (Memory.shape_of_load h).2⟩
  bytes a := by
    rw [later.bytes, lastByte?_cons]
    cases lastByte? segments a with
    | some b => rfl
    | none => exact bytes_of_load h a

theorem fits_of_load {t : Segment} (h : m.load t.addr t.data = .ok n) : s.Fits n ↔ s.Fits m := by
  obtain ⟨base, size⟩ := Memory.shape_of_load h
  rw [Segment.Fits, Segment.Fits, base, size]

theorem placeSegments_append (fit : ∀ t ∈ before, t.Fits m) :
    ∃ n, Overlaid before m n ∧
      ∀ after, placeSegments m (before ++ after) = placeSegments n after := by
  induction before generalizing m with
  | nil => exact ⟨m, .nil, fun _ => rfl⟩
  | cons t rest ih =>
      obtain ⟨mid, loaded⟩ :=
        Memory.load_of_covers (covers_iff_fits.mpr (fit t List.mem_cons_self))
      obtain ⟨n, laid, rest_eq⟩ :=
        ih fun u hu => (fits_of_load loaded).mpr (fit u (List.mem_cons_of_mem t hu))
      refine ⟨n, .cons loaded laid, fun after => ?_⟩
      rw [List.cons_append, placeSegments, loaded]
      exact rest_eq after

theorem place_of_fits {image : Image} (fit : ∀ t ∈ image.segments, t.Fits m) :
    ∃ n, image.place m = (n, .ok ()) ∧ Overlaid image.segments m n := by
  obtain ⟨n, laid, ends⟩ := placeSegments_append fit
  have whole := ends []
  rw [List.append_nil] at whole
  exact ⟨n, whole, laid⟩

theorem placeSegments_misfit (out : ¬ s.Fits m) (after : List Segment) :
    placeSegments m (s :: after) = (m, .error (.doesNotFit s.addr s.data.length)) := by
  rw [placeSegments, Memory.load_of_not_covers (mt covers_iff_fits.mp out)]

theorem Overlaid.fits_iff (laid : Overlaid segments m n) : s.Fits n ↔ s.Fits m := by
  rw [Segment.Fits, Segment.Fits, laid.window.1, laid.window.2]

/-- Segments all fit, or there is a first one that does not. -/
theorem exists_misfit (m : Memory) (segments : List Segment)
    (h : ¬ ∀ t ∈ segments, t.Fits m) :
    ∃ before s after, segments = before ++ s :: after ∧ (∀ t ∈ before, t.Fits m) ∧ ¬ s.Fits m := by
  induction segments with
  | nil => exact absurd nofun h
  | cons t rest ih =>
      by_cases fit : t.Fits m
      · have later : ¬ ∀ u ∈ rest, u.Fits m := by
          intro all
          exact h fun u hu => (List.mem_cons.mp hu).elim (fun e => e ▸ fit) (all u)
        obtain ⟨before, s, after, rfl, fits, out⟩ := ih later
        refine ⟨t :: before, s, after, rfl, fun u hu => ?_, out⟩
        exact (List.mem_cons.mp hu).elim (fun e => e ▸ fit) (fits u)
      · exact ⟨[], t, rest, rfl, nofun, fit⟩

end Image

/-- Placing an image lays its segments over memory in their order, so that the last one that covers
an address has it.  Where a segment does not fit, the first of these is reported, and memory is as
if there were only the segments before it.  Loading an image moves `pc` where the image was placed
and has an entry, and touches nothing else but memory. -/
theorem placement_last_writer_wins (image : Image) (m : Memory) :
    ((∀ t ∈ image.segments, t.Fits m) →
      ∃ n, image.place m = (n, .ok ()) ∧ Image.Overlaid image.segments m n) ∧
    ((¬ ∀ t ∈ image.segments, t.Fits m) →
      ∃ before s after n, image.segments = before ++ s :: after ∧ (∀ t ∈ before, t.Fits m) ∧
        ¬ s.Fits m ∧ image.place m = (n, .error (.doesNotFit s.addr s.data.length)) ∧
        Image.place ⟨before, image.entry⟩ m = (n, .ok ()) ∧ Image.Overlaid before m n) ∧
    ∀ s : Simulator, s.machine.memory = m →
      (s.loadImage image).2 = (image.place m).2 ∧
      (s.loadImage image).1 =
        { s with
          machine := {
            regs := s.machine.regs
            pc := if (image.place m).2 = .ok () then image.entry.getD s.machine.pc else s.machine.pc
            memory := (image.place m).1 } } := by
  refine ⟨Image.place_of_fits, ?misfit, ?loaded⟩
  case misfit =>
    intro some
    obtain ⟨before, s, after, cut, fit, out⟩ := Image.exists_misfit m image.segments some
    obtain ⟨n, laid, ends⟩ := Image.placeSegments_append fit
    refine ⟨before, s, after, n, cut, fit, out, ?_, ?_, laid⟩
    · rw [Image.place, cut, ends, Image.placeSegments_misfit (mt laid.fits_iff.mp out)]
    · have whole := ends []
      rwa [List.append_nil] at whole
  case loaded =>
    rintro s rfl
    rw [Simulator.loadImage]
    cases image.place s.machine.memory with
    | mk memory outcome =>
        cases outcome with
        | ok placed => exact ⟨rfl, rfl⟩
        | error e => exact ⟨rfl, rfl⟩

/-- Three segments in a window of eight bytes that ends with the address space: the second covers
the end of the first, and the third is empty.  With two bytes more at its end, the second does not
fit. -/
theorem placement_last_writer_wins_at_end :
    let m := Memory.create 0xfffffff8 100
    let image (data : List Byte) : Image :=
      ⟨[⟨0xfffffffb, [1, 2, 3]⟩, ⟨0xfffffffd, [4, 5] ++ data⟩, ⟨0xffffffff, []⟩], some 0xfffffffc⟩
    (∃ n, (image [6]).place m = (n, .ok ()) ∧ n.bytes 0xfffffffc 1 = .ok [2] ∧
      n.bytes 0xfffffffd 1 = .ok [4] ∧ n.bytes 0xfffffff9 1 = .ok [0]) ∧
    ∃ (s : Segment) (n : Memory), ¬ s.Fits m ∧
      (image [6, 7]).place m = (n, .error (.doesNotFit s.addr s.data.length)) := by
  intro m image
  have fit : ∀ t ∈ (image [6]).segments, t.Fits m := by decide
  have misfit : ¬ ∀ t ∈ (image [6, 7]).segments, t.Fits m := by decide
  obtain ⟨n, placed, laid⟩ := (placement_last_writer_wins (image [6]) m).1 fit
  obtain ⟨_, s, _, n', -, -, out, failed, -⟩ :=
    (placement_last_writer_wins (image [6, 7]) m).2.1 misfit
  refine ⟨⟨n, placed, ?_, ?_, ?_⟩, s, n', out, failed⟩
  · exact laid.bytes 0xfffffffc
  · exact laid.bytes 0xfffffffd
  · exact (laid.bytes 0xfffffff9).trans rfl

end HartMonitor
