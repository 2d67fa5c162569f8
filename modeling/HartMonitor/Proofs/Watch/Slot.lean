/-
# `HartMonitor.Proofs.Watch.Slot` — vacant slots and live ones

Which slot an expression gets, and what the list of live slots says of the slots:

    searched     upward and round from the cursor, and every slot is met    exists_firstVacant
    taken        the first vacant slot, by a text that is watchable         allocate_eq_ok
    listed       every live slot under its own number, in order             mem_toList

Taking and freeing a slot touch no other one.
-/
import HartMonitor.Watch.Pool
import Mathlib.Data.List.Count
import Mathlib.Data.List.DropRight

namespace HartMonitor

theorem Text.trim_eq_empty {text : String} :
    Text.trim text = "" ↔ ∀ c ∈ text.toList, Text.isBlank c = true := by
  rw [trim, String.ofList_eq_empty_iff, trimChars, List.reverse_eq_nil_iff,
    List.dropWhile_eq_nil_iff]
  simp only [List.mem_reverse]
  rw [← List.dropWhile_eq_nil_iff, List.dropWhile_idempotent, List.dropWhile_eq_nil_iff]

/-- A text that a slot can hold: not of blanks alone, and not too long. -/
def Watchable (text : String) : Prop :=
  (∃ c ∈ text.toList, Text.isBlank c = false) ∧
    text.utf8ByteSize ≤ WatchPool.maxExpressionBytes

theorem Watchpoint.eq_iff {w : Watchpoint} {id : Nat} {v : Watched} :
    w = ⟨id, v.expression, v.last⟩ ↔ w.id = id ∧ v = ⟨w.expression, w.last⟩ := by
  constructor
  · rintro rfl
    exact ⟨rfl, rfl⟩
  · rintro ⟨rfl, rfl⟩
    rfl

namespace WatchPool

variable {p p' : WatchPool} {id : Nat}

/-! ## The search for a vacant slot -/

/-- Slot `id` is vacant, and all slots met before it on the way upward and round from the cursor
are live. -/
def FirstVacant (p : WatchPool) (id : Nat) : Prop :=
  ∃ k < p.capacity, id = (p.cursor + k) % p.capacity ∧ p.slots[id]? = some none ∧
    ∀ j < k, p.slots[(p.cursor + j) % p.capacity]? ≠ some none

theorem FirstVacant.lt (first : p.FirstVacant id) : id < p.capacity := by
  obtain ⟨k, hk, rfl, -⟩ := first
  exact Nat.mod_lt _ (Nat.zero_lt_of_lt hk)

theorem isVacant_iff : p.isVacant id = true ↔ p.slots[id]? = some none := by
  rw [isVacant, beq_iff_eq]

theorem find?_searchOrder : p.searchOrder.find? p.isVacant = some id ↔ p.FirstVacant id := by
  rw [searchOrder, List.find?_map]
  simp only [Option.map_eq_some_iff, List.find?_range_eq_some, List.mem_range, Function.comp,
    Bool.not_eq_true', ← Bool.not_eq_true, isVacant_iff]
  constructor
  · rintro ⟨k, ⟨vacant, lt, before⟩, rfl⟩
    exact ⟨k, lt, rfl, vacant, before⟩
  · rintro ⟨k, lt, rfl, vacant, before⟩
    exact ⟨k, ⟨vacant, lt, before⟩, rfl⟩

/-- Going upward and round from one of `n` places leads to every other. -/
theorem exists_add_mod {c n : Nat} (start : c < n) (id : Nat) (lt : id < n) :
    ∃ k < n, (c + k) % n = id := by
  by_cases above : c ≤ id
  · refine ⟨id - c, by omega, ?_⟩
    rw [Nat.add_sub_cancel' above, Nat.mod_eq_of_lt lt]
  · refine ⟨id + n - c, by omega, ?_⟩
    rw [Nat.add_sub_cancel' (by omega), Nat.add_mod_right, Nat.mod_eq_of_lt lt]

/-- The search finds a slot where one is vacant. -/
theorem exists_firstVacant (start : 0 < p.capacity → p.cursor < p.capacity) :
    (∃ id, p.FirstVacant id) ↔ p.inUse < p.capacity := by
  rw [inUse, capacity, List.countP_lt_length_iff]
  constructor
  · rintro ⟨id, k, -, -, vacant, -⟩
    exact ⟨none, List.mem_of_getElem? vacant, rfl⟩
  · rintro ⟨slot, mem, vacant⟩
    rw [Option.isSome_eq_false_iff, Option.isNone_iff_eq_none] at vacant
    subst vacant
    obtain ⟨id, hid⟩ := List.mem_iff_getElem?.mp mem
    have lt : id < p.capacity := (List.getElem?_eq_some_iff.mp hid).1
    have met : id ∈ p.searchOrder := by
      obtain ⟨k, hk, rfl⟩ := exists_add_mod (start (Nat.zero_lt_of_lt lt)) id lt
      exact List.mem_map_of_mem (List.mem_range.mpr hk)
    cases found : p.searchOrder.find? p.isVacant with
    | none => exact absurd (isVacant_iff.mpr hid) (List.find?_eq_none.mp found id met)
    | some first => exact ⟨first, find?_searchOrder.mp found⟩

/-- A text is taken where it is watchable and a slot is vacant. -/
theorem allocate_eq_ok {text : String} {value : Word} :
    p.allocate text value = .ok (p', id) ↔ Watchable text ∧ p.FirstVacant id ∧
      p' = { p with slots := p.slots.set id (some ⟨text, value⟩), cursor := id } := by
  simp only [allocate]
  split
  · next blank =>
    refine iff_of_false nofun fun ⟨⟨⟨c, mem, visible⟩, _⟩, _⟩ => ?_
    rw [Text.trim_eq_empty.mp blank c mem] at visible
    cases visible
  · next visible =>
    split
    · next long => exact iff_of_false nofun fun ⟨⟨_, short⟩, _⟩ => Nat.not_le.mpr long short
    · next short =>
      have watchable : Watchable text :=
        ⟨by simpa [Text.trim_eq_empty] using visible, Nat.not_lt.mp short⟩
      split
      · next full =>
        refine iff_of_false nofun fun ⟨_, first, _⟩ => ?_
        cases full.symm.trans (find?_searchOrder.mpr first)
      · next first found =>
        constructor
        · intro h
          cases h
          exact ⟨watchable, find?_searchOrder.mp found, rfl⟩
        · rintro ⟨-, first, rfl⟩
          cases found.symm.trans (find?_searchOrder.mpr first)
          rfl

theorem free_eq_ok :
    p.free id = .ok p' ↔ id < p.capacity ∧
      p' = { p with slots := p.slots.set id none, cursor := id } := by
  simp only [free]
  split
  · next lt => simp [lt, eq_comm]
  · next ge => exact iff_of_false nofun fun ⟨lt, _⟩ => ge lt

theorem allocate_ok {text : String} {value : Word} (h : p.allocate text value = .ok (p', id)) :
    p'.enabled = p.enabled ∧
      ∀ w, some w ∈ p'.slots → some w ∈ p.slots ∨ w = ⟨text, value⟩ := by
  obtain ⟨-, -, rfl⟩ := allocate_eq_ok.mp h
  exact ⟨rfl, fun w hw => (List.mem_or_eq_of_mem_set hw).imp_right Option.some.inj⟩

theorem free_ok (h : p.free id = .ok p') :
    p'.enabled = p.enabled ∧ ∀ w, some w ∈ p'.slots → some w ∈ p.slots := by
  obtain ⟨-, rfl⟩ := free_eq_ok.mp h
  exact ⟨rfl, fun w hw => (List.mem_or_eq_of_mem_set hw).resolve_right nofun⟩

theorem firstVacant_of_free (h : p.free id = .ok p') : p'.FirstVacant id := by
  obtain ⟨lt, rfl⟩ := free_eq_ok.mp h
  have same : (p.slots.set id none).length = p.slots.length := List.length_set
  refine ⟨0, ?_, ?_, List.getElem?_set_self lt, nofun⟩
  · exact (Nat.zero_lt_of_lt lt).trans_eq same.symm
  · exact (Nat.mod_eq_of_lt (lt.trans_eq same.symm)).symm

/-! ## The list of live slots -/

theorem mem_liveFrom {slots : List (Option Watched)} {w : Watchpoint} :
    ∀ {i : Nat}, w ∈ liveFrom i slots ↔
      ∃ j, w.id = i + j ∧ slots[j]? = some (some ⟨w.expression, w.last⟩) := by
  induction slots with
  | nil => intro i; simp [liveFrom]
  | cons slot rest ih =>
      intro i
      rw [← Nat.or_exists_add_one]
      cases slot with
      | none => simp [liveFrom, ih, Nat.add_assoc, Nat.add_comm 1]
      | some v =>
          simp [liveFrom, ih, Watchpoint.eq_iff, Nat.add_assoc, Nat.add_comm 1]

theorem mem_toList {w : Watchpoint} :
    w ∈ p.toList ↔ p.slots[w.id]? = some (some ⟨w.expression, w.last⟩) := by
  simp [toList, mem_liveFrom]

theorem mem_toList_set (lt : id < p.capacity) {slot : Option Watched} {w : Watchpoint} :
    w ∈ toList { p with slots := p.slots.set id slot, cursor := id } ↔
      w.id = id ∧ slot = some ⟨w.expression, w.last⟩ ∨ w.id ≠ id ∧ w ∈ p.toList := by
  rw [mem_toList, mem_toList]
  by_cases same : w.id = id
  · subst same
    simp [List.getElem?_set_self lt]
  · simp [same, List.getElem?_set_ne (Ne.symm same)]

theorem mem_toList_of_allocate {text : String} {value : Word}
    (h : p.allocate text value = .ok (p', id)) {w : Watchpoint} :
    w ∈ p'.toList ↔ w = ⟨id, text, value⟩ ∨ w ∈ p.toList := by
  obtain ⟨-, first, rfl⟩ := allocate_eq_ok.mp h
  have fresh : w ∈ p.toList → w.id ≠ id := by
    rintro mem rfl
    obtain ⟨k, -, -, vacant, -⟩ := first
    cases vacant.symm.trans (mem_toList.mp mem)
  rw [mem_toList_set first.lt, Watchpoint.eq_iff (v := ⟨text, value⟩), Option.some.injEq]
  exact or_congr_right ⟨And.right, fun mem => ⟨fresh mem, mem⟩⟩

theorem mem_toList_of_free (h : p.free id = .ok p') {w : Watchpoint} :
    w ∈ p'.toList ↔ w ∈ p.toList ∧ w.id ≠ id := by
  obtain ⟨lt, rfl⟩ := free_eq_ok.mp h
  rw [mem_toList_set lt]
  simp [and_comm]

theorem increasing_liveFrom {slots : List (Option Watched)} :
    ∀ {i : Nat}, (liveFrom i slots).Pairwise (·.id < ·.id) := by
  induction slots with
  | nil => intro i; exact .nil
  | cons slot rest ih =>
      intro i
      cases slot with
      | none => exact ih
      | some w =>
          refine .cons (fun v mem => ?_) ih
          obtain ⟨j, hj, -⟩ := mem_liveFrom.mp mem
          simp only [hj]
          omega

theorem length_liveFrom {slots : List (Option Watched)} :
    ∀ {i : Nat}, (liveFrom i slots).length = slots.countP Option.isSome := by
  induction slots with
  | nil => intro i; rfl
  | cons slot rest ih =>
      intro i
      cases slot with
      | none => simpa [liveFrom] using ih
      | some w => simpa [liveFrom] using ih

end WatchPool

end HartMonitor
