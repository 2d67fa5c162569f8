/-
# `HartMonitor.Proofs.Watch.Sweep` — what a sweep finds and what it leaves

A sweep that fails nowhere reports the changes of the live slots, in their order, and
leaves every slot with the value that its expression has (`check_ok`).  A sweep that
fails names a live slot whose expression has no value (`check_error`).  Slot by slot, a
sweep reads values anew up to the first one that fails (`getElem?_sweepFrom`).
-/
import HartMonitor.Watch.Pool

namespace HartMonitor.WatchPool

variable {eval : String → Except ExpressionError Word} {slots : List (Option Watched)}

/-- The value last seen in every live slot is the one that its expression has. -/
def Agrees (eval : String → Except ExpressionError Word) (slots : List (Option Watched)) : Prop :=
  ∀ w, some w ∈ slots → eval w.expression = .ok w.last

/-- The change that a sweep finds in a live slot: a value other than the one last seen. -/
def change? (eval : String → Except ExpressionError Word) (w : Watchpoint) : Option WatchEvent :=
  match eval w.expression with
  | .ok value => if value = w.last then none else some ⟨w.id, w.expression, w.last, value⟩
  | .error _ => none

theorem forall_mem_liveFrom {P : String → Word → Prop} :
    ∀ {id : Nat}, (∀ w ∈ liveFrom id slots, P w.expression w.last) ↔
      ∀ w, some w ∈ slots → P w.expression w.last := by
  induction slots with
  | nil => intro id; simp [liveFrom]
  | cons slot rest ih =>
      intro id
      cases slot with
      | none => simp [liveFrom, ih]
      | some w => simp [liveFrom, ih]

/-! ## Sweeps -/

theorem sweepFrom_complete : ∀ {id : Nat}, (sweepFrom eval id slots).failure = none →
    (∀ w, some w ∈ slots → ∃ value, eval w.expression = .ok value) ∧
    Agrees eval (sweepFrom eval id slots).slots ∧
    (sweepFrom eval id slots).events = (liveFrom id slots).filterMap (change? eval) := by
  induction slots with
  | nil => intro id _; simp [sweepFrom, Agrees, liveFrom]
  | cons slot rest ih =>
      intro id h
      cases slot with
      | none =>
          obtain ⟨values, agrees, events⟩ := ih h
          refine ⟨by simpa using values, ?_, events⟩
          simpa [sweepFrom, Agrees] using agrees
      | some w =>
          simp only [sweepFrom] at h ⊢
          split at h
          · cases h
          · next value hv =>
            obtain ⟨values, agrees, events⟩ := ih h
            refine ⟨?_, ?_, ?_⟩
            · simpa [hv] using values
            · simpa [Agrees, hv] using agrees
            · simp only [liveFrom, List.filterMap_cons, change?, hv, events]
              split <;> rfl

theorem sweepFrom_quiet : ∀ {id : Nat}, (sweepFrom eval id slots).failure = none →
    (sweepFrom eval id slots).events = [] → (sweepFrom eval id slots).slots = slots := by
  induction slots with
  | nil => intro id _ _; rfl
  | cons slot rest ih =>
      intro id h quiet
      cases slot with
      | none =>
          simp only [sweepFrom] at h quiet ⊢
          rw [ih h quiet]
      | some w =>
          simp only [sweepFrom] at h quiet ⊢
          split at h
          · cases h
          · next value hv =>
            simp only [hv] at quiet ⊢
            split at quiet
            · next same => rw [ih h quiet, same]
            · cases quiet

theorem sweepFrom_failed {e : PoolError} :
    ∀ {id : Nat}, (sweepFrom eval id slots).failure = some e →
      ∃ w ∈ liveFrom id slots, ∃ cause, eval w.expression = .error cause ∧
        e = .lostValue w.id w.expression cause := by
  induction slots with
  | nil => intro id h; cases h
  | cons slot rest ih =>
      intro id h
      cases slot with
      | none => exact ih h
      | some w =>
          simp only [sweepFrom] at h
          split at h
          · next cause hc =>
            cases h
            exact ⟨_, List.mem_cons_self, cause, hc, rfl⟩
          · obtain ⟨wp, mem, found⟩ := ih h
            exact ⟨wp, List.mem_cons_of_mem _ mem, found⟩

/-- An expression with the value that it has, or with the value last seen where it has none. -/
def reread (eval : String → Except ExpressionError Word) (w : Watched) : Watched :=
  match eval w.expression with
  | .ok value => { w with last := value }
  | .error _ => w

def hasValue (eval : String → Except ExpressionError Word) (w : Watched) : Bool :=
  (eval w.expression).isOk

/-- A sweep reads every slot anew up to the first one whose expression has no value. -/
theorem getElem?_sweepFrom : ∀ {id i : Nat},
    (sweepFrom eval id slots).slots[i]? =
      if (slots.take i).all (Option.all (hasValue eval)) then
        slots[i]?.map (Option.map (reread eval))
      else slots[i]? := by
  induction slots with
  | nil => intro id i; simp [sweepFrom]
  | cons slot rest ih =>
      intro id i
      cases slot with
      | none =>
          cases i with
          | zero => rfl
          | succ i => simpa [sweepFrom] using ih
      | some w =>
          cases hv : eval w.expression with
          | error cause =>
              cases i with
              | zero => simp [sweepFrom, reread, hv]
              | succ i => simp [sweepFrom, hasValue, hv, Except.isOk, Except.toBool]
          | ok value =>
              cases i with
              | zero => simp [sweepFrom, reread, hv]
              | succ i => simpa [sweepFrom, hasValue, hv, Except.isOk, Except.toBool] using ih

theorem length_sweepFrom : ∀ {id : Nat}, (sweepFrom eval id slots).slots.length = slots.length := by
  induction slots with
  | nil => intro id; rfl
  | cons slot rest ih =>
      intro id
      cases slot with
      | none => simp [sweepFrom, ih]
      | some w =>
          simp only [sweepFrom]
          split
          · rfl
          · simp [ih]

theorem all_take_iff {q : Watched → Bool} {id : Nat} :
    (slots.take id).all (Option.all q) = true ↔ ∀ i < id, slots[i]?.join.all q = true := by
  simp only [List.all_eq_true, List.mem_iff_getElem?, List.getElem?_take]
  constructor
  · intro h i lt
    cases hi : slots[i]? with
    | none => rfl
    | some slot => exact h slot ⟨i, by rw [if_pos lt, hi]⟩
  · rintro h slot ⟨i, hi⟩
    split at hi
    · next lt =>
      have at_i := h i lt
      rwa [hi] at at_i
    · cases hi

@[simp]
theorem reread_expression (w : Watched) : (reread eval w).expression = w.expression := by
  rw [reread]
  split <;> rfl

theorem capacity_check {p : WatchPool} : (p.check eval).1.capacity = p.capacity := by
  rw [check, sweep]
  split
  · exact length_sweepFrom
  · rfl

theorem exists_of_mem_check {p : WatchPool} {w : Watched} (h : some w ∈ (p.check eval).1.slots) :
    ∃ old, some old ∈ p.slots ∧ old.expression = w.expression := by
  simp only [check, sweep] at h
  split at h
  · obtain ⟨i, hi⟩ := List.mem_iff_getElem?.mp h
    rw [getElem?_sweepFrom] at hi
    split at hi
    · obtain ⟨slot, hslot, hw⟩ := Option.map_eq_some_iff.mp hi
      obtain ⟨old, rfl, rfl⟩ := Option.map_eq_some_iff.mp hw
      exact ⟨old, List.mem_of_getElem? hslot, (reread_expression old).symm⟩
    · exact ⟨w, List.mem_of_getElem? hi, rfl⟩
  · exact ⟨w, h, rfl⟩

theorem enabled_of_check_error {p p' : WatchPool} {e : PoolError}
    (h : p.check eval = (p', .error e)) : p.enabled = true := by
  cases off : p.enabled with
  | true => rfl
  | false => simp [check, sweep, off] at h

section Check
variable {p p' : WatchPool} (enabled : p.enabled = true)
include enabled

/-- A sweep that completes finds exactly the changes, and every slot agrees after it. -/
theorem check_ok {events : List WatchEvent} (h : p.check eval = (p', .ok events)) :
    p'.enabled = true ∧ Agrees eval p'.slots ∧
      (∀ w ∈ p.toList, ∃ value, eval w.expression = .ok value) ∧
      events = p.toList.filterMap (change? eval) ∧ (events = [] → p' = p) := by
  simp only [check, sweep, enabled, if_true, Prod.mk.injEq] at h
  obtain ⟨rfl, h⟩ := h
  split at h
  · cases h
  · next complete =>
    cases h
    obtain ⟨values, agrees, events⟩ := sweepFrom_complete complete
    refine ⟨rfl, agrees, ?_, events, fun quiet => ?_⟩
    · exact (forall_mem_liveFrom (P := fun text _ => ∃ v, eval text = .ok v)).mpr values
    · rw [sweepFrom_quiet complete quiet, ← enabled]

/-- A sweep that fails has met a live slot whose expression has no value. -/
theorem check_error {e : PoolError} (h : p.check eval = (p', .error e)) :
    ∃ w ∈ p.toList, ∃ cause, eval w.expression = .error cause ∧
      e = .lostValue w.id w.expression cause := by
  simp only [check, sweep, enabled, if_true, Prod.mk.injEq] at h
  obtain ⟨-, h⟩ := h
  split at h
  · next failed => cases h; exact sweepFrom_failed failed
  · cases h

end Check

end HartMonitor.WatchPool
