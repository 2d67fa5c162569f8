/-
# `HartMonitor.Proofs.Watch.BoundedMap` — the pool is a bounded map

Whoever uses a pool can keep a map beside it, from the numbers of slots to what is
watched there, by nothing but the answers of the pool (`BoundedMap.record`):

    request           answer       map
    allocate t v      id           `t` and `v` at `id`, which is the recent one
    free id           done         nothing at `id`, which is the recent one
    check eval        any          the values that the expressions have, up to the
                                   first one without
    setEnabled on     done         whether values are read
    any               refused      as before

However a pool is used, it shows this map (`Shows`), and the map tells how it answers
next (`Refines`).  An arena that is used in the same way answers in the same way
(`Arena.Serves`): no index is out of its bounds, and where it refuses, nothing in it was
written.
-/
import HartMonitor.Proofs.Watch.Arena

namespace HartMonitor

/-- What a pool can be asked for. -/
inductive PoolRequest where
  | allocate (text : String) (value : Word)
  | free (id : Nat)
  | check (eval : String → Except ExpressionError Word)
  | setEnabled (on : Bool)

/-- What a pool answers. -/
inductive PoolAnswer where
  | taken (id : Nat)
  | done
  | checked (outcome : Except PoolError (List WatchEvent))
  | refused (e : PoolError)

/-- The pool after a request, and the answer to it.  A pool that refuses is kept. -/
def WatchPool.perform (p : WatchPool) : PoolRequest → WatchPool × PoolAnswer
  | .allocate text value =>
    match p.allocate text value with
    | .ok (p', id) => (p', .taken id)
    | .error e => (p, .refused e)
  | .free id =>
    match p.free id with
    | .ok p' => (p', .done)
    | .error e => (p, .refused e)
  | .check eval => ((p.check eval).1, .checked (p.check eval).2)
  | .setEnabled on => (p.setEnabled on, .done)

theorem WatchPool.perform_refused {p : WatchPool} {r : PoolRequest} {e : PoolError}
    (h : (p.perform r).2 = .refused e) : (p.perform r).1 = p := by
  cases r with
  | allocate text value =>
      simp only [perform] at h ⊢
      split at h
      · cases h
      · rfl
  | free id =>
      simp only [perform] at h ⊢
      split at h
      · cases h
      · rfl
  | check eval => cases h
  | setEnabled on => cases h

namespace InArena

/-- A request to an arena, which is changed where it stands. -/
def perform : PoolRequest → StateT Arena Option PoolAnswer
  | .allocate text value => do
    let out ← (allocate text value).run
    return match out with
      | .ok id => .taken id
      | .error e => .refused e
  | .free id => do
    let out ← (free id).run
    return match out with
      | .ok _ => .done
      | .error e => .refused e
  | .check eval => do
    let out ← (check eval).run
    return .checked out
  | .setEnabled on => do
    modify fun a => { a with enabled := on }
    return .done

/-- A computation that has come out is followed by its answer. -/
theorem run_answer {α : Type} {x : InArena α} {out : Except PoolError α} {a a' : Arena}
    (h : x.run.run a = some (out, a')) (answer : Except PoolError α → PoolAnswer) :
    (x.run >>= fun out => pure (answer out) : StateT Arena Option PoolAnswer).run a =
      some (answer out, a') := by
  rw [StateT.run_bind, h]
  rfl

end InArena

/-- An arena answers every request as a pool does, and stands as it did where it refuses one. -/
structure Arena.Serves (a : Arena) (p : WatchPool) : Prop where
  pool : a.pool = p
  perform : ∀ r, ∃ a', (InArena.perform r).run a = some ((p.perform r).2, a') ∧
    a'.pool = (p.perform r).1 ∧ ∀ e, (p.perform r).2 = .refused e → a' = a

/-- An arena whose cursor is at one of its cells serves as the pool that it holds. -/
theorem Arena.serves {a : Arena} (h : a.InBounds) : a.Serves a.pool where
  pool := rfl
  perform r := by
    cases r with
    | allocate text value =>
        simp only [WatchPool.perform]
        split
        · next p id taken =>
          obtain ⟨a', ran, pool⟩ := InArena.run_allocate_ok h taken
          exact ⟨a', InArena.run_answer ran _, pool, nofun⟩
        · next e refused =>
          have ran := InArena.run_allocate_error h refused
          exact ⟨a, InArena.run_answer ran _, rfl, fun _ _ => rfl⟩
    | free id =>
        simp only [WatchPool.perform]
        split
        · next p freed =>
          obtain ⟨a', ran, pool⟩ := InArena.run_free_ok freed
          exact ⟨a', InArena.run_answer ran _, pool, nofun⟩
        · next e refused =>
          have ran := InArena.run_free_error refused
          exact ⟨a, InArena.run_answer ran _, rfl, fun _ _ => rfl⟩
    | check eval =>
        obtain ⟨a', ran, pool⟩ := @InArena.run_check a eval
        exact ⟨a', InArena.run_answer ran _, pool, nofun⟩
    | setEnabled on => exact ⟨{ a with enabled := on }, rfl, rfl, nofun⟩

/-- What is watched under each number, the number that was last taken or freed, and whether values
are read. -/
structure BoundedMap where
  entry : Nat → Option Watched
  recent : Nat
  enabled : Bool

namespace BoundedMap

def empty : BoundedMap := ⟨fun _ => none, 0, true⟩

def set (map : BoundedMap) (id : Nat) (slot : Option Watched) : BoundedMap :=
  { map with entry := fun i => if i = id then slot else map.entry i, recent := id }

/-- The map with values read in the order of numbers, up to the first expression without one. -/
def read (map : BoundedMap) (eval : String → Except ExpressionError Word) : BoundedMap :=
  { map with
    entry := fun id =>
      if ∀ i < id, (map.entry i).all (WatchPool.hasValue eval) then
        (map.entry id).map (WatchPool.reread eval)
      else map.entry id }

/-- The map after a request, by the answer to it. -/
def record (map : BoundedMap) : PoolRequest → PoolAnswer → BoundedMap
  | .allocate text value, .taken id => map.set id (some ⟨text, value⟩)
  | .free id, .done => map.set id none
  | .check eval, _ => if map.enabled then map.read eval else map
  | .setEnabled on, _ => { map with enabled := on }
  | _, _ => map

/-- The first number without an entry, going upward and round from the recent one. -/
def Next (map : BoundedMap) (capacity id : Nat) : Prop :=
  ∃ k < capacity, id = (map.recent + k) % capacity ∧ map.entry id = none ∧
    ∀ j < k, map.entry ((map.recent + j) % capacity) ≠ none

end BoundedMap

/-- A pool of some capacity after some requests, and the map kept beside it. -/
def served (capacity : Nat) (requests : List PoolRequest) : WatchPool × BoundedMap :=
  requests.foldl (fun s r => ((s.1.perform r).1, s.2.record r (s.1.perform r).2))
    (.create capacity, .empty)

def Arena.served (capacity : Nat) (requests : List PoolRequest) : Option Arena :=
  requests.foldlM (fun a r => ((InArena.perform r).run a).map Prod.snd) (.create capacity)

/-- The slots of a pool hold the entries of a map, and the cursor is at the recent one. -/
structure Shows (capacity : Nat) (p : WatchPool) (map : BoundedMap) : Prop where
  capacity : p.capacity = capacity
  entry : ∀ id, map.entry id = p.slots[id]?.join
  recent : map.recent = p.cursor
  enabled : map.enabled = p.enabled
  cursor : 0 < p.capacity → p.cursor < p.capacity
  watchable : ∀ w, some w ∈ p.slots → Watchable w.expression

namespace Shows

variable {capacity : Nat} {p p' : WatchPool} {map : BoundedMap}

theorem create (capacity : Nat) : Shows capacity (.create capacity) .empty where
  capacity := List.length_replicate
  entry id := by
    simp only [BoundedMap.empty, WatchPool.create, List.getElem?_replicate]
    split <;> rfl
  recent := rfl
  enabled := rfl
  cursor pos := pos
  watchable w hw := by cases (List.mem_replicate.mp hw).2

theorem set (h : Shows capacity p map) {id : Nat} (lt : id < p.capacity) {slot : Option Watched}
    (watchable : ∀ w, slot = some w → Watchable w.expression) :
    Shows capacity { p with slots := p.slots.set id slot, cursor := id } (map.set id slot) where
  capacity := List.length_set.trans h.capacity
  entry i := by
    simp only [BoundedMap.set, List.getElem?_set, h.entry]
    by_cases same : i = id
    · subst same
      have lt : i < p.slots.length := lt
      simp [lt]
    · simp [same, Ne.symm same]
  recent := rfl
  enabled := h.enabled
  cursor _ := lt.trans_eq List.length_set.symm
  watchable w hw := by
    rcases List.mem_or_eq_of_mem_set hw with old | new
    · exact h.watchable w old
    · exact watchable w new.symm

theorem check (h : Shows capacity p map) (eval : String → Except ExpressionError Word) :
    Shows capacity (p.check eval).1 (if map.enabled then map.read eval else map) where
  capacity := WatchPool.capacity_check.trans h.capacity
  entry id := by
    rw [h.enabled, WatchPool.check, WatchPool.sweep]
    split
    · simp only [BoundedMap.read, h.entry, WatchPool.getElem?_sweepFrom, WatchPool.all_take_iff]
      split
      · exact Option.join_map_eq_map_join.symm
      · rfl
    · exact h.entry id
  recent := by split <;> exact h.recent
  enabled := by split <;> exact h.enabled
  cursor := by
    rw [WatchPool.capacity_check]
    exact h.cursor
  watchable w hw := by
    obtain ⟨old, mem, same⟩ := WatchPool.exists_of_mem_check hw
    rw [← same]
    exact h.watchable old mem

theorem perform (h : Shows capacity p map) (r : PoolRequest) :
    Shows capacity (p.perform r).1 (map.record r (p.perform r).2) := by
  cases r with
  | allocate text value =>
      simp only [WatchPool.perform]
      split
      · next p' id taken =>
        obtain ⟨watchable, first, rfl⟩ := WatchPool.allocate_eq_ok.mp taken
        refine h.set first.lt fun w hw => ?_
        cases hw
        exact watchable
      · exact h
  | free id =>
      simp only [WatchPool.perform]
      split
      · next p' freed =>
        obtain ⟨lt, rfl⟩ := WatchPool.free_eq_ok.mp freed
        exact h.set lt nofun
      · exact h
  | check eval => exact h.check eval
  | setEnabled on => exact ⟨h.capacity, h.entry, h.recent, rfl, h.cursor, h.watchable⟩

/-- However a pool is used, it shows the map kept beside it. -/
theorem of_served (capacity : Nat) (requests : List PoolRequest) :
    Shows capacity (served capacity requests).1 (served capacity requests).2 :=
  List.foldlRecOn (motive := fun s : WatchPool × BoundedMap => Shows capacity s.1 s.2)
    requests _ (create capacity) fun _ h r _ => h.perform r

theorem serves (h : Shows capacity p map) {a : Arena} (pool : a.pool = p) : a.Serves p := by
  subst pool
  refine Arena.serves fun occupied => ?_
  have start := h.cursor
  rw [Arena.capacity_pool] at start
  exact start occupied

theorem pool_served (capacity : Nat) (requests : List PoolRequest) :
    ∃ a, Arena.served capacity requests = some a ∧ a.pool = (served capacity requests).1 := by
  suffices run : ∀ {a : Arena} {p : WatchPool} {map : BoundedMap}, Shows capacity p map →
      a.pool = p → ∃ a',
        requests.foldlM (fun a r => ((InArena.perform r).run a).map Prod.snd) a = some a' ∧
        a'.pool = (requests.foldl
          (fun s r => ((s.1.perform r).1, s.2.record r (s.1.perform r).2)) (p, map)).1 from
    run (create capacity) (Arena.pool_create capacity)
  induction requests with
  | nil => exact fun {a} {_} {_} _ pool => ⟨a, rfl, pool⟩
  | cons r rest ih =>
      intro a p map shows pool
      obtain ⟨a', ran, pool', -⟩ := (shows.serves pool).perform r
      obtain ⟨last, later, pool_last⟩ := ih (shows.perform r) pool'
      refine ⟨last, ?_, pool_last⟩
      rw [List.foldlM_cons, ran]
      exact later

theorem vacant_iff (h : Shows capacity p map) {id : Nat} (lt : id < p.capacity) :
    p.slots[id]? = some none ↔ map.entry id = none := by
  rw [h.entry, List.getElem?_eq_getElem lt, Option.some.injEq, Option.join_some]

theorem firstVacant_iff (h : Shows capacity p map) {id : Nat} :
    p.FirstVacant id ↔ map.Next capacity id := by
  obtain rfl := h.capacity
  simp only [WatchPool.FirstVacant, BoundedMap.Next, h.recent]
  refine exists_congr fun k => and_congr_right fun lt => and_congr_right fun same => ?_
  have bound : ∀ i, i % p.capacity < p.capacity := fun i => Nat.mod_lt i (Nat.zero_lt_of_lt lt)
  refine and_congr (h.vacant_iff (same ▸ bound _)) ?_
  exact forall₂_congr fun j _ => not_congr (h.vacant_iff (bound _))

theorem mem_toList (h : Shows capacity p map) (w : Watchpoint) :
    w ∈ p.toList ↔ map.entry w.id = some ⟨w.expression, w.last⟩ := by
  rw [WatchPool.mem_toList, h.entry, Option.join_eq_some_iff]

theorem allocate_iff (h : Shows capacity p map) (text : String) (value : Word) :
    (∃ p' id, p.allocate text value = .ok (p', id)) ↔ Watchable text ∧ p.inUse < capacity := by
  rw [← h.capacity, ← WatchPool.exists_firstVacant h.cursor]
  constructor
  · rintro ⟨p', id, taken⟩
    obtain ⟨watchable, first, -⟩ := WatchPool.allocate_eq_ok.mp taken
    exact ⟨watchable, id, first⟩
  · rintro ⟨watchable, id, first⟩
    exact ⟨_, id, WatchPool.allocate_eq_ok.mpr ⟨watchable, first, rfl⟩⟩

theorem allocate_ok (h : Shows capacity p map) {text : String} {value : Word} {id : Nat}
    (taken : p.allocate text value = .ok (p', id)) :
    map.Next capacity id ∧ ∀ w, w ∈ p'.toList ↔ w = ⟨id, text, value⟩ ∨ w ∈ p.toList := by
  obtain ⟨-, first, -⟩ := WatchPool.allocate_eq_ok.mp taken
  exact ⟨h.firstVacant_iff.mp first, fun w => WatchPool.mem_toList_of_allocate taken⟩

theorem free_iff (h : Shows capacity p map) (id : Nat) :
    (∃ p', p.free id = .ok p') ↔ id < capacity := by
  rw [← h.capacity]
  simp [WatchPool.free_eq_ok]

end Shows

/-- What a map tells of a pool: its list, and how it answers next. -/
structure Refines (capacity : Nat) (p : WatchPool) (map : BoundedMap) : Prop where
  /-- The list has every entry, with its text and its latest value. -/
  mem_toList : ∀ w, w ∈ p.toList ↔ map.entry w.id = some ⟨w.expression, w.last⟩
  increasing : p.toList.Pairwise (·.id < ·.id)
  inUse_eq : p.inUse = p.toList.length
  inUse_le : p.inUse ≤ capacity
  watchable : ∀ w ∈ p.toList, Watchable w.expression
  /-- A text is taken where it is watchable and a slot is left. -/
  allocate_iff : ∀ text value,
    (∃ p' id, p.allocate text value = .ok (p', id)) ↔ Watchable text ∧ p.inUse < capacity
  /-- A text gets the next number without an entry, and nothing else is changed. -/
  allocate_ok : ∀ text value p' id, p.allocate text value = .ok (p', id) →
    map.Next capacity id ∧ ∀ w, w ∈ p'.toList ↔ w = ⟨id, text, value⟩ ∨ w ∈ p.toList
  free_iff : ∀ id, (∃ p', p.free id = .ok p') ↔ id < capacity
  /-- The entry is removed, if there is one, and nothing else is changed. -/
  free_ok : ∀ id p', p.free id = .ok p' → ∀ w, w ∈ p'.toList ↔ w ∈ p.toList ∧ w.id ≠ id
  /-- A number that was just freed is the next one to be taken. -/
  allocate_free : ∀ id p' text value, p.free id = .ok p' → Watchable text →
    ∃ p'', p'.allocate text value = .ok (p'', id)
  /-- Where something is refused, the whole pool is kept, with its cursor. -/
  refused : ∀ r e, (p.perform r).2 = .refused e → (p.perform r).1 = p

/-- However a pool is used, it is a map of at most as many entries as it has slots: the entries are
those taken and not freed since, and a text gets the first number without an entry, going
upward and round from the one last taken or freed.  An arena that is used in the same way holds
this pool and serves as it, and nothing in it is written where it refuses. -/
theorem pool_refines_bounded_map (capacity : Nat) (requests : List PoolRequest) :
    Refines capacity (served capacity requests).1 (served capacity requests).2 ∧
      ∃ a, Arena.served capacity requests = some a ∧ a.Serves (served capacity requests).1 := by
  have h := Shows.of_served capacity requests
  obtain ⟨a, used, pool⟩ := Shows.pool_served capacity requests
  refine ⟨?_, a, used, h.serves pool⟩
  generalize served capacity requests = s at h
  obtain ⟨p, map⟩ := s
  dsimp only at h ⊢
  exact {
    mem_toList := h.mem_toList
    increasing := WatchPool.increasing_liveFrom
    inUse_eq := WatchPool.length_liveFrom.symm
    inUse_le := List.countP_le_length.trans_eq h.capacity
    watchable w mem := h.watchable _ (List.mem_of_getElem? (WatchPool.mem_toList.mp mem))
    allocate_iff := h.allocate_iff
    allocate_ok _ _ _ _ := h.allocate_ok
    free_iff := h.free_iff
    free_ok id p' freed w := WatchPool.mem_toList_of_free freed
    allocate_free id p' text value freed watchable :=
      ⟨_, WatchPool.allocate_eq_ok.mpr ⟨watchable, WatchPool.firstVacant_of_free freed, rfl⟩⟩
    refused _ _ := WatchPool.perform_refused }

/-- Slot 0 is taken again before slot 2, being the one that was freed. -/
example :
    let requests := [.allocate "$a0" 1, .allocate "$a1" 2, .free 0, .allocate "$a2" 3]
    (served 3 requests).1.toList = [⟨0, "$a2", 3⟩, ⟨1, "$a1", 2⟩] ∧
      (served 3 requests).2.entry 2 = none := by
  decide +kernel

end HartMonitor
