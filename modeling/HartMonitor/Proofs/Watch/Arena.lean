/-
# `HartMonitor.Proofs.Watch.Arena` — the slots of a pool where they stand

A pool that takes a text or gives one up is a new pool, and one that refuses gives none.
Here there is one arena of cells, which is written where it stands, field by field, and
nothing is taken back: whatever was written before a refusal stays written.  A cell that
becomes vacant keeps the value it had.

    allocate    looks at the cells going upward and round from the cursor, one more
                often than there are cells, and fills the first vacant one
    free        marks a cell vacant, clears its text and moves the cursor
    check       looks at all cells in turn, and writes a value where it has changed

A cell is looked at under an index.  An index of no cell ends the computation with no
arena at all, which is what `Arena.InBounds` excludes:

    run_allocate_ok, run_free_ok, run_check     the arena after it is that of the pool
    run_allocate_error, run_free_error          a refusal, and nothing written
-/
import HartMonitor.Proofs.Watch.Slot
import HartMonitor.Proofs.Watch.Sweep

namespace HartMonitor

/-- A slot where it stands.  The text and the value mean something only where it is not vacant. -/
structure Cell where
  expression : String
  last : Word
  vacant : Bool
deriving DecidableEq, Repr

def Cell.held (c : Cell) : Option Watched :=
  if c.vacant then none else some ⟨c.expression, c.last⟩

/-- The slots of a pool where they stand. -/
structure Arena where
  cells : List Cell
  cursor : Nat
  enabled : Bool
deriving DecidableEq, Repr

namespace Arena

def create (capacity : Nat) : Arena :=
  ⟨List.replicate capacity ⟨"", 0, true⟩, 0, true⟩

def pool (a : Arena) : WatchPool :=
  ⟨a.cells.map Cell.held, a.cursor, a.enabled⟩

/-- The cursor is at a cell, if there is one. -/
def InBounds (a : Arena) : Prop := 0 < a.cells.length → a.cursor < a.cells.length

/-- The arena with a cell rewritten and the cursor at it. -/
def put (a : Arena) (i : Nat) (rewrite : Cell → Cell) : Arena :=
  { a with cells := a.cells.modify i rewrite, cursor := i }

theorem capacity_pool {a : Arena} : a.pool.capacity = a.cells.length := List.length_map _

theorem pool_create (capacity : Nat) : (create capacity).pool = .create capacity := by
  rw [pool, create, List.map_replicate]
  rfl

theorem pool_put {a : Arena} {i : Nat} {rewrite : Cell → Cell} {slot : Option Watched}
    (h : ∀ c, (rewrite c).held = slot) :
    (a.put i rewrite).pool = { a.pool with slots := a.pool.slots.set i slot, cursor := i } := by
  have slots : ∀ {cells : List Cell} {i : Nat},
      (cells.modify i rewrite).map Cell.held = (cells.map Cell.held).set i slot := by
    intro cells
    induction cells with
    | nil => intro i; cases i <;> rfl
    | cons c rest ih =>
        intro i
        cases i with
        | zero => exact congrArg (· :: _) (h c)
        | succ i => exact congrArg (c.held :: ·) ih
  exact congrArg (fun slots => (⟨slots, i, a.enabled⟩ : WatchPool)) slots

end Arena

/-- A computation that changes an arena where it stands, and may be refused.  An index of no cell
leaves nothing. -/
abbrev InArena (α : Type) := ExceptT PoolError (StateT Arena Option) α

namespace InArena

/-! ## Cell by cell -/

def cellAt (i : Nat) : InArena Cell :=
  ExceptT.mk fun a => a.cells[i]?.map fun c => (.ok c, a)

/-- A field of a cell written. -/
def write (i : Nat) (field : Cell → Cell) : InArena Unit :=
  modify fun a => { a with cells := a.cells.modify i field }

def moveCursor (i : Nat) : InArena Unit :=
  modify fun a => { a with cursor := i }

/-- A text and a value put into a cell, which is then the one at the cursor. -/
def fill (text : String) (value : Word) (i : Nat) : InArena Nat := do
  write i fun c => { c with vacant := false }
  write i fun c => { c with expression := text }
  write i fun c => { c with last := value }
  moveCursor i
  return i

/-- A number of cells looked at, going upward and round from an index, and the first vacant one
filled. -/
def take (text : String) (value : Word) (capacity : Nat) : (tries i : Nat) → InArena Nat
  | 0, _ => throw (.exhausted capacity)
  | tries + 1, i => do
    let c ← cellAt i
    if c.vacant then fill text value i
    else take text value capacity tries ((i + 1) % capacity)

def allocate (text : String) (value : Word) : InArena Nat := do
  let a ← get
  if Text.trim text = "" then throw .emptyExpression
  else if WatchPool.maxExpressionBytes < text.utf8ByteSize then
    throw (.expressionTooLong text.utf8ByteSize WatchPool.maxExpressionBytes)
  else if a.cells.length = 0 then throw (.exhausted a.cells.length)
  else take text value a.cells.length (a.cells.length + 1) a.cursor

/-- A cell made vacant, and the text in it cleared; the cell is then the one at the cursor. -/
def vacate (i : Nat) : InArena Unit := do
  write i fun c => { c with vacant := true }
  write i fun c => { c with expression := "" }
  moveCursor i

def free (id : Nat) : InArena Unit := do
  let a ← get
  if id < a.cells.length then vacate id
  else throw (.noSuchSlot id)

/-- The cells from an index on looked at one after the other, behind some events. -/
def sweep (eval : String → Except ExpressionError Word) :
    (left i : Nat) → List WatchEvent → InArena (List WatchEvent)
  | 0, _, events => return events
  | left + 1, i, events => do
    let c ← cellAt i
    if c.vacant then sweep eval left (i + 1) events
    else
      match eval c.expression with
      | .error cause => throw (.lostValue i c.expression cause)
      | .ok value =>
        if value = c.last then sweep eval left (i + 1) events
        else do
          write i fun c => { c with last := value }
          sweep eval left (i + 1) (events ++ [⟨i, c.expression, c.last, value⟩])

def check (eval : String → Except ExpressionError Word) : InArena (List WatchEvent) := do
  let a ← get
  if a.enabled then sweep eval a.cells.length 0 [] else return []

/-! ## The arena after them -/

section Bind
variable {α β : Type} {x : InArena α} {f : α → InArena β} {a a' : Arena}

theorem run_bind_ok {v : α} (h : x.run.run a = some (.ok v, a')) :
    (x >>= f).run.run a = (f v).run.run a' := by
  rw [ExceptT.run_bind, StateT.run_bind, h]
  rfl

theorem run_get_bind {g : Arena → InArena β} : (get >>= g).run.run a = (g a).run.run a := rfl

theorem run_cellAt {i : Nat} {c : Cell} (h : a.cells[i]? = some c) :
    (cellAt i).run.run a = some (.ok c, a) := by
  show a.cells[i]?.map _ = _
  rw [h]
  rfl

theorem run_write {i : Nat} {field : Cell → Cell} {cells : List Cell}
    (h : a.cells.modify i field = cells) :
    (write i field).run.run a = some (.ok (), { a with cells := cells }) := by
  subst h
  rfl

end Bind

variable {a : Arena} {i : Nat} {text : String} {value : Word}

/-! ## Taking and freeing -/

theorem run_fill : (fill text value i).run.run a =
    some (.ok i, a.put i fun _ => ⟨text, value, false⟩) := by
  have written : (fill text value i).run.run a = some (.ok i, { a with
      cells := ((a.cells.modify i fun c => { c with vacant := false }).modify i
        fun c => { c with expression := text }).modify i fun c => { c with last := value }
      cursor := i }) := rfl
  rw [written, List.modify_modify_eq, List.modify_modify_eq]
  rfl

theorem run_vacate : (vacate i).run.run a = some (.ok (), a.put i fun c => ⟨"", c.last, true⟩) := by
  have written : (vacate i).run.run a = some (.ok (), { a with
      cells := (a.cells.modify i fun c => { c with vacant := true }).modify i
        fun c => { c with expression := "" }
      cursor := i }) := rfl
  rw [written, List.modify_modify_eq]
  rfl

/-- The search comes to a vacant cell behind some live ones. -/
theorem run_take_ok {k id : Nat} {c : Cell} (found : a.cells[id]? = some c)
    (vacant : c.vacant = true) :
    ∀ {tries i : Nat}, k < tries → i < a.cells.length → id = (i + k) % a.cells.length →
      (∀ j < k, ∃ c, a.cells[(i + j) % a.cells.length]? = some c ∧ c.vacant = false) →
      (take text value a.cells.length tries i).run.run a =
        some (.ok id, a.put id fun _ => ⟨text, value, false⟩) := by
  induction k with
  | zero =>
      intro tries i enough lt same _
      cases tries with
      | zero => cases enough
      | succ tries =>
          rw [Nat.add_zero, Nat.mod_eq_of_lt lt] at same
          subst same
          refine (run_bind_ok (run_cellAt found)).trans ?_
          rw [if_pos vacant, run_fill]
  | succ k ih =>
      intro tries i enough lt same before
      cases tries with
      | zero => cases enough
      | succ tries =>
          have next : ∀ j, ((i + 1) % a.cells.length + j) % a.cells.length =
              (i + (j + 1)) % a.cells.length := by
            intro j
            rw [Nat.mod_add_mod, Nat.add_assoc, Nat.add_comm 1]
          obtain ⟨c₀, here, live⟩ := before 0 (Nat.succ_pos k)
          rw [Nat.add_zero, Nat.mod_eq_of_lt lt] at here
          refine (run_bind_ok (run_cellAt here)).trans ?_
          rw [if_neg (Bool.eq_false_iff.mp live)]
          refine ih (Nat.lt_of_succ_lt_succ enough) (Nat.mod_lt _ (Nat.zero_lt_of_lt lt))
            (same.trans (next k).symm) fun j hj => ?_
          rw [next]
          exact before (j + 1) (Nat.succ_lt_succ hj)

/-- The search gives up where no cell is vacant. -/
theorem run_take_error (full : ∀ c ∈ a.cells, c.vacant = false) :
    ∀ {tries i : Nat}, i < a.cells.length →
      (take text value a.cells.length tries i).run.run a =
        some (.error (.exhausted a.cells.length), a) := by
  intro tries
  induction tries with
  | zero => intro i _; rfl
  | succ tries ih =>
      intro i lt
      have live := full _ (List.getElem_mem lt)
      refine (run_bind_ok (run_cellAt (List.getElem?_eq_getElem lt))).trans ?_
      rw [live]
      exact ih (Nat.mod_lt _ (Nat.zero_lt_of_lt lt))

theorem vacant_iff :
    a.pool.slots[i]? = some none ↔ ∃ c, a.cells[i]? = some c ∧ c.vacant = true := by
  rw [Arena.pool, List.getElem?_map, Option.map_eq_some_iff]
  refine exists_congr fun c => and_congr_right fun _ => ?_
  rw [Cell.held]
  cases c.vacant <;> simp

theorem run_allocate_ok {p : WatchPool} {id : Nat} (h : a.InBounds)
    (taken : a.pool.allocate text value = .ok (p, id)) :
    ∃ a', (allocate text value).run.run a = some (.ok id, a') ∧ a'.pool = p := by
  obtain ⟨⟨⟨c, mem, visible⟩, short⟩, ⟨k, lt, same, found, before⟩, rfl⟩ :=
    WatchPool.allocate_eq_ok.mp taken
  rw [Arena.capacity_pool] at lt same before
  have occupied : 0 < a.cells.length := Nat.zero_lt_of_lt lt
  have watchable : Text.trim text ≠ "" := by
    intro blank
    rw [Text.trim_eq_empty.mp blank c mem] at visible
    cases visible
  refine ⟨a.put id fun _ => ⟨text, value, false⟩, run_get_bind.trans ?_,
    Arena.pool_put fun _ => rfl⟩
  rw [if_neg watchable, if_neg (Nat.not_lt.mpr short), if_neg (Nat.ne_of_gt occupied)]
  obtain ⟨c, found, vacant⟩ := vacant_iff.mp found
  refine run_take_ok found vacant (Nat.lt_succ_of_lt lt) (h occupied) same fun j hj => ?_
  have live := before j hj
  have bound := Nat.mod_lt (a.cursor + j) occupied
  refine ⟨_, List.getElem?_eq_getElem bound, Bool.eq_false_iff.mpr fun vacant => live ?_⟩
  exact vacant_iff.mpr ⟨_, List.getElem?_eq_getElem bound, vacant⟩

theorem run_allocate_error {e : PoolError} (h : a.InBounds)
    (refused : a.pool.allocate text value = .error e) :
    (allocate text value).run.run a = some (.error e, a) := by
  refine run_get_bind.trans ?_
  simp only [WatchPool.allocate] at refused
  split at refused
  · next blank =>
    cases refused
    rw [if_pos blank]
    rfl
  · next visible =>
    split at refused
    · next long =>
      cases refused
      rw [if_neg visible, if_pos long]
      rfl
    · next short =>
      split at refused
      · next none =>
        cases refused
        rw [if_neg visible, if_neg short, Arena.capacity_pool]
        split
        · rfl
        · next occupied =>
          have start := h (Nat.pos_of_ne_zero occupied)
          refine run_take_error (fun c mem => Bool.eq_false_iff.mpr fun vacant => ?_) start
          -- A cell that is vacant would be met on the way round.
          obtain ⟨i, hi⟩ := List.mem_iff_getElem?.mp mem
          have lt := (List.getElem?_eq_some_iff.mp hi).1
          have met : i ∈ a.pool.searchOrder := by
            obtain ⟨k, hk, rfl⟩ := WatchPool.exists_add_mod start i lt
            exact List.mem_map.mpr ⟨k, List.mem_range.mpr (hk.trans_eq Arena.capacity_pool.symm),
              by rw [Arena.capacity_pool]; rfl⟩
          exact List.find?_eq_none.mp none i met
            (WatchPool.isVacant_iff.mpr (vacant_iff.mpr ⟨c, hi, vacant⟩))
      · cases refused

theorem run_free_ok {p : WatchPool} {id : Nat} (freed : a.pool.free id = .ok p) :
    ∃ a', (free id).run.run a = some (.ok (), a') ∧ a'.pool = p := by
  obtain ⟨lt, rfl⟩ := WatchPool.free_eq_ok.mp freed
  rw [Arena.capacity_pool] at lt
  refine ⟨a.put id fun c => ⟨"", c.last, true⟩, run_get_bind.trans ?_, Arena.pool_put fun _ => rfl⟩
  rw [if_pos lt, run_vacate]

theorem run_free_error {e : PoolError} {id : Nat} (refused : a.pool.free id = .error e) :
    (free id).run.run a = some (.error e, a) := by
  rw [WatchPool.free, Arena.capacity_pool] at refused
  refine run_get_bind.trans ?_
  split at refused
  · cases refused
  · next above =>
    cases refused
    rw [if_neg above]
    rfl

/-! ## Checking -/

def result (events : List WatchEvent) (s : Sweep) : Except PoolError (List WatchEvent) :=
  match s.failure with
  | some e => .error e
  | none => .ok (events ++ s.events)

theorem result_append {events : List WatchEvent} {e : WatchEvent} {s : Sweep} :
    result (events ++ [e]) s = result events { s with events := e :: s.events } := by
  rw [result, result]
  cases s.failure with
  | some e => rfl
  | none => simp

section Sweep
variable {eval : String → Except ExpressionError Word} {front back : List Cell} {c : Cell}
  {events : List WatchEvent}

/-- The cells behind some others are swept as the slots that they hold. -/
def Sweeps (eval : String → Except ExpressionError Word) (a : Arena) (front back : List Cell)
    (events : List WatchEvent) : Prop :=
  let s := WatchPool.sweepFrom eval front.length (back.map Cell.held)
  ∃ back' : List Cell, back'.map Cell.held = s.slots ∧
    (sweep eval back.length front.length events).run.run { a with cells := front ++ back } =
      some (result events s, { a with cells := front ++ back' })

/-- The cells behind one more. -/
theorem Sweeps.behind (h : Sweeps eval a (front ++ [c]) back events) :
    let s := WatchPool.sweepFrom eval (front.length + 1) (back.map Cell.held)
    ∃ back' : List Cell, back'.map Cell.held = s.slots ∧
      (sweep eval back.length (front.length + 1) events).run.run
          { a with cells := front ++ c :: back } =
        some (result events s, { a with cells := front ++ c :: back' }) := by
  simpa only [Sweeps, List.length_append, List.length_singleton, List.append_assoc,
    List.singleton_append] using h

theorem run_cellAt_front : (cellAt front.length).run.run { a with cells := front ++ c :: back } =
    some (.ok c, { a with cells := front ++ c :: back }) :=
  run_cellAt (a := { a with cells := front ++ c :: back }) (by simp)

theorem sweeps_of_vacant (vacant : c.vacant = true)
    (h : Sweeps eval a (front ++ [c]) back events) : Sweeps eval a front (c :: back) events := by
  obtain ⟨back', slots, ran⟩ := h.behind
  have held : c.held = none := if_pos vacant
  rw [Sweeps, List.map_cons, held]
  refine ⟨c :: back', ?_, (run_bind_ok run_cellAt_front).trans ?_⟩
  · rw [List.map_cons, held, slots]
    rfl
  · rw [if_pos vacant, ran]
    rfl

section Live
variable (live : ¬ c.vacant = true)
include live

theorem sweeps_of_error {cause : ExpressionError} (answer : eval c.expression = .error cause) :
    Sweeps eval a front (c :: back) events := by
  have held : c.held = some ⟨c.expression, c.last⟩ := if_neg live
  rw [Sweeps, List.map_cons, held, WatchPool.sweepFrom, answer]
  refine ⟨c :: back, ?_, (run_bind_ok run_cellAt_front).trans ?_⟩
  · rw [List.map_cons, held]
  · rw [if_neg live, answer]
    rfl

theorem sweeps_of_same (answer : eval c.expression = .ok c.last)
    (h : Sweeps eval a (front ++ [c]) back events) : Sweeps eval a front (c :: back) events := by
  obtain ⟨back', slots, ran⟩ := h.behind
  have held : c.held = some ⟨c.expression, c.last⟩ := if_neg live
  rw [Sweeps, List.map_cons, held, WatchPool.sweepFrom, answer]
  refine ⟨c :: back', ?_, (run_bind_ok run_cellAt_front).trans ?_⟩
  · rw [List.map_cons, held, slots]
  · simp only [if_neg live, answer, if_true]
    exact ran

/-- The value is written before the next cell is looked at. -/
theorem sweeps_of_change {value : Word} (answer : eval c.expression = .ok value)
    (change : ¬ value = c.last)
    (h : Sweeps eval a (front ++ [{ c with last := value }]) back
      (events ++ [⟨front.length, c.expression, c.last, value⟩])) :
    Sweeps eval a front (c :: back) events := by
  obtain ⟨back', slots, ran⟩ := h.behind
  have held : c.held = some ⟨c.expression, c.last⟩ := if_neg live
  have renewed : Cell.held { c with last := value } = some ⟨c.expression, value⟩ := if_neg live
  have written : (front ++ c :: back).modify front.length (fun c => { c with last := value }) =
      front ++ { c with last := value } :: back :=
    List.modifyTailIdx_add _ 0 front (c :: back)
  rw [Sweeps, List.map_cons, held, WatchPool.sweepFrom, answer]
  refine ⟨{ c with last := value } :: back', ?_, (run_bind_ok run_cellAt_front).trans ?_⟩
  · rw [List.map_cons, renewed, slots]
  · simp only [if_neg live, answer, if_neg change]
    refine (run_bind_ok (run_write written)).trans (ran.trans ?_)
    rw [result_append]
    rfl

end Live

theorem run_sweep : ∀ {front : List Cell} {events : List WatchEvent},
    Sweeps eval a front back events := by
  induction back with
  | nil =>
      intro front events
      refine ⟨[], rfl, ?_⟩
      simp only [result, List.map_nil, WatchPool.sweepFrom, List.append_nil]
      rfl
  | cons c back ih =>
      intro front events
      by_cases vacant : c.vacant = true
      · exact sweeps_of_vacant vacant ih
      · cases answer : eval c.expression with
        | error cause => exact sweeps_of_error vacant answer
        | ok value =>
            by_cases same : value = c.last
            · subst same
              exact sweeps_of_same vacant answer ih
            · exact sweeps_of_change vacant answer same ih

/-- An arena is swept as the pool that it holds, also where the sweep stops. -/
theorem run_check : ∃ a', (check eval).run.run a = some ((a.pool.check eval).2, a') ∧
    a'.pool = (a.pool.check eval).1 := by
  by_cases on : a.enabled = true
  · have swept : a.pool.sweep eval = WatchPool.sweepFrom eval 0 a.pool.slots := if_pos on
    obtain ⟨cells, slots, ran⟩ := @run_sweep a eval a.cells [] []
    refine ⟨{ a with cells := cells }, run_get_bind.trans ?_, ?_⟩
    · rw [if_pos on, WatchPool.check, swept]
      exact ran
    · rw [WatchPool.check, swept, Arena.pool, slots]
      rfl
  · have idle : a.pool.sweep eval = ⟨a.pool.slots, [], [], none⟩ := if_neg on
    refine ⟨a, run_get_bind.trans ?_, ?_⟩
    · rw [if_neg on, WatchPool.check, idle]
      rfl
    · rw [WatchPool.check, idle]

end Sweep

end InArena

end HartMonitor
