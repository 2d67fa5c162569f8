/-
# `HartMonitor.Proofs.Watch.Callback` — a sweep, question by question

A sweep asks for the value of one expression after another.  Whoever answers may answer by
what was asked before (`Callback`): the same text need not have the same value twice.  The
answers to the live slots are either all there (`Answers`), or there is a first one that is
missing (`answers_or_loses`), and that is all a sweep goes by (`sweepFromBy_eq`):

    answers        all there              the first missing at `w`
    asked          every text             the texts up to that of `w`
    events         the changes            none; `w` is named
    slots          renewed                renewed before `w`, kept from `w` on

Callbacks that answer by the text alone are the ones that `check` takes (`checkBy_const`).
-/
import HartMonitor.Proofs.Watch.Slot
import HartMonitor.Proofs.Watch.Sweep

namespace HartMonitor

/-- Whoever is asked for the value of a text, after some other texts. -/
abbrev Callback := List String → String → Except ExpressionError Word

def Callback.after (call : Callback) (texts : List String) : Callback :=
  fun asked => call (texts ++ asked)

/-- The answers to the texts of some watchpoints, asked one after the other. -/
inductive Answers : Callback → List Watchpoint → List Word → Prop
  | nil {call : Callback} : Answers call [] []
  | cons {call : Callback} {w : Watchpoint} {ws : List Watchpoint} {v : Word} {vs : List Word} :
      call [] w.expression = .ok v → Answers (call.after [w.expression]) ws vs →
      Answers call (w :: ws) (v :: vs)

/-- The first answer that is missing is that to the text of `w`. -/
structure Loses (call : Callback) (before : List Watchpoint) (values : List Word) (w : Watchpoint)
    (cause : ExpressionError) : Prop where
  answers : Answers call before values
  failed : call (before.map (·.expression)) w.expression = .error cause

def changesTo (ws : List Watchpoint) (values : List Word) : List WatchEvent :=
  (ws.zip values).filterMap fun (w, v) =>
    if v = w.last then none else some ⟨w.id, w.expression, w.last, v⟩

def renew (ws : List Watchpoint) (values : List Word) : List Watchpoint :=
  ws.zipWith (fun w v => { w with last := v }) values

namespace WatchPool

/-- A sweep over some slots, the first of which has the number `id`, with a callback. -/
def sweepFromBy (call : Callback) (id : Nat) : List (Option Watched) → Sweep
  | [] => ⟨[], [], [], none⟩
  | none :: rest =>
    let s := sweepFromBy call (id + 1) rest
    { s with slots := none :: s.slots }
  | some w :: rest =>
    match call [] w.expression with
    | .error cause =>
      ⟨some w :: rest, [w.expression], [], some (.lostValue id w.expression cause)⟩
    | .ok value =>
      let s := sweepFromBy (call.after [w.expression]) (id + 1) rest
      { slots := some { w with last := value } :: s.slots
        evaluated := w.expression :: s.evaluated
        events :=
          if value = w.last then s.events else ⟨id, w.expression, w.last, value⟩ :: s.events
        failure := s.failure }

def sweepBy (p : WatchPool) (call : Callback) : Sweep :=
  if p.enabled then sweepFromBy call 0 p.slots else ⟨p.slots, [], [], none⟩

/-- The pool after a sweep with a callback, and its events or the watchpoint it stopped at. -/
def checkBy (p : WatchPool) (call : Callback) : WatchPool × Except PoolError (List WatchEvent) :=
  let s := p.sweepBy call
  ({ p with slots := s.slots },
    match s.failure with
    | some e => .error e
    | none => .ok s.events)

/-- A pool is another one, up to what its live slots hold. -/
structure Renewed (p p' : WatchPool) (live : List Watchpoint) : Prop where
  toList : p'.toList = live
  capacity : p'.capacity = p.capacity
  cursor : p'.cursor = p.cursor
  enabled : p'.enabled = p.enabled

variable {slots : List (Option Watched)}

/-! ## Answers by the text alone -/

theorem sweepFromBy_const {eval : String → Except ExpressionError Word} :
    ∀ {id : Nat}, sweepFromBy (fun _ => eval) id slots = sweepFrom eval id slots := by
  induction slots with
  | nil => intro id; rfl
  | cons slot rest ih =>
      intro id
      have later : ∀ text, Callback.after (fun _ => eval) [text] = fun _ => eval := fun _ => rfl
      cases slot with
      | none => simp only [sweepFromBy, sweepFrom, ih]
      | some w =>
          cases answer : eval w.expression with
          | error cause => simp only [sweepFromBy, sweepFrom, answer]
          | ok value => simp only [sweepFromBy, sweepFrom, answer, later, ih]

/-- A sweep of the pool is one with a callback that remembers nothing. -/
theorem checkBy_const (p : WatchPool) (eval : String → Except ExpressionError Word) :
    p.sweepBy (fun _ => eval) = p.sweep eval ∧ p.checkBy (fun _ => eval) = p.check eval := by
  have same : p.sweepBy (fun _ => eval) = p.sweep eval := by
    rw [sweepBy, sweep, sweepFromBy_const]
  refine ⟨same, ?_⟩
  unfold checkBy check
  exact same ▸ rfl

end WatchPool

/-! ## Answers, changes and what is renewed -/

theorem Callback.after_after (call : Callback) (asked texts : List String) :
    (call.after asked).after texts = call.after (asked ++ texts) := by
  funext later
  simp only [after, List.append_assoc]

/-- Every watchpoint has an answer, or there is a first one that has none. -/
theorem answers_or_loses (ws : List Watchpoint) : ∀ call : Callback,
    (∃ values, Answers call ws values) ∨
      ∃ before w behind values cause, ws = before ++ w :: behind ∧
        Loses call before values w cause := by
  induction ws with
  | nil => exact fun _ => .inl ⟨[], .nil⟩
  | cons w ws ih =>
      intro call
      cases answer : call [] w.expression with
      | error cause => exact .inr ⟨[], w, ws, [], cause, rfl, ⟨.nil, answer⟩⟩
      | ok v =>
          rcases ih (call.after [w.expression]) with
            ⟨vs, answers⟩ | ⟨before, lost, behind, vs, cause, rfl, answers, failed⟩
          · exact .inl ⟨v :: vs, .cons answer answers⟩
          · exact .inr ⟨w :: before, lost, behind, v :: vs, cause, rfl,
              ⟨.cons answer answers, failed⟩⟩

section Lists
variable {ws : List Watchpoint} {values : List Word}

theorem changesTo_cons {w : Watchpoint} {v : Word} :
    changesTo (w :: ws) (v :: values) =
      if v = w.last then changesTo ws values
      else ⟨w.id, w.expression, w.last, v⟩ :: changesTo ws values := by
  by_cases same : v = w.last
  · simp [changesTo, same]
  · simp [changesTo, same]

theorem changesTo_renew : changesTo (renew ws values) values = [] := by
  rw [changesTo, List.filterMap_eq_nil_iff]
  induction ws generalizing values with
  | nil => exact nofun
  | cons w ws ih =>
      cases values with
      | nil => exact nofun
      | cons v vs => simpa [renew] using ih

theorem renew_renew : renew (renew ws values) values = renew ws values := by
  induction ws generalizing values with
  | nil => rfl
  | cons w ws ih =>
      cases values with
      | nil => rfl
      | cons v vs => exact congrArg (_ :: ·) ih

end Lists

/-! ## Slots and their list -/

namespace WatchPool

variable {call : Callback} {p q q' : WatchPool} {live : List Watchpoint}

/-- Slots are as many as they are, and hold what their list says. -/
theorem liveFrom_injective {slots : List (Option Watched)} :
    ∀ {slots' : List (Option Watched)} {id : Nat}, slots.length = slots'.length →
      liveFrom id slots = liveFrom id slots' → slots = slots' := by
  -- The first entry of a list of later slots has a larger number than this slot.
  have later : ∀ {rest : List (Option Watched)} {id : Nat} {w : Watched} {ws : List Watchpoint},
      liveFrom (id + 1) rest ≠ ⟨id, w.expression, w.last⟩ :: ws := by
    intro rest id w ws eq
    have mem : (⟨id, w.expression, w.last⟩ : Watchpoint) ∈ liveFrom (id + 1) rest := by
      rw [eq]
      exact List.mem_cons_self
    obtain ⟨j, number, -⟩ := mem_liveFrom.mp mem
    simp only at number
    omega
  induction slots with
  | nil =>
      intro slots' id length _
      exact (List.length_eq_zero_iff.mp length.symm).symm
  | cons slot rest ih =>
      intro slots' id length eq
      cases slots' with
      | nil => cases length
      | cons slot' rest' =>
          have shorter : rest.length = rest'.length := Nat.succ.inj length
          match slot, slot' with
          | none, none => rw [ih shorter eq]
          | none, some _ => exact absurd eq later
          | some _, none => exact absurd eq.symm later
          | some ⟨_, _⟩, some ⟨_, _⟩ =>
              obtain ⟨head, tail⟩ := List.cons_eq_cons.mp eq
              cases head
              rw [ih shorter tail]

theorem Renewed.unique (h : p.Renewed q live) (h' : p.Renewed q' live) : q = q' := by
  obtain ⟨slots, cursor, enabled⟩ := q
  obtain ⟨slots', cursor', enabled'⟩ := q'
  have same : slots = slots' :=
    liveFrom_injective (h.capacity.trans h'.capacity.symm) (h.toList.trans h'.toList.symm)
  cases same
  cases h.cursor.trans h'.cursor.symm
  cases h.enabled.trans h'.enabled.symm
  rfl

/-- How a sweep ends that has come to some watchpoints, with the texts that it asks for there. -/
inductive Ends (call : Callback) : List Watchpoint → List String → Option PoolError → Prop
  | complete : Ends call [] [] none
  | lost {w : Watchpoint} {behind : List Watchpoint} {cause : ExpressionError} :
      call [] w.expression = .error cause →
      Ends call (w :: behind) [w.expression] (some (.lostValue w.id w.expression cause))

/-- A sweep goes by the answers, and by nothing else. -/
theorem sweepFromBy_eq {slots : List (Option Watched)} :
    ∀ {call : Callback} {id : Nat} {before rest : List Watchpoint} {values : List Word}
      {asked : List String} {failure : Option PoolError},
      liveFrom id slots = before ++ rest → Answers call before values →
      Ends (call.after (before.map (·.expression))) rest asked failure →
      liveFrom id (sweepFromBy call id slots).slots = renew before values ++ rest ∧
        (sweepFromBy call id slots).slots.length = slots.length ∧
        (sweepFromBy call id slots).evaluated = before.map (·.expression) ++ asked ∧
        (sweepFromBy call id slots).events = changesTo before values ∧
        (sweepFromBy call id slots).failure = failure := by
  induction slots with
  | nil =>
      intro call id before rest values asked failure live answers ends
      obtain ⟨rfl, rfl⟩ := List.append_eq_nil_iff.mp live.symm
      cases answers
      cases ends
      exact ⟨rfl, rfl, rfl, rfl, rfl⟩
  | cons slot slots ih =>
      intro call id before rest values asked failure live answers ends
      cases slot with
      | none =>
          obtain ⟨listed, length, evaluated, events, failed⟩ := ih live answers ends
          exact ⟨listed, congrArg (· + 1) length, evaluated, events, failed⟩
      | some w =>
          cases answers with
          | nil =>
              -- The first live slot that is left is the one that ends the sweep.
              cases ends with
              | complete => cases live
              | lost failed =>
                  cases live
                  have failed : call [] w.expression = .error _ := failed
                  simp [sweepFromBy, failed, liveFrom, renew, changesTo]
          | cons answer answers =>
              obtain ⟨rfl, left⟩ := List.cons_eq_cons.mp live
              rw [List.map_cons, ← List.singleton_append, ← Callback.after_after] at ends
              obtain ⟨listed, length, evaluated, events, failed⟩ := ih left answers ends
              have answer : call [] w.expression = .ok _ := answer
              simp only [sweepFromBy, answer]
              refine ⟨congrArg (_ :: ·) listed, congrArg (· + 1) length,
                congrArg (_ :: ·) evaluated, ?_, failed⟩
              rw [events, changesTo_cons]

/-! ## The pool after a sweep -/

theorem checkBy_of_disabled (disabled : p.enabled = false) :
    p.sweepBy call = ⟨p.slots, [], [], none⟩ ∧ p.checkBy call = (p, .ok []) := by
  have idle : p.sweepBy call = ⟨p.slots, [], [], none⟩ := by
    rw [sweepBy, disabled]
    rfl
  refine ⟨idle, ?_⟩
  rw [checkBy, idle]

section Enabled
variable {before behind : List Watchpoint} {w : Watchpoint} {values : List Word}
  (enabled : p.enabled = true)
include enabled

/-- Every live slot has an answer: the changes are told, and every slot has the value that came. -/
theorem checkBy_of_answers (answers : Answers call p.toList values) :
    (p.sweepBy call).evaluated = p.toList.map (·.expression) ∧
      (p.checkBy call).2 = .ok (changesTo p.toList values) ∧
      p.Renewed (p.checkBy call).1 (renew p.toList values) := by
  have all : p.toList = p.toList ++ [] := (List.append_nil _).symm
  obtain ⟨listed, length, evaluated, events, failed⟩ := sweepFromBy_eq all answers .complete
  rw [List.append_nil] at listed evaluated
  simp only [checkBy, sweepBy, enabled, if_true]
  refine ⟨evaluated, ?_, ⟨listed, length, rfl, enabled.symm⟩⟩
  rw [failed, events]

/-- A live slot has no answer: it is named, and the slots from it on are as they were. -/
theorem checkBy_of_loses {cause : ExpressionError} (live : p.toList = before ++ w :: behind)
    (loses : Loses call before values w cause) :
    (p.sweepBy call).evaluated = (before ++ [w]).map (·.expression) ∧
      (p.checkBy call).2 = .error (.lostValue w.id w.expression cause) ∧
      p.Renewed (p.checkBy call).1 (renew before values ++ w :: behind) := by
  have ends : Ends (call.after (before.map (·.expression))) (w :: behind) [w.expression]
      (some (.lostValue w.id w.expression cause)) := by
    refine .lost ?_
    rw [Callback.after, List.append_nil, loses.failed]
  obtain ⟨listed, length, evaluated, events, failed⟩ := sweepFromBy_eq live loses.answers ends
  simp only [checkBy, sweepBy, enabled, if_true]
  refine ⟨?_, ?_, ⟨listed, length, rfl, enabled.symm⟩⟩
  · rw [evaluated, List.map_append]
    rfl
  · rw [failed]

theorem checkBy_again {again : Callback} (answers : Answers call p.toList values)
    (same : Answers again (p.checkBy call).1.toList values) :
    (p.checkBy call).1.checkBy again = ((p.checkBy call).1, .ok []) := by
  obtain ⟨-, -, renewed⟩ := checkBy_of_answers enabled answers
  obtain ⟨-, outcome, kept⟩ := checkBy_of_answers (renewed.enabled.trans enabled) same
  rw [renewed.toList, renew_renew] at kept
  rw [renewed.toList, changesTo_renew] at outcome
  exact Prod.ext (kept.unique ⟨renewed.toList, rfl, rfl, rfl⟩) outcome

end Enabled

end WatchPool

end HartMonitor
