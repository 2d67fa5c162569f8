/-
# `HartMonitor.Watch.Pool` — watched expressions in a fixed number of slots

A slot is vacant, or it holds an expression and the value last seen for it; the
number of the slot is the id of the watchpoint.  A new expression takes the first
vacant slot going upward and round from the cursor, which stays where a slot was last
taken or freed.

A sweep evaluates every live expression in the order of ids.  Each value that differs
from the one last seen is an event; it becomes the one last seen.  A sweep stops at
the first expression that has no value any more: what came before it is kept, what
comes after it is not looked at.
-/
import HartMonitor.Expression.Error
import HartMonitor.Text.Blank

namespace HartMonitor

/-- Why the pool refuses something. -/
inductive PoolError where
  /-- No slot is vacant. -/
  | exhausted (capacity : Nat)
  /-- No slot has this number. -/
  | noSuchSlot (id : Nat)
  /-- An expression of blanks. -/
  | emptyExpression
  /-- An expression of too many bytes. -/
  | expressionTooLong (len max : Nat)
  /-- A watched expression has no value any more. -/
  | lostValue (id : Nat) (expression : String) (cause : ExpressionError)
deriving DecidableEq, Repr

namespace PoolError

def isFatal : PoolError → Bool
  | lostValue .. => true
  | _ => false

/-- The wording of a refusal. -/
def message : PoolError → String
  | exhausted capacity => "no free watchpoint slot (" ++ toString capacity ++ " in use)"
  | noSuchSlot id => "watchpoint " ++ toString id ++ " does not exist"
  | emptyExpression => "empty watch expression"
  | expressionTooLong len max =>
    "watch expression is " ++ toString len ++ " bytes, at most " ++ toString max ++ " allowed"
  | lostValue id expression cause =>
    "watchpoint " ++ toString id ++ " ('" ++ expression ++ "') can no longer be evaluated: "
      ++ cause.message

end PoolError

/-- An expression in a slot, and the value last seen for it. -/
structure Watched where
  expression : String
  last : Word
deriving DecidableEq, Repr

/-- A live slot, with its number. -/
structure Watchpoint where
  id : Nat
  expression : String
  last : Word
deriving DecidableEq, Repr

/-- A change of a watched value. -/
structure WatchEvent where
  id : Nat
  expression : String
  old : Word
  new : Word
deriving DecidableEq, Repr

/-- Slots for watched expressions. -/
structure WatchPool where
  slots : List (Option Watched)
  cursor : Nat
  enabled : Bool
deriving DecidableEq, Repr

/-- What a sweep over some slots did: the slots after it, the expressions it evaluated, the events,
and the watchpoint it stopped at, if it did. -/
structure Sweep where
  slots : List (Option Watched)
  evaluated : List String
  events : List WatchEvent
  failure : Option PoolError
deriving DecidableEq, Repr

namespace WatchPool

def defaultCapacity : Nat := 32

def maxExpressionBytes : Nat := 64

def create (capacity : Nat) : WatchPool :=
  ⟨List.replicate capacity none, 0, true⟩

def capacity (p : WatchPool) : Nat := p.slots.length

def isVacant (p : WatchPool) (id : Nat) : Bool :=
  p.slots[id]? == some none

/-- The numbers of all slots, going upward and round from the cursor. -/
def searchOrder (p : WatchPool) : List Nat :=
  (List.range p.capacity).map fun k => (p.cursor + k) % p.capacity

/-- The pool with an expression in a vacant slot, and the number of that slot. -/
def allocate (p : WatchPool) (expression : String) (initial : Word) :
    Except PoolError (WatchPool × Nat) :=
  if Text.trim expression = "" then .error .emptyExpression
  else if maxExpressionBytes < expression.utf8ByteSize then
    .error (.expressionTooLong expression.utf8ByteSize maxExpressionBytes)
  else
    match p.searchOrder.find? p.isVacant with
    | none => .error (.exhausted p.capacity)
    | some id =>
      .ok ({ p with slots := p.slots.set id (some ⟨expression, initial⟩), cursor := id }, id)

/-- The pool with a slot vacant, whether it was live or not. -/
def free (p : WatchPool) (id : Nat) : Except PoolError WatchPool :=
  if id < p.capacity then .ok { p with slots := p.slots.set id none, cursor := id }
  else .error (.noSuchSlot id)

/-- The live slots among some slots, the first of which has the number `id`. -/
def liveFrom (id : Nat) : List (Option Watched) → List Watchpoint
  | [] => []
  | none :: rest => liveFrom (id + 1) rest
  | some w :: rest => ⟨id, w.expression, w.last⟩ :: liveFrom (id + 1) rest

def toList (p : WatchPool) : List Watchpoint :=
  liveFrom 0 p.slots

def inUse (p : WatchPool) : Nat :=
  p.slots.countP Option.isSome

def setEnabled (p : WatchPool) (on : Bool) : WatchPool :=
  { p with enabled := on }

/-- A sweep over some slots, the first of which has the number `id`. -/
def sweepFrom (eval : String → Except ExpressionError Word) (id : Nat) :
    List (Option Watched) → Sweep
  | [] => ⟨[], [], [], none⟩
  | none :: rest =>
    let s := sweepFrom eval (id + 1) rest
    { s with slots := none :: s.slots }
  | some w :: rest =>
    match eval w.expression with
    | .error cause =>
      ⟨some w :: rest, [w.expression], [], some (.lostValue id w.expression cause)⟩
    | .ok value =>
      let s := sweepFrom eval (id + 1) rest
      { slots := some { w with last := value } :: s.slots
        evaluated := w.expression :: s.evaluated
        events :=
          if value = w.last then s.events else ⟨id, w.expression, w.last, value⟩ :: s.events
        failure := s.failure }

/-- A sweep over the pool; nothing is done where sweeping is turned off. -/
def sweep (p : WatchPool) (eval : String → Except ExpressionError Word) : Sweep :=
  if p.enabled then sweepFrom eval 0 p.slots else ⟨p.slots, [], [], none⟩

/-- The pool after a sweep, and its events or the watchpoint it stopped at. -/
def check (p : WatchPool) (eval : String → Except ExpressionError Word) :
    WatchPool × Except PoolError (List WatchEvent) :=
  let s := p.sweep eval
  ({ p with slots := s.slots },
    match s.failure with
    | some e => .error e
    | none => .ok s.events)

end WatchPool

end HartMonitor
