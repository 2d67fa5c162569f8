/-
# `HartMonitor.Watch` — watching expressions of a machine

The pool of watched expressions with the state of a machine in place of an arbitrary
way to evaluate them.
-/
import HartMonitor.Expression.Evaluation
import HartMonitor.Watch.Pool

namespace HartMonitor

/-- Why an expression is not watched. -/
inductive WatchFailure where
  /-- It has no value now. -/
  | expression (e : ExpressionError)
  /-- The pool does not take it. -/
  | pool (e : PoolError)
deriving DecidableEq, Repr

namespace WatchFailure

def isFatal : WatchFailure → Bool
  | expression e => e.isFatal
  | pool e => e.isFatal

def message : WatchFailure → String
  | expression e => e.message
  | pool e => e.message

end WatchFailure

namespace WatchPool

/-- The pool with an expression watched from its value in a machine state on, and its id. -/
def watch (p : WatchPool) (m : Machine) (text : String) :
    Except WatchFailure (WatchPool × Nat) :=
  match evaluate m text with
  | .error e => .error (.expression e)
  | .ok value =>
    match p.allocate text value with
    | .error e => .error (.pool e)
    | .ok watched => .ok watched

/-- The pool after a sweep in a machine state, and its events or the watchpoint it stopped at. -/
def checkIn (p : WatchPool) (m : Machine) : WatchPool × Except PoolError (List WatchEvent) :=
  p.check (evaluate m)

end WatchPool

end HartMonitor
