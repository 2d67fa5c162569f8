/-
# `HartMonitor.Simulator` — a machine under observation

A simulator holds a machine, the pool of watched expressions, the statistics and the
state of the run.  Every operation is a function on simulators.  `step n` takes up to
`n` turns; a turn executes one instruction and then sweeps the pool:

    the turn …                                    goes on    state afterwards
    executes, and no watched value changes        yes        running
    executes, and some watched value changes      no         stopped
    meets the breakpoint instruction              no         ended
    traps otherwise                               no         aborted
    executes, and a watched value is lost         no         aborted

When the turns are used up the run is stopped.  A breakpoint counts as executed; a
turn that aborts does not return its report.  Evaluating an expression can abort the
run too, where the error is a fatal one.  Nothing is executed once a run has ended
or was aborted.
-/
import HartMonitor.Config
import HartMonitor.Image
import HartMonitor.Machine.Step
import HartMonitor.Statistics
import HartMonitor.Watch

namespace HartMonitor

/-- Where a run stands. -/
inductive RunStatus where
  /-- In the middle of a turn. -/
  | running
  /-- Ready to go on. -/
  | stopped
  /-- At the breakpoint instruction, with the exit code of the program. -/
  | ended (pc code : Word)
  /-- At a fatal error. -/
  | aborted (pc : Word)
  /-- Left by the user. -/
  | quit
deriving DecidableEq, Repr

namespace RunStatus

def isFinished : RunStatus → Bool
  | ended .. | aborted _ => true
  | _ => false

/-- Whether a session that leaves a run there was a success. -/
def isSuccess : RunStatus → Bool
  | ended _ code => code == 0
  | quit => true
  | _ => false

/-- The line that tells how a finished run came to its end. -/
def endLine? : RunStatus → Option String
  | ended pc code =>
    if code = 0 then some ("HIT GOOD TRAP at pc = " ++ Text.address pc)
    else some ("HIT BAD TRAP at pc = " ++ Text.address pc ++ " (a0 = " ++ toString code.toNat ++ ")")
  | aborted pc => some ("ABORT at pc = " ++ Text.address pc)
  | _ => none

end RunStatus

/-- Why a simulator cannot go on. -/
inductive RunError where
  | trap (t : Trap)
  | expression (e : ExpressionError)
  /-- A watched expression has no value any more. -/
  | lostWatchpoint (id : Nat) (expression : String) (cause : ExpressionError)
  | watch (e : PoolError)
  | load (e : ImageError)
deriving DecidableEq, Repr

namespace RunError

def ofWatch : PoolError → RunError
  | .lostValue id text cause => lostWatchpoint id text cause
  | e => watch e

/-- The wording of an error. -/
def message : RunError → String
  | trap t => t.message
  | expression e => e.message
  | lostWatchpoint id text cause =>
    "watchpoint " ++ toString id ++ " ('" ++ text ++ "') failed to re-evaluate: "
      ++ cause.message
  | watch e => e.message
  | load e => e.message

/-- The wording of an error and of the one behind it. -/
def chain : RunError → String
  | lostWatchpoint id text cause =>
    (lostWatchpoint id text cause).message ++ ": " ++ cause.message
  | e => e.message

end RunError

/-- Why memory is not shown. -/
inductive RangeError where
  | expression (e : ExpressionError)
  /-- The range is not wholly physical and in the window of memory. -/
  | outOfWindow (addr len : Word)
deriving DecidableEq, Repr

def RangeError.message : RangeError → String
  | expression e => e.message
  | outOfWindow addr len =>
    "range " ++ Text.address addr ++ " + " ++ toString len.toNat ++ " leaves the physical window"

/-- What some turns did: how many instructions they executed, the watch events that stopped them,
the instructions themselves where there were few, and the state of the run. -/
structure RunReport where
  executed : Nat
  events : List WatchEvent
  steps : List Step
  state : RunStatus
deriving DecidableEq, Repr

/-- A machine under observation. -/
structure Simulator where
  machine : Machine
  tracing : Bool
  watches : WatchPool
  statistics : Statistics
  state : RunStatus

/-- How a turn came out. -/
inductive Turn where
  | went (step : Step)
  | fired (step : Step) (events : List WatchEvent)
  | ended
  | failed (e : RunError)
deriving DecidableEq, Repr

namespace Simulator

/-- The number of turns that means no limit. -/
def forever : Nat := (1 <<< 64) - 1

def maxKeptSteps : Nat := 10

/-- A simulator with nothing loaded. -/
def create (config : Config) : Simulator where
  machine := {
    regs := Registers.zeros
    pc := config.general.startPc
    memory := Memory.create config.memory.ramBase config.memory.ramSize }
  tracing := config.general.traceInstructions
  watches := (WatchPool.create WatchPool.defaultCapacity).setEnabled
    config.monitor.watchpointsEnabled
  statistics := Statistics.zero
  state := .stopped

def abort (s : Simulator) : Simulator :=
  { s with state := .aborted s.machine.pc }

def quit (s : Simulator) : Simulator :=
  { s with state := .quit }

/-- The simulator with an image in memory and `pc` at its entry.  Where the image does not fit, the
segments before the first misfit stay, and `pc` does not move. -/
def loadImage (s : Simulator) (image : Image) : Simulator × Except ImageError Unit :=
  let (memory, outcome) := image.place s.machine.memory
  match outcome with
  | .error e => ({ s with machine := { s.machine with memory := memory } }, .error e)
  | .ok () =>
    let pc := image.entry.getD s.machine.pc
    ({ s with machine := { s.machine with memory := memory, pc := pc } }, .ok ())

/-! ## Running -/

/-- The simulator with the pool swept after an instruction, and how the turn came out. -/
def observe (s : Simulator) (step : Step) : Simulator × Turn :=
  match s.watches.checkIn s.machine with
  | (watches, .error e) => (({ s with watches := watches }).abort, .failed (.ofWatch e))
  | (watches, .ok []) => ({ s with watches := watches }, .went step)
  | (watches, .ok events) =>
    ({ s with
        watches := watches
        statistics := s.statistics.addHits events.length
        state := .stopped },
      .fired step events)

/-- The simulator after one instruction and a sweep, and how the turn came out. -/
def turn (s : Simulator) : Simulator × Turn :=
  match s.machine.step with
  | (machine, .ok step) =>
    ({ s with machine := machine, statistics := s.statistics.record step.inst }).observe step
  | (machine, .error (.breakpoint pc code)) =>
    ({ s with
        machine := machine
        statistics := s.statistics.recordBreakpoint
        state := .ended pc code },
      .ended)
  | (machine, .error t) => (({ s with machine := machine }).abort, .failed (.trap t))

end Simulator

/-- A report with one more instruction executed, and kept where `keep` says so. -/
def RunReport.add (r : RunReport) (keep : Bool) (step : Step) : RunReport :=
  { r with
    executed := r.executed + 1
    steps := if keep then r.steps ++ [step] else r.steps }

namespace Simulator

/-- The simulator after up to `n` turns, and the report continued by what they did. -/
def run (keep : Bool) : Nat → Simulator → RunReport → Simulator × Except RunError RunReport
  | 0, s, report => (s, .ok report)
  | n + 1, s, report =>
    match s.turn with
    | (s, .went step) => run keep n s (report.add keep step)
    | (s, .fired step events) => (s, .ok { report.add keep step with events := events })
    | (s, .ended) => (s, .ok { report with executed := report.executed + 1 })
    | (s, .failed e) => (s, .error e)

def settle (s : Simulator) : Simulator :=
  if s.state = .running then { s with state := .stopped } else s

/-- The simulator after up to `n` turns, and a report of them. -/
def step (s : Simulator) (n : Nat) : Simulator × Except RunError RunReport :=
  if s.state.isFinished then (s, .ok ⟨0, [], [], s.state⟩)
  else
    let (s, outcome) :=
      run (decide (n ≤ maxKeptSteps)) n { s with state := .running } ⟨0, [], [], .running⟩
    let s := s.settle
    (s, outcome.map fun report => { report with state := s.state })

/-! ## Looking and watching -/

/-- The value of an expression; a fatal error aborts the run. -/
def evaluate (s : Simulator) (text : String) : Simulator × Except ExpressionError Word :=
  match HartMonitor.evaluate s.machine text with
  | .ok value => (s, .ok value)
  | .error e => (if e.isFatal then s.abort else s, .error e)

/-- The simulator with an expression watched, and its id; a fatal error aborts the run. -/
def watch (s : Simulator) (text : String) : Simulator × Except WatchFailure Nat :=
  match s.watches.watch s.machine text with
  | .ok (watches, id) => ({ s with watches := watches }, .ok id)
  | .error e => (if e.isFatal then s.abort else s, .error e)

def unwatch (s : Simulator) (id : Nat) : Simulator × Except PoolError Unit :=
  match s.watches.free id with
  | .ok watches => ({ s with watches := watches }, .ok ())
  | .error e => (s, .error e)

def toggle (s : Simulator) (on : Bool) : Simulator :=
  { s with watches := s.watches.setEnabled on }

def registers (s : Simulator) : List (String × Word) :=
  s.machine.regs.listing ++ [("pc", s.machine.pc)]

/-- The bytes of a range, if it is physical and in the window of memory. -/
def bytesIn (s : Simulator) (addr len : Word) : Except RangeError (List Byte) :=
  if Physical.containsRange addr len.toNat then
    match s.machine.memory.bytes addr len.toNat with
    | .ok bytes => .ok bytes
    | .error _ => .error (.outOfWindow addr len)
  else .error (.outOfWindow addr len)

/-- The address and the bytes of a range given by two expressions, its length and its address,
evaluated in this order. -/
def examine (s : Simulator) (count addr : String) :
    Simulator × Except RangeError (Word × List Byte) :=
  match s.evaluate count with
  | (s, .error e) => (s, .error (.expression e))
  | (s, .ok len) =>
    match s.evaluate addr with
    | (s, .error e) => (s, .error (.expression e))
    | (s, .ok start) => (s, (s.bytesIn start len).map fun bytes => (start, bytes))

end Simulator

end HartMonitor
