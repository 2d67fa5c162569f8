/-
# `HartMonitor.Shell` — commands on a simulator, line by line

A line is a command and its argument, cut at the first blank.  Answering a line gives
the text to print, the shell afterwards and whether the session goes on:

    help [name]   c   q   p EXPR   w EXPR   si [N]   info r|w   x N EXPR   d N   wp on|off

A line of blanks is passed over, and so is what no command understands, after a word
on it.  A fatal error ends the session.  When a run has come to its end, its last line
and the statistics are printed, once.
-/
import HartMonitor.Instruction.Disassembly
import HartMonitor.Shell.Dump
import HartMonitor.Simulator
import HartMonitor.Text.Blank
import HartMonitor.Text.Lines
import HartMonitor.Text.Numeral

namespace HartMonitor

/-- A simulator, and whether the end of its run has been told. -/
structure Shell where
  simulator : Simulator
  reported : Bool := false

namespace Shell

/-- Why a session ends early. -/
inductive Fatal where
  | simulator (e : RunError)
  | watch (e : WatchFailure)
  /-- A line of the input is not UTF-8. -/
  | notUtf8
deriving DecidableEq, Repr

/-- The wording of a fatal error and of the one behind it. -/
def Fatal.message : Fatal → String
  | simulator e => e.chain
  | watch e => e.message
  | notUtf8 => "stream did not contain valid UTF-8"

/-- Whether a session goes on. -/
inductive Flow where
  | proceed
  | leave
  | fail (e : Fatal)
deriving DecidableEq, Repr

/-- An answer: what is printed, the shell afterwards, and whether the session goes on. -/
structure Reply where
  output : String
  shell : Shell
  flow : Flow := .proceed

def prompt : String := "(rvsdb) "

/-- The commands and what they do. -/
def commands : List (String × String) := [
  ("help", "Display information about all supported commands"),
  ("c", "Continue the execution of the program"),
  ("q", "Exit the debugger"),
  ("p", "Print the value of the expression"),
  ("w", "Watch the value of the expression, and break when it changes"),
  ("si", "Execute N instructions (default 1)"),
  ("info", "Display the status of the program (r: registers, w: watchpoints)"),
  ("x", "Examine N bytes of memory starting at an address expression"),
  ("d", "Delete a watchpoint by watchpoint number"),
  ("wp", "Turn watchpoint checking on or off")]

def text (lines : List String) : String :=
  String.join (lines.map (· ++ "\n"))

def say (sh : Shell) (lines : List String) : Reply :=
  ⟨text lines, sh, .proceed⟩

def fail (sh : Shell) (e : Fatal) : Reply :=
  ⟨"", sh, .fail e⟩

def withSimulator (sh : Shell) (s : Simulator) : Shell :=
  { sh with simulator := s }

/-! ## Running -/

/-- The last line of a finished run and the statistics, unless they were printed before. -/
def tellEnding (sh : Shell) : String × Shell :=
  if sh.reported then ("", sh)
  else
    match sh.simulator.state.endLine? with
    | none => ("", sh)
    | some line =>
      (line ++ "\n" ++ sh.simulator.statistics.report, { sh with reported := true })

def stepLine (step : Step) : String :=
  Text.address step.pc ++ ": " ++ Text.hexPadded 8 step.inst.toNat ++ "  "
    ++ Instruction.disassemble step.inst

def eventLine (event : WatchEvent) : String :=
  "WP " ++ toString event.id ++ ": " ++ event.expression ++ " is now "
    ++ toString event.new.toNat

/-- The lines on some turns: their instructions, if they were few or are traced, and the events. -/
def reportLines (tracing : Bool) (report : RunReport) : List String :=
  (if tracing || report.executed ≤ Simulator.maxKeptSteps then report.steps.map stepLine else [])
    ++ report.events.map eventLine

/-- The answer to a request for up to `n` turns. -/
def run (sh : Shell) (n : Nat) : Reply :=
  if sh.simulator.state.isFinished then
    sh.say ["Program execution has ended. To restart the program, exit and run again."]
  else
    match sh.simulator.step n with
    | (s, .error e) => (sh.withSimulator s).fail (.simulator e)
    | (s, .ok report) =>
      let (ending, sh) := (sh.withSimulator s).tellEnding
      ⟨text (reportLines s.tracing report) ++ ending, sh, .proceed⟩

/-! ## The commands -/

/-- A natural number below `2 ^ 64`. -/
def number? (argument : String) : Option Nat :=
  Text.numeral? 10 64 argument.toList

/-- The number of instructions asked for, one where nothing is said. -/
def stepCount? (argument : String) : Option Nat :=
  if argument = "" then some 1 else (number? argument).filter (0 < ·)

/-- `si`: execute some instructions. -/
def stepCommand (sh : Shell) (argument : String) : Reply :=
  match stepCount? argument with
  | some n => sh.run n
  | none => sh.say ["Usage: si [N]"]

def commandLine (command : String × String) : String :=
  command.1 ++ " - " ++ command.2

/-- `help`: tell about one command or all of them. -/
def helpCommand (sh : Shell) (argument : String) : Reply :=
  match Text.firstWord? argument with
  | none => sh.say (commands.map commandLine)
  | some name =>
    match commands.find? (fun c => c.1 = name) with
    | some command => sh.say [commandLine command]
    | none => sh.say ["Unknown command '" ++ name ++ "'"]

/-- `p`: print the value of an expression. -/
def printCommand (sh : Shell) (argument : String) : Reply :=
  if argument = "" then sh.say ["Usage: p EXPR"]
  else
    match sh.simulator.evaluate argument with
    | (s, .ok value) =>
      (sh.withSimulator s).say
        [toString value.toNat ++ " (" ++ Text.marked value.toNat ++ ")"]
    | (s, .error e) =>
      let sh := sh.withSimulator s
      if e.isFatal then sh.fail (.simulator (.expression e))
      else sh.say ["Invalid expression: " ++ e.message]

/-- `w`: watch an expression. -/
def watchCommand (sh : Shell) (argument : String) : Reply :=
  match sh.simulator.watch argument with
  | (s, .ok id) => (sh.withSimulator s).say ["New watchpoint " ++ toString id ++ " created"]
  | (s, .error e) =>
    let sh := sh.withSimulator s
    if e.isFatal then sh.fail (.watch e)
    else
      match e with
      | .expression _ => sh.say ["Invalid expression. Watchpoint is not added."]
      | .pool e => sh.say ["Failed to create watchpoint: " ++ e.message]

def registerLine (register : String × Word) : String :=
  Text.padRight 4 register.1 ++ " " ++ Text.address register.2 ++ " "
    ++ toString register.2.toNat

def watchpointLine (w : Watchpoint) : String :=
  "Watchpoint " ++ toString w.id ++ ", tracking expr: " ++ w.expression

def watchpointLines (pool : WatchPool) : List String :=
  (if pool.toList.isEmpty then ["No watchpoints."] else pool.toList.map watchpointLine)
    ++ (if pool.enabled then [] else ["Watchpoint checking is off."])

/-- `info`: show the registers or the watchpoints. -/
def infoCommand (sh : Shell) (argument : String) : Reply :=
  match argument with
  | "r" => sh.say (sh.simulator.registers.map registerLine)
  | "w" => sh.say (watchpointLines sh.simulator.watches)
  | _ => sh.say ["Usage: info r for reg, w for watchpoints"]

/-- `x`: show some bytes of memory. -/
def examineCommand (sh : Shell) (argument : String) : Reply :=
  match Text.splitAtBlank? argument with
  | none => sh.say ["Usage: x N EXPR"]
  | some (count, addr) =>
    match sh.simulator.examine count (Text.trim addr) with
    | (s, .ok (start, bytes)) => (sh.withSimulator s).say [Dump.render start.toNat bytes]
    | (s, .error (.expression e)) =>
      let sh := sh.withSimulator s
      if e.isFatal then sh.fail (.simulator (.expression e))
      else sh.say ["Invalid expression: " ++ e.message]
    | (s, .error (.outOfWindow ..)) =>
      (sh.withSimulator s).say
        ["Invalid address. Use effective addr: [" ++ Text.marked Physical.base.toNat ++ ", "
          ++ Text.marked Physical.last.toNat ++ "]"]

/-- `d`: delete a watchpoint. -/
def deleteCommand (sh : Shell) (argument : String) : Reply :=
  match number? argument with
  | none => sh.say ["Usage: d N"]
  | some id =>
    match sh.simulator.unwatch id with
    | (s, .ok ()) => (sh.withSimulator s).say ["Watchpoint " ++ toString id ++ " deleted"]
    | (s, .error _) => (sh.withSimulator s).say ["Watchpoint " ++ toString id ++ " does not exist"]

/-- `wp`: turn sweeping on or off. -/
def toggleCommand (sh : Shell) (argument : String) : Reply :=
  match argument with
  | "on" => (sh.withSimulator (sh.simulator.toggle true)).say ["Watchpoints enabled"]
  | "off" => (sh.withSimulator (sh.simulator.toggle false)).say ["Watchpoints disabled"]
  | _ => sh.say ["Usage: wp on|off"]

/-- The answer to a command. -/
def perform (sh : Shell) (name argument : String) : Reply :=
  match name with
  | "help" => sh.helpCommand argument
  | "c" => sh.run Simulator.forever
  | "q" => ⟨"", sh.withSimulator sh.simulator.quit, .leave⟩
  | "p" => sh.printCommand argument
  | "w" => sh.watchCommand argument
  | "si" => sh.stepCommand argument
  | "info" => sh.infoCommand argument
  | "x" => sh.examineCommand argument
  | "d" => sh.deleteCommand argument
  | "wp" => sh.toggleCommand argument
  | _ => sh.say ["Unknown command '" ++ name ++ "'"]

/-- The command of a line that is not blank, and its argument. -/
def cutCommand (line : String) : String × String :=
  match Text.splitAtBlank? line with
  | none => (line, "")
  | some (name, rest) => (name, Text.trim rest)

/-- The answer to a line of the input; `none` stands for one that is not UTF-8. -/
def answer (sh : Shell) : Option String → Reply
  | none => sh.fail .notUtf8
  | some line =>
    let line := Text.trim line
    if line = "" then sh.say []
    else
      let (name, argument) := cutCommand line
      sh.perform name argument

/-! ## Sessions -/

/-- How a session went: all that was printed, the shell at its end, and the error that ended it, if
one did. -/
structure Session where
  output : String
  shell : Shell
  fatal : Option Fatal

/-- The answer to the end of the input, which leaves the session. -/
def endOfInput (sh : Shell) : Reply :=
  ⟨"\n", sh.withSimulator sh.simulator.quit, .leave⟩

/-- The session that goes on after `printed` with some lines of input. -/
def converse (printed : String) (sh : Shell) : List (Option String) → Session
  | [] =>
    let reply := sh.endOfInput
    ⟨printed ++ prompt ++ reply.output, reply.shell, none⟩
  | line :: rest =>
    let reply := sh.answer line
    let printed := printed ++ prompt ++ reply.output
    match reply.flow with
    | .proceed => converse printed reply.shell rest
    | .leave => ⟨printed, reply.shell, none⟩
    | .fail e => ⟨printed, reply.shell, some e⟩

/-- The session without input: one run without limit. -/
def batch (sh : Shell) : Session :=
  let reply := sh.run Simulator.forever
  match reply.flow with
  | .fail e => ⟨reply.output, reply.shell, some e⟩
  | _ => ⟨reply.output, reply.shell, none⟩

/-- A session after a fatal error tells how the run ended. -/
def conclude (session : Session) : Session :=
  match session.fatal with
  | none => session
  | some _ =>
    let (ending, sh) := session.shell.tellEnding
    { session with output := session.output ++ ending, shell := sh }

/-- The session of a shell over the bytes of its input, which a batch run does not look at. -/
def session (sh : Shell) (batchMode : Bool) (input : List Byte) : Session :=
  conclude (if batchMode then sh.batch else converse "" sh (Text.lines input))

end Shell

end HartMonitor
