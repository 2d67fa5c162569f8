/-
# `HartMonitor.CommandLine` — a session from arguments and files

    [-b | --batch] [--config FILE] [--log-level FILTER] [--trace] [IMAGE]

Options may stand before and after the image and are given at most once; a value
follows its option or an equals sign, and does not start with a dash unless it is one.
After `--` there is only the image.  What asks for help or the version decides as soon
as it is met, and so does what is wrong.

A start reads the configuration, then the image, then loads it.  A session that starts
ends with status 0 where it was a success and with 1 otherwise.
-/
import HartMonitor.Directory
import HartMonitor.Image.Elf
import HartMonitor.Shell

namespace HartMonitor.CommandLine

/-- What the arguments ask for. -/
structure Options where
  image : Option String := none
  batch : Bool := false
  config : Option String := none
  logLevel : Option String := none
  trace : Bool := false
deriving DecidableEq, Repr

/-- How the arguments are to be understood. -/
inductive Request where
  | run (o : Options)
  | help
  | version
  | wrongUsage
deriving DecidableEq, Repr

/-! ## Arguments -/

/-- The options with an image, if there was none and its path is not empty. -/
def setImage? (o : Options) (path : String) : Option Options :=
  if o.image.isNone && path ≠ "" then some { o with image := some path } else none

/-- The options with a flag given, if it was not given before. -/
def setFlag? (o : Options) : String → Option Options
  | "batch" => if o.batch then none else some { o with batch := true }
  | "trace" => if o.trace then none else some { o with trace := true }
  | _ => none

/-- The options with a value given, if there was none before.  A path is not empty. -/
def setValue? (o : Options) (name value : String) : Option Options :=
  match name with
  | "config" =>
    if o.config.isNone && value ≠ "" then some { o with config := some value } else none
  | "log-level" => if o.logLevel.isNone then some { o with logLevel := some value } else none
  | _ => none

def takesValue (name : String) : Bool :=
  name == "config" || name == "log-level"

/-- Whether an argument may be the value of the option before it. -/
def isValue (argument : String) : Bool :=
  argument == "-" || argument.toList.head? != some '-'

/-- The name of a long option and the value attached to it. -/
def splitLong (cs : List Char) : String × Option String :=
  match cs.span (· ≠ '=') with
  | (name, []) => (String.ofList name, none)
  | (name, _ :: value) => (String.ofList name, some (String.ofList value))

/-- What a cluster of one-letter options asks for, to be continued with the options so far. -/
def shortOptions (o : Options) : List Char → Request
  | [] => .run o
  | 'b' :: rest =>
    match setFlag? o "batch" with
    | some o => shortOptions o rest
    | none => .wrongUsage
  | 'h' :: _ => .help
  | 'V' :: _ => .version
  | _ => .wrongUsage

/-- What the arguments after `--` ask for. -/
def imagesOnly (o : Options) : List String → Request
  | [] => .run o
  | path :: rest =>
    match setImage? o path with
    | some o => imagesOnly o rest
    | none => .wrongUsage

/-- The options after a long option without a value. -/
def longFlag (o : Options) (name : String) : Request :=
  match name with
  | "help" => .help
  | "version" => .version
  | _ =>
    match setFlag? o name with
    | some o => .run o
    | none => .wrongUsage

/-- What the rest of the arguments asks for, the options so far being given. -/
def parseFrom (o : Options) : List String → Request
  | [] => .run o
  | argument :: rest =>
    match argument.toList with
    | ['-', '-'] => imagesOnly o rest
    | '-' :: '-' :: long =>
      let (name, attached) := splitLong long
      match attached, takesValue name with
      | some value, true => continueWith (setValue? o name value) rest
      | some _, false => .wrongUsage
      | none, false =>
        match longFlag o name with
        | .run o => parseFrom o rest
        | other => other
      | none, true =>
        match rest with
        | [] => .wrongUsage
        | value :: rest =>
          if isValue value then continueWith (setValue? o name value) rest else .wrongUsage
    | '-' :: c :: cluster =>
      match shortOptions o (c :: cluster) with
      | .run o => parseFrom o rest
      | other => other
    | _ => continueWith (setImage? o argument) rest
where
  /-- What the rest of the arguments asks for after an option that may have been refused. -/
  continueWith : Option Options → List String → Request
    | some o, rest => parseFrom o rest
    | none, _ => .wrongUsage

def parse (arguments : List String) : Request :=
  parseFrom {} arguments

/-! ## Starting -/

/-- Why no session starts. -/
inductive StartError where
  | unreadableConfig (path : String)
  | invalidConfig (path : String)
  | load (e : ImageError)
deriving DecidableEq, Repr

def StartError.message : StartError → String
  | unreadableConfig path => "could not read config '" ++ path ++ "'"
  | invalidConfig path => "invalid config '" ++ path ++ "'"
  | load e => e.message

/-- A way to read files; `none` for a file that cannot be read. -/
abbrev Files := String → Option (List Byte)

/-- The settings in a file; a file that is not UTF-8 cannot be read. -/
def configOfFile (files : Files) (path : String) : Except StartError Config :=
  match (files path).bind Text.decode? with
  | none => .error (.unreadableConfig path)
  | some text =>
    match Config.ofJson text with
    | .ok config => .ok config
    | .error _ => .error (.invalidConfig path)

/-- The settings that the options ask for. -/
def configOf (files : Files) (o : Options) : Except StartError Config := do
  let config ←
    match o.config with
    | none => .ok Config.standard
    | some path => configOfFile files path
  return { config with
    general.traceInstructions := o.trace || config.general.traceInstructions
    monitor.batchMode := o.batch || config.monitor.batchMode }

def imageOfFile (files : Files) (path : String) (base : Word) : Except ImageError Image :=
  match files path with
  | none => .error (.unreadable path)
  | some file => Image.ofFile file base

def builtinNotice : String := "No image is given. Use the default built-in image.\n"

/-- A start: what is printed at once, and the shell with whether it runs in batch mode. -/
structure Start where
  output : String
  shell : Except StartError (Shell × Bool)

def shellWith (config : Config) (image : Image) : Except StartError (Shell × Bool) :=
  match (Simulator.create config).loadImage image with
  | (_, .error e) => .error (.load e)
  | (s, .ok ()) => .ok ({ simulator := s }, config.monitor.batchMode)

/-- The start that the options ask for. -/
def start (files : Files) (o : Options) : Start :=
  match configOf files o with
  | .error e => ⟨"", .error e⟩
  | .ok config =>
    match o.image with
    | none => ⟨builtinNotice, shellWith config (Image.builtin config.memory.ramBase)⟩
    | some path =>
      match imageOfFile files path config.memory.ramBase with
      | .error e => ⟨"", .error (.load e)⟩
      | .ok image => ⟨"", shellWith config image⟩

/-! ## The whole program -/

/-- What the program leaves: its exit status, what it printed, and the lines on errors. -/
structure Outcome where
  status : Nat
  output : String
  errors : List String
deriving DecidableEq, Repr

def statusOf (session : Shell.Session) : Nat :=
  match session.fatal with
  | some _ => 1
  | none => if session.shell.simulator.state.isSuccess then 0 else 1

def startErrorLine (e : StartError) : String := "error: " ++ e.message

def fatalLine (e : Shell.Fatal) : String := "fatal: " ++ e.message

/-- The program on options, with files and the bytes of its input. -/
def runWith (files : Files) (input : List Byte) (o : Options) : Outcome :=
  let begun := start files o
  match begun.shell with
  | .error e => ⟨1, begun.output, [startErrorLine e]⟩
  | .ok (shell, batchMode) =>
    let session := shell.session batchMode input
    ⟨statusOf session, begun.output ++ session.output,
      session.fatal.toList.map fatalLine⟩

def usage : String :=
  "Usage: sdb [-b | --batch] [--config FILE] [--log-level FILTER] [--trace] [IMAGE]\n"

def versionText : String := "sdb 0.3.0\n"

/-- The program on arguments, with files and the bytes of its input. -/
def run (files : Files) (input : List Byte) (arguments : List String) : Outcome :=
  match parse arguments with
  | .run o => runWith files input o
  | .help => ⟨0, usage, []⟩
  | .version => ⟨0, versionText, []⟩
  | .wrongUsage => ⟨2, "", []⟩

/-- The program on arguments, in a directory, with the bytes of its input. -/
def runIn (directory : Directory) (input : List Byte) (arguments : List String) : Outcome :=
  run directory.read? input arguments

end HartMonitor.CommandLine
