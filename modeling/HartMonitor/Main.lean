/-
# `HartMonitor.Main` — the program on a terminal

Reads the files that the options name, prints what the library answers, and hands it
the lines of standard input one at a time.  Nothing is decided here.
-/
import HartMonitor.CommandLine

namespace HartMonitor.Program

open CommandLine

/-- The bytes of a file, if it can be read. -/
def readFile (path : String) : IO (Option (List Byte)) := do
  try
    let data ← IO.FS.readBinFile path
    return some (data.toList.map UInt8.toBitVec)
  catch _ => return none

def readFiles (o : Options) : IO Files := do
  let paths := o.config.toList ++ o.image.toList
  let contents ← paths.mapM fun path => return (path, ← readFile path)
  return fun path => (contents.lookup path).join

/-- The next line of standard input: `none` at its end, `some none` for one that is not UTF-8. -/
def nextLine (input : IO.FS.Stream) : IO (Option (Option String)) := do
  try
    let line ← input.getLine
    return if line.isEmpty then none else some (some line)
  catch _ => return some none

/-- A session on a terminal. -/
partial def converse (input output : IO.FS.Stream) (shell : Shell) : IO Shell.Session := do
  output.putStr Shell.prompt
  output.flush
  let reply :=
    match ← nextLine input with
    | none => shell.endOfInput
    | some line => shell.answer line
  output.putStr reply.output
  match reply.flow with
  | .proceed => converse input output reply.shell
  | .leave => return ⟨"", reply.shell, none⟩
  | .fail e => return ⟨"", reply.shell, some e⟩

/-- The program on options. -/
def runOptions (o : Options) : IO UInt32 := do
  let input ← IO.getStdin
  let output ← IO.getStdout
  let begun := start (← readFiles o) o
  output.putStr begun.output
  match begun.shell with
  | .error e =>
    IO.eprintln (startErrorLine e)
    return 1
  | .ok (shell, batchMode) =>
    let session ← if batchMode then pure shell.batch else converse input output shell
    match session.fatal with
    | none => output.putStr session.output
    | some e =>
      IO.eprintln (fatalLine e)
      output.putStr (Shell.conclude session).output
    return UInt32.ofNat (statusOf session)

end HartMonitor.Program

open HartMonitor HartMonitor.CommandLine HartMonitor.Program in
/-- The program. -/
def main (arguments : List String) : IO UInt32 := do
  match parse arguments with
  | .run o => runOptions o
  | .wrongUsage =>
    IO.eprint usage
    return 2
  | _ =>
    let outcome := CommandLine.run (fun _ => none) [] arguments
    IO.print outcome.output
    return UInt32.ofNat outcome.status
