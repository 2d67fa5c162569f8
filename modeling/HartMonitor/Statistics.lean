/-
# `HartMonitor.Statistics` — how many instructions of each class were retired

An instruction is classed by its major operation alone.  The report gives the counts
and their shares, with two decimals.  The two lines that depend on the clock of the host are
left out of it: `host_seconds` above the number of instructions and `sim_freq` below it.

Counts are natural numbers, where the monitor has counters of 64 bits: the two are the same for
fewer than `2 ^ 64` instructions and events.
-/
import HartMonitor.Instruction.Field
import HartMonitor.Text.Percent

namespace HartMonitor

/-- The classes of instructions that are counted apart. -/
inductive InstructionClass where
  | alu
  | load
  | store
  | branch
  | system
deriving DecidableEq, Repr

/-- The class of an instruction word: loads, stores, branches with jumps, system instructions, and
everything else. -/
def InstructionClass.ofWord (inst : Word) : InstructionClass :=
  match (Instruction.opcode inst).toNat with
  | 0x03 => load
  | 0x23 => store
  | 0x63 | 0x6f | 0x67 => branch
  | 0x73 => system
  | _ => alu

/-- The counts of a run. -/
structure Statistics where
  retired : Nat
  alu : Nat
  load : Nat
  store : Nat
  branch : Nat
  system : Nat
  /-- The number of watch events. -/
  hits : Nat
deriving DecidableEq, Repr

namespace Statistics

def zero : Statistics := ⟨0, 0, 0, 0, 0, 0, 0⟩

/-- The count of a class. -/
def count (s : Statistics) : InstructionClass → Nat
  | .alu => s.alu
  | .load => s.load
  | .store => s.store
  | .branch => s.branch
  | .system => s.system

/-- One more instruction of a class. -/
def recordClass (s : Statistics) (c : InstructionClass) : Statistics :=
  match c with
  | .alu => { s with retired := s.retired + 1, alu := s.alu + 1 }
  | .load => { s with retired := s.retired + 1, load := s.load + 1 }
  | .store => { s with retired := s.retired + 1, store := s.store + 1 }
  | .branch => { s with retired := s.retired + 1, branch := s.branch + 1 }
  | .system => { s with retired := s.retired + 1, system := s.system + 1 }

def record (s : Statistics) (inst : Word) : Statistics :=
  s.recordClass (.ofWord inst)

def recordBreakpoint (s : Statistics) : Statistics :=
  s.recordClass .system

def addHits (s : Statistics) (n : Nat) : Statistics :=
  { s with hits := s.hits + n }

/-- A line of one character, as wide as the report. -/
def rule (c : Char) : String :=
  String.ofList (List.replicate 58 c)

def labelWidth : Nat := 25

def entry (label value : String) : String :=
  Text.padRight labelWidth label ++ value

/-- A line of the report on a class: its count and its share in all instructions, in one where
there are none. -/
def share (s : Statistics) (label : String) (n : Nat) : String :=
  entry ("  op." ++ label) (toString n ++ " (" ++ Text.percent n (max s.retired 1) ++ ")")

/-- The lines of the report, without those on the time that the host took. -/
def reportLines (s : Statistics) : List String := [
  rule '=',
  "SIMULATION STATISTICS",
  rule '=',
  entry "sim_insts" (toString s.retired),
  rule '-',
  "INSTRUCTION MIX",
  s.share "alu" s.alu,
  s.share "load" s.load,
  s.share "store" s.store,
  s.share "branch" s.branch,
  s.share "system" s.system,
  rule '-',
  entry "watchpoint_hits" (toString s.hits),
  rule '=']

def report (s : Statistics) : String :=
  String.join (s.reportLines.map (· ++ "\n"))

end Statistics

end HartMonitor
