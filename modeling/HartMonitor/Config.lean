/-
# `HartMonitor.Config` — how a simulator is set up

Three sections of two settings each, every one with a default.  The written form is a
JSON record of records (`HartMonitor.Document.Record`).
-/
import HartMonitor.Document.Record
import HartMonitor.Memory.Physical

namespace HartMonitor

/-- What the hart starts with. -/
structure GeneralConfig where
  traceInstructions : Bool := false
  startPc : Word := Physical.base
deriving DecidableEq, Repr

/-- Where memory is, and how much of it there is. -/
structure MemoryConfig where
  ramBase : Word := Physical.base
  ramSize : Nat := Physical.size
deriving DecidableEq, Repr

/-- How the monitor behaves. -/
structure MonitorConfig where
  watchpointsEnabled : Bool := true
  batchMode : Bool := false
deriving DecidableEq, Repr

/-- The settings of a simulator. -/
structure Config where
  general : GeneralConfig := {}
  memory : MemoryConfig := {}
  monitor : MonitorConfig := {}
deriving DecidableEq, Repr

namespace Config

open Document

def standard : Config := {}

def generalReader : ValueReader GeneralConfig :=
  record {} [
    ⟨"trace_instructions", flag.map fun b c => { c with traceInstructions := b }⟩,
    ⟨"start_pc", (natural 32).map fun n c => { c with startPc := BitVec.ofNat 32 n }⟩]

def memoryReader : ValueReader MemoryConfig :=
  record {} [
    ⟨"ram_base", (natural 32).map fun n c => { c with ramBase := BitVec.ofNat 32 n }⟩,
    ⟨"ram_size", (natural 64).map fun n c => { c with ramSize := n }⟩]

def monitorReader : ValueReader MonitorConfig :=
  record {} [
    ⟨"watchpoints_enabled", flag.map fun b c => { c with watchpointsEnabled := b }⟩,
    ⟨"batch_mode", flag.map fun b c => { c with batchMode := b }⟩]

/-- The whole document. -/
def reader : ValueReader Config :=
  record {} [
    ⟨"general", generalReader.map fun s c => { c with general := s }⟩,
    ⟨"memory", memoryReader.map fun s c => { c with memory := s }⟩,
    ⟨"monitor", monitorReader.map fun s c => { c with monitor := s }⟩]

def ofJson (text : String) : Except DocumentError Config :=
  readAll reader text

end Config

end HartMonitor
