/-
# `HartMonitor.Machine` — the hart and the memory it works on

The whole architectural state: registers, program counter and memory.
-/
import HartMonitor.Memory
import HartMonitor.Registers

namespace HartMonitor

/-- The architectural state of the simulated hart. -/
structure Machine where
  regs : Registers
  pc : Word
  memory : Memory

end HartMonitor
