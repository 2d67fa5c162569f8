/-
# `HartMonitor.Trap` — why an instruction does not complete

One constructor per cause.  A breakpoint is the regular end of a program; every
other cause is fatal to the run.
-/
import HartMonitor.Text.Hex

namespace HartMonitor

open Text

/-- The cause that kept an instruction, or an access to memory, from completing. -/
inductive Trap where
  /-- The breakpoint instruction at `pc`, with the exit code of the program. -/
  | breakpoint (pc code : Word)
  /-- A word that no named row of the decode table describes. -/
  | illegalInstruction (pc inst : Word)
  /-- A word that no row at all describes. -/
  | unimplementedFormat (pc inst : Word)
  /-- An instruction fetch outside the window of memory. -/
  | fetchFault (addr : Word)
  /-- A read of `len` bytes that are not all in the window of memory. -/
  | loadFault (addr : Word) (len : Nat)
  /-- A write of `len` bytes that are not all in the window of memory. -/
  | storeFault (addr : Word) (len : Nat)
deriving DecidableEq, Repr

namespace Trap

def isFatal : Trap → Bool
  | breakpoint .. => false
  | _ => true

/-- The wording of a cause. -/
def message : Trap → String
  | breakpoint pc code =>
    "breakpoint at pc = " ++ address pc ++ " (a0 = " ++ toString code.toNat ++ ")"
  | illegalInstruction pc inst =>
    "invalid instruction " ++ address inst ++ " at pc = " ++ address pc
  | unimplementedFormat pc inst =>
    "unimplemented instruction format for " ++ address inst ++ " at pc = " ++ address pc
  | fetchFault addr => "instruction access fault at " ++ address addr
  | loadFault addr len =>
    "load access fault at " ++ address addr ++ " (" ++ toString len ++ " bytes)"
  | storeFault addr len =>
    "store access fault at " ++ address addr ++ " (" ++ toString len ++ " bytes)"

end Trap

end HartMonitor
