/-
# `HartMonitor.Machine.Transfer` — loads and stores of one, two or four bytes

A load widens what it reads to a word, with copies of its sign or with zeros; a
store writes the low bytes of a word.  Any alignment will do.
-/
import HartMonitor.Memory

namespace HartMonitor

/-- How much a load or a store transfers. -/
inductive Width where
  | byte
  | half
  | word
deriving DecidableEq, Repr

namespace Width

def bytes : Width → Nat
  | byte => 1
  | half => 2
  | word => 4

def bits (width : Width) : Nat := 8 * width.bytes

end Width

namespace Memory

def loadWord (m : Memory) (addr : Word) (width : Width) (signed : Bool) : Except Trap Word :=
  (m.read addr width.bytes).map fun raw =>
    if signed then signExtendFrom width.bits raw else raw

/-- The memory after a store of the low bytes of a word. -/
def storeWord (m : Memory) (addr : Word) (width : Width) (w : Word) : Except Trap Memory :=
  m.write addr width.bytes w

end Memory

end HartMonitor
