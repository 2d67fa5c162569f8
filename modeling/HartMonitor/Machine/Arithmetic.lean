/-
# `HartMonitor.Machine.Arithmetic` — what is computed from two words

The ten operations of the arithmetic unit and the six comparisons of a branch.  The
operations fall to three units: an adder, one for bits and comparisons, and a
shifter; a unit gives zero for an operation that is not its own.
-/
import HartMonitor.Word

namespace HartMonitor

/-- An operation on two words. -/
inductive ArithmeticOp where
  | add
  | sub
  /-- Shift left. -/
  | sll
  /-- Signed comparison. -/
  | slt
  /-- Unsigned comparison. -/
  | sltu
  | xor
  /-- Shift right, zeros coming in. -/
  | srl
  /-- Shift right, copies of the sign coming in. -/
  | sra
  | or
  | and
deriving DecidableEq, Repr

namespace ArithmeticOp

def all : List ArithmeticOp := [add, sub, sll, slt, sltu, xor, srl, sra, or, and]

/-- The amount of a shift: the low five bits of a word. -/
def shiftAmount (w : Word) : Nat :=
  w.toNat % 32

/-- The result of an operation.  A comparison gives one or zero. -/
def eval (op : ArithmeticOp) (a b : Word) : Word :=
  match op with
  | add => a + b
  | sub => a - b
  | sll => a <<< shiftAmount b
  | slt => wordOfBool (a.slt b)
  | sltu => wordOfBool (a.ult b)
  | xor => a ^^^ b
  | srl => a >>> shiftAmount b
  | sra => a.sshiftRight (shiftAmount b)
  | or => a ||| b
  | and => a &&& b

end ArithmeticOp

/-- The parts of the arithmetic unit. -/
inductive ArithmeticUnit where
  | adder
  | bits
  | shifter
deriving DecidableEq, Repr

def ArithmeticOp.unit : ArithmeticOp → ArithmeticUnit
  | add | sub => .adder
  | or | and | xor | slt | sltu => .bits
  | sll | srl | sra => .shifter

/-- What a part gives for an operation: its result, or zero where the operation is another's. -/
def ArithmeticUnit.eval (u : ArithmeticUnit) (op : ArithmeticOp) (a b : Word) : Word :=
  if op.unit = u then op.eval a b else 0

/-- A comparison that a branch depends on. -/
inductive Comparison where
  | eq
  | ne
  /-- Signed less. -/
  | lt
  /-- Signed greater or equal. -/
  | ge
  /-- Unsigned less. -/
  | ltu
  /-- Unsigned greater or equal. -/
  | geu
deriving DecidableEq, Repr

namespace Comparison

def all : List Comparison := [eq, ne, lt, ge, ltu, geu]

/-- Whether a comparison holds of two words. -/
def holds (c : Comparison) (a b : Word) : Bool :=
  match c with
  | eq => a == b
  | ne => a != b
  | lt => a.slt b
  | ge => !a.slt b
  | ltu => a.ult b
  | geu => !a.ult b

end Comparison

end HartMonitor
