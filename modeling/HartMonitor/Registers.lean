/-
# `HartMonitor.Registers` — the thirty-two general registers and their names

A register is numbered by five bits.  Each number has one canonical name, and two
names are aliases.  The file holds a word for every number, register zero included:
nothing here keeps that one at zero, an executed instruction puts it back
(`resetZero`).

    read_write_self, read_write_of_ne     a written register and every other one
-/
import HartMonitor.Word

namespace HartMonitor

/-- The number of a register. -/
abbrev RegisterNumber := BitVec 5

namespace RegisterNumber

def names : List String :=
  ["$0", "ra", "sp", "gp", "tp", "t0", "t1", "t2", "s0", "s1", "a0", "a1", "a2", "a3", "a4", "a5",
   "a6", "a7", "s2", "s3", "s4", "s5", "s6", "s7", "s8", "s9", "s10", "s11", "t3", "t4", "t5", "t6"]

/-- What is printed for a number that no register has. -/
def noName : String := "x??"

def nameAt (index : Nat) : String :=
  names.getD index noName

def name (r : RegisterNumber) : String :=
  nameAt r.toNat

/-- The register that a name denotes: a canonical name, `zero` or `fp`. -/
def ofName? (text : String) : Option RegisterNumber :=
  if text = "zero" then some 0
  else if text = "fp" then some 8
  else (names.findIdx? (· = text)).map (BitVec.ofNat 5)

def a0 : RegisterNumber := 10

end RegisterNumber

/-- The contents of the register file. -/
structure Registers where
  words : Vector Word 32
deriving DecidableEq, Repr

namespace Registers

def zeros : Registers := ⟨Vector.replicate 32 0⟩

def read (regs : Registers) (r : RegisterNumber) : Word :=
  have bound : r.toNat < 32 := r.isLt
  regs.words[r.toNat]

/-- The file with a word put into a register, register zero not excepted. -/
def write (regs : Registers) (r : RegisterNumber) (w : Word) : Registers :=
  ⟨regs.words.set r.toNat w r.isLt⟩

def resetZero (regs : Registers) : Registers :=
  regs.write 0 0

def readNamed? (regs : Registers) (text : String) : Option Word :=
  (RegisterNumber.ofName? text).map regs.read

/-- All registers by canonical name, in the order of their numbers. -/
def listing (regs : Registers) : List (String × Word) :=
  RegisterNumber.names.zip regs.words.toList

@[simp]
theorem read_write_self (regs : Registers) (r : RegisterNumber) (w : Word) :
    (regs.write r w).read r = w := by
  simp [read, write]

theorem read_write_of_ne (regs : Registers) {r s : RegisterNumber} (w : Word) (h : r ≠ s) :
    (regs.write r w).read s = regs.read s := by
  have : r.toNat ≠ s.toNat := fun e => h (BitVec.eq_of_toNat_eq e)
  simp [read, write, this]

@[simp]
theorem read_zero_resetZero (regs : Registers) : regs.resetZero.read 0 = 0 :=
  read_write_self regs 0 0

theorem ext_read {regs other : Registers} (h : ∀ r, regs.read r = other.read r) : regs = other := by
  cases regs with
  | mk a =>
    cases other with
    | mk b =>
      refine congrArg Registers.mk (Vector.ext fun i hi => ?_)
      have := h (BitVec.ofNat 5 i)
      simpa [read, Nat.mod_eq_of_lt hi] using this

end Registers

end HartMonitor
