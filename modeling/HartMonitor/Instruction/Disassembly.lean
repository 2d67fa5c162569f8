/-
# `HartMonitor.Instruction.Disassembly` — instruction words as assembly text

The text of a word is found from its operation fields alone, without the decode
table: mnemonic first, then the operands by canonical register name.  Immediates are
signed decimal numbers, the amount of an immediate shift is its low five bits, the
offsets of branches and jumps count bytes, and an upper immediate is its twenty bits
in base sixteen.  A word that is no instruction is `unknown`.
-/
import HartMonitor.Instruction.Field
import HartMonitor.Text.Hex

namespace HartMonitor.Instruction

open Text

def unknownText : String := "unknown"

/-- The mnemonic of a load, by its minor operation. -/
def loadMnemonic? (f3 : BitVec 3) : Option String :=
  match f3.toNat with
  | 0 => some "lb"
  | 1 => some "lh"
  | 2 => some "lw"
  | 4 => some "lbu"
  | 5 => some "lhu"
  | _ => none

/-- The mnemonic of a store, by its minor operation. -/
def storeMnemonic? (f3 : BitVec 3) : Option String :=
  match f3.toNat with
  | 0 => some "sb"
  | 1 => some "sh"
  | 2 => some "sw"
  | _ => none

/-- The mnemonic of a branch, by its minor operation. -/
def branchMnemonic? (f3 : BitVec 3) : Option String :=
  match f3.toNat with
  | 0 => some "beq"
  | 1 => some "bne"
  | 4 => some "blt"
  | 5 => some "bge"
  | 6 => some "bltu"
  | 7 => some "bgeu"
  | _ => none

/-- The mnemonic of a computation on two registers, by its minor operation and the rest. -/
def registerMnemonic? (f3 : BitVec 3) (f7 : BitVec 7) : Option String :=
  match f3.toNat, f7.toNat with
  | 0, 0x00 => some "add"
  | 0, 0x20 => some "sub"
  | 1, 0x00 => some "sll"
  | 2, 0x00 => some "slt"
  | 3, 0x00 => some "sltu"
  | 4, 0x00 => some "xor"
  | 5, 0x00 => some "srl"
  | 5, 0x20 => some "sra"
  | 6, 0x00 => some "or"
  | 7, 0x00 => some "and"
  | _, _ => none

/-- The mnemonic of a computation with an immediate, and whether it is a shift. -/
def immediateMnemonic? (f3 : BitVec 3) (f7 : BitVec 7) : Option (String × Bool) :=
  match f3.toNat, f7.toNat with
  | 0, _ => some ("addi", false)
  | 2, _ => some ("slti", false)
  | 3, _ => some ("sltiu", false)
  | 4, _ => some ("xori", false)
  | 6, _ => some ("ori", false)
  | 7, _ => some ("andi", false)
  | 1, 0x00 => some ("slli", true)
  | 5, 0x00 => some ("srli", true)
  | 5, 0x20 => some ("srai", true)
  | _, _ => none

def line (mnemonic : String) (operandTexts : List String) : String :=
  mnemonic ++ " " ++ ", ".intercalate operandTexts

def based (offset : Word) (r : RegisterNumber) : String :=
  toString offset.toInt ++ "(" ++ r.name ++ ")"

/-- An offset in halfwords, printed in bytes. -/
def byteOffset (halfwords : Word) : String :=
  toString (halfwords * 2).toInt

def upperText (inst : Word) : String :=
  marked (inst.extractLsb' 12 20).toNat

/-- The operand of a computation with an immediate: the number, or the amount of a shift. -/
def immediateText (isShift : Bool) (inst : Word) : String :=
  if isShift then toString (rs2 inst).toNat else toString (immI inst).toInt

/-- The text of an instruction word; `none` where it is no instruction. -/
def disassemble? (inst : Word) : Option String :=
  match (opcode inst).toNat with
  | 0x33 => (registerMnemonic? (funct3 inst) (funct7 inst)).map fun mn =>
      line mn [(rd inst).name, (rs1 inst).name, (rs2 inst).name]
  | 0x13 => (immediateMnemonic? (funct3 inst) (funct7 inst)).map fun (mn, isShift) =>
      line mn [(rd inst).name, (rs1 inst).name, immediateText isShift inst]
  | 0x03 => (loadMnemonic? (funct3 inst)).map fun mn =>
      line mn [(rd inst).name, based (immI inst) (rs1 inst)]
  | 0x23 => (storeMnemonic? (funct3 inst)).map fun mn =>
      line mn [(rs2 inst).name, based (immS inst) (rs1 inst)]
  | 0x63 => (branchMnemonic? (funct3 inst)).map fun mn =>
      line mn [(rs1 inst).name, (rs2 inst).name, byteOffset (immB inst)]
  | 0x37 => some (line "lui" [(rd inst).name, upperText inst])
  | 0x17 => some (line "auipc" [(rd inst).name, upperText inst])
  | 0x6f => some (line "jal" [(rd inst).name, byteOffset (immJ inst)])
  | 0x67 =>
    if funct3 inst = 0 then some (line "jalr" [(rd inst).name, based (immI inst) (rs1 inst)])
    else none
  | 0x73 =>
    if inst = 0x00100073 then some "ebreak"
    else if inst = 0x00000073 then some "ecall"
    else none
  | _ => none

def disassemble (inst : Word) : String :=
  (disassemble? inst).getD unknownText

end HartMonitor.Instruction
