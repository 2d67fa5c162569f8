/-
# `HartMonitor.Instruction.Field` — the fields of an instruction word

    31      25 24  20 19  15 14    12 11       7 6      0
    funct7     rs2    rs1    funct3   rd         opcode      R
    imm[11:0]         rs1    funct3   rd         opcode      I
    imm[11:5]  rs2    rs1    funct3   imm[4:0]   opcode      S
    imm[12|10:5] rs2  rs1    funct3   imm[4:1|11] opcode     B
    imm[31:12]                        rd         opcode      U
    imm[20|10:1|11|19:12]             rd         opcode      J

Every immediate is sign-extended to a word.  The ones of branches and jumps have no
bit zero in the word; they are kept as the offset in halfwords, that is without
that bit, and whoever forms an address doubles them.
-/
import HartMonitor.Registers

namespace HartMonitor

/-- Which operands an instruction word holds, and where. -/
inductive Format where
  /-- Destination, one source, a twelve-bit immediate. -/
  | immediate
  /-- Destination and the upper twenty bits of a word. -/
  | upper
  /-- Two sources and a twelve-bit immediate. -/
  | store
  /-- Two sources and a branch offset. -/
  | branch
  /-- Destination and two sources. -/
  | register
  /-- Destination and a jump offset. -/
  | jump
  /-- No operand. -/
  | bare
deriving DecidableEq, Repr

/-- The letter of a format in the manual; `N` for the one without operands. -/
def Format.letter : Format → String
  | immediate => "I"
  | upper => "U"
  | store => "S"
  | branch => "B"
  | register => "R"
  | jump => "J"
  | bare => "N"

def Format.all : List Format :=
  [.immediate, .upper, .store, .branch, .register, .jump, .bare]

namespace Instruction

/-- Bits 6 to 0: the major operation. -/
def opcode (inst : Word) : BitVec 7 := inst.extractLsb' 0 7

/-- Bits 11 to 7: the destination register. -/
def rd (inst : Word) : RegisterNumber := inst.extractLsb' 7 5

/-- Bits 14 to 12: the minor operation. -/
def funct3 (inst : Word) : BitVec 3 := inst.extractLsb' 12 3

/-- Bits 19 to 15: the first source register. -/
def rs1 (inst : Word) : RegisterNumber := inst.extractLsb' 15 5

/-- Bits 24 to 20: the second source register. -/
def rs2 (inst : Word) : RegisterNumber := inst.extractLsb' 20 5

/-- Bits 31 to 25: the rest of the operation. -/
def funct7 (inst : Word) : BitVec 7 := inst.extractLsb' 25 7

/-- The immediate of loads, register jumps and immediate arithmetic. -/
def immI (inst : Word) : Word :=
  (inst.extractLsb' 20 12).signExtend 32

/-- The immediate of stores. -/
def immS (inst : Word) : Word :=
  (inst.extractLsb' 25 7 ++ inst.extractLsb' 7 5).signExtend 32

/-- The offset of a branch, in halfwords. -/
def immB (inst : Word) : Word :=
  (inst.extractLsb' 31 1 ++ inst.extractLsb' 7 1 ++ inst.extractLsb' 25 6
    ++ inst.extractLsb' 8 4).signExtend 32

/-- The upper twenty bits of the word, over twelve zeros. -/
def immU (inst : Word) : Word :=
  inst.extractLsb' 12 20 ++ 0#12

/-- The offset of a jump, in halfwords. -/
def immJ (inst : Word) : Word :=
  (inst.extractLsb' 31 1 ++ inst.extractLsb' 12 8 ++ inst.extractLsb' 20 1
    ++ inst.extractLsb' 21 10).signExtend 32

/-- What an instruction word operates on: the number of its destination, the values of its sources
and its immediate.  What the format does not have is zero. -/
structure Operands where
  rd : RegisterNumber
  src1 : Word
  src2 : Word
  imm : Word
deriving DecidableEq, Repr

/-- The operands of a word read in a format, the sources taken from a register file. -/
def operands (format : Format) (regs : Registers) (inst : Word) : Operands :=
  let src1 := regs.read (rs1 inst)
  let src2 := regs.read (rs2 inst)
  match format with
  | .immediate => ⟨rd inst, src1, 0, immI inst⟩
  | .upper => ⟨rd inst, 0, 0, immU inst⟩
  | .store => ⟨rd inst, src1, src2, immS inst⟩
  | .branch => ⟨rd inst, src1, src2, immB inst⟩
  | .register => ⟨rd inst, src1, src2, 0⟩
  | .jump => ⟨rd inst, 0, 0, immJ inst⟩
  | .bare => ⟨rd inst, 0, 0, 0⟩

end Instruction

end HartMonitor
