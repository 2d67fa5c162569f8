/-
# `HartMonitor.Instruction.Table` — the instructions of RV32I

One row per instruction: its mnemonic, the pattern of its words, the format of its
operands and what it does.  The first row whose pattern matches a word describes it;
the last row matches every word and stands for those that are no instruction.
-/
import HartMonitor.Instruction.Field
import HartMonitor.Instruction.Pattern
import HartMonitor.Machine.Arithmetic
import HartMonitor.Machine.Transfer

namespace HartMonitor

/-- What an instruction does. -/
inductive Action where
  /-- Put the immediate into the destination. -/
  | lui
  /-- Put `pc` plus the immediate into the destination. -/
  | auipc
  /-- Jump by the immediate and leave the return address in the destination. -/
  | jal
  /-- Jump to the source plus the immediate and leave the return address in the destination. -/
  | jalr
  /-- Jump by the immediate where a comparison of the sources holds. -/
  | branch (c : Comparison)
  /-- Read memory at the source plus the immediate. -/
  | load (width : Width) (signed : Bool)
  /-- Write the second source to memory at the first plus the immediate. -/
  | store (width : Width)
  /-- Compute from the first source and the second, or the immediate. -/
  | alu (op : ArithmeticOp)
  /-- End the program. -/
  | ebreak
  /-- No instruction. -/
  | invalid
deriving DecidableEq, Repr

namespace Instruction

/-- A row of the decode table. -/
structure Row where
  name : String
  pattern : Pattern
  format : Format
  action : Action
deriving DecidableEq, Repr

open Pattern (ofText)

def catchAll : Row :=
  ⟨"inv", ofText "??????? ????? ????? ??? ????? ????? ??", .bare, .invalid⟩

/-- The rows of the instructions. -/
def namedRows : List Row := [
  ⟨"lui",    ofText "??????? ????? ????? ??? ????? 01101 11", .upper,     .lui⟩,
  ⟨"auipc",  ofText "??????? ????? ????? ??? ????? 00101 11", .upper,     .auipc⟩,
  ⟨"jal",    ofText "??????? ????? ????? ??? ????? 11011 11", .jump,      .jal⟩,
  ⟨"jalr",   ofText "??????? ????? ????? 000 ????? 11001 11", .immediate, .jalr⟩,
  ⟨"beq",    ofText "??????? ????? ????? 000 ????? 11000 11", .branch,    .branch .eq⟩,
  ⟨"bne",    ofText "??????? ????? ????? 001 ????? 11000 11", .branch,    .branch .ne⟩,
  ⟨"blt",    ofText "??????? ????? ????? 100 ????? 11000 11", .branch,    .branch .lt⟩,
  ⟨"bge",    ofText "??????? ????? ????? 101 ????? 11000 11", .branch,    .branch .ge⟩,
  ⟨"bltu",   ofText "??????? ????? ????? 110 ????? 11000 11", .branch,    .branch .ltu⟩,
  ⟨"bgeu",   ofText "??????? ????? ????? 111 ????? 11000 11", .branch,    .branch .geu⟩,
  ⟨"lb",     ofText "??????? ????? ????? 000 ????? 00000 11", .immediate, .load .byte true⟩,
  ⟨"lh",     ofText "??????? ????? ????? 001 ????? 00000 11", .immediate, .load .half true⟩,
  ⟨"lw",     ofText "??????? ????? ????? 010 ????? 00000 11", .immediate, .load .word true⟩,
  ⟨"lbu",    ofText "??????? ????? ????? 100 ????? 00000 11", .immediate, .load .byte false⟩,
  ⟨"lhu",    ofText "??????? ????? ????? 101 ????? 00000 11", .immediate, .load .half false⟩,
  ⟨"sb",     ofText "??????? ????? ????? 000 ????? 01000 11", .store,     .store .byte⟩,
  ⟨"sh",     ofText "??????? ????? ????? 001 ????? 01000 11", .store,     .store .half⟩,
  ⟨"sw",     ofText "??????? ????? ????? 010 ????? 01000 11", .store,     .store .word⟩,
  ⟨"addi",   ofText "??????? ????? ????? 000 ????? 00100 11", .immediate, .alu .add⟩,
  ⟨"slti",   ofText "??????? ????? ????? 010 ????? 00100 11", .immediate, .alu .slt⟩,
  ⟨"sltiu",  ofText "??????? ????? ????? 011 ????? 00100 11", .immediate, .alu .sltu⟩,
  ⟨"xori",   ofText "??????? ????? ????? 100 ????? 00100 11", .immediate, .alu .xor⟩,
  ⟨"ori",    ofText "??????? ????? ????? 110 ????? 00100 11", .immediate, .alu .or⟩,
  ⟨"andi",   ofText "??????? ????? ????? 111 ????? 00100 11", .immediate, .alu .and⟩,
  ⟨"slli",   ofText "0000000 ????? ????? 001 ????? 00100 11", .immediate, .alu .sll⟩,
  ⟨"srli",   ofText "0000000 ????? ????? 101 ????? 00100 11", .immediate, .alu .srl⟩,
  ⟨"srai",   ofText "0100000 ????? ????? 101 ????? 00100 11", .immediate, .alu .sra⟩,
  ⟨"add",    ofText "0000000 ????? ????? 000 ????? 01100 11", .register,  .alu .add⟩,
  ⟨"sub",    ofText "0100000 ????? ????? 000 ????? 01100 11", .register,  .alu .sub⟩,
  ⟨"sll",    ofText "0000000 ????? ????? 001 ????? 01100 11", .register,  .alu .sll⟩,
  ⟨"slt",    ofText "0000000 ????? ????? 010 ????? 01100 11", .register,  .alu .slt⟩,
  ⟨"sltu",   ofText "0000000 ????? ????? 011 ????? 01100 11", .register,  .alu .sltu⟩,
  ⟨"xor",    ofText "0000000 ????? ????? 100 ????? 01100 11", .register,  .alu .xor⟩,
  ⟨"srl",    ofText "0000000 ????? ????? 101 ????? 01100 11", .register,  .alu .srl⟩,
  ⟨"sra",    ofText "0100000 ????? ????? 101 ????? 01100 11", .register,  .alu .sra⟩,
  ⟨"or",     ofText "0000000 ????? ????? 110 ????? 01100 11", .register,  .alu .or⟩,
  ⟨"and",    ofText "0000000 ????? ????? 111 ????? 01100 11", .register,  .alu .and⟩,
  ⟨"ebreak", ofText "0000000 00001 00000 000 00000 11100 11", .bare,      .ebreak⟩]

/-- The decode table: the instructions, and after them what matches every word. -/
def table : List Row := namedRows ++ [catchAll]

/-- The first row of some rows whose pattern matches a word. -/
def lookup (rows : List Row) (inst : Word) : Option Row :=
  rows.find? fun row => decide (row.pattern.Matches inst)

end Instruction

end HartMonitor
