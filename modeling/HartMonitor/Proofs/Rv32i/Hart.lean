/-
# `HartMonitor.Proofs.Rv32i.Hart` — the base instruction set over the integers

A hart of numbers and nothing else: registers and `pc` are naturals below `2 ^ 32`,
memory is a partial map from addresses to bytes.  Instruction words are naturals too;
their fields are quotients and remainders.

    31      25 24  20 19  15 14    12 11       7 6      0
    funct7     rs2    rs1    funct3   rd         opcode      R
    imm[11:0]         rs1    funct3   rd         opcode      I
    imm[11:5]  rs2    rs1    funct3   imm[4:0]   opcode      S
    imm[12|10:5] rs2  rs1    funct3   imm[4:1|11] opcode     B
    imm[31:12]                        rd         opcode      U
    imm[20|10:1|11|19:12]             rd         opcode      J

The offsets of branches and jumps count bytes here, bit zero being zero.  Addresses do
not wrap within an access: a byte past the last address is a byte that is not there.
-/
import HartMonitor.Machine.Step
import Mathlib.Algebra.Group.Int.Defs
import Mathlib.Data.Nat.Digits.Defs

namespace HartMonitor.Rv32i

/-! ## Numbers -/

/-- An integer modulo `2 ^ 32`. -/
def wrap (x : Int) : Nat :=
  (x % 2 ^ 32).toNat

/-- The integer that a number below `2 ^ bits` is in two's complement. -/
def signed (bits x : Nat) : Int :=
  if 2 * x < 2 ^ bits then x else x - 2 ^ bits

/-- The `bits` bits of a number from bit `low` on. -/
def field (w low bits : Nat) : Nat :=
  w / 2 ^ low % 2 ^ bits

def register (w low : Nat) : Fin 32 :=
  ⟨field w low 5, Nat.mod_lt _ (Nat.two_pow_pos 5)⟩

/-! ## Fields and immediates -/

def opcode (w : Nat) : Nat := field w 0 7

def rd (w : Nat) : Fin 32 := register w 7

def funct3 (w : Nat) : Nat := field w 12 3

def rs1 (w : Nat) : Fin 32 := register w 15

def rs2 (w : Nat) : Fin 32 := register w 20

def funct7 (w : Nat) : Nat := field w 25 7

def immI (w : Nat) : Int :=
  signed 12 (field w 20 12)

def immS (w : Nat) : Int :=
  signed 12 (field w 25 7 * 2 ^ 5 + field w 7 5)

def immB (w : Nat) : Int :=
  signed 13 (field w 31 1 * 2 ^ 12 + field w 7 1 * 2 ^ 11 + field w 25 6 * 2 ^ 5
    + field w 8 4 * 2 ^ 1)

def immU (w : Nat) : Int :=
  field w 12 20 * 2 ^ 12

def immJ (w : Nat) : Int :=
  signed 21 (field w 31 1 * 2 ^ 20 + field w 12 8 * 2 ^ 12 + field w 20 1 * 2 ^ 11
    + field w 21 10 * 2 ^ 1)

/-! ## Instructions -/

/-- An instruction with its registers and its immediate. -/
inductive Decoded where
  | lui (rd : Fin 32) (imm : Int)
  | auipc (rd : Fin 32) (imm : Int)
  | jal (rd : Fin 32) (offset : Int)
  | jalr (rd rs1 : Fin 32) (imm : Int)
  | branch (c : Comparison) (rs1 rs2 : Fin 32) (offset : Int)
  | load (width : Width) (signed : Bool) (rd rs1 : Fin 32) (imm : Int)
  | store (width : Width) (rs1 rs2 : Fin 32) (imm : Int)
  | immediate (op : ArithmeticOp) (rd rs1 : Fin 32) (imm : Int)
  | register (op : ArithmeticOp) (rd rs1 rs2 : Fin 32)
  | ebreak
deriving DecidableEq, Repr

/-- The comparison of a branch, by `funct3`. -/
def comparison? : Nat → Option Comparison
  | 0b000 => some .eq
  | 0b001 => some .ne
  | 0b100 => some .lt
  | 0b101 => some .ge
  | 0b110 => some .ltu
  | 0b111 => some .geu
  | _ => none

/-- The width of a load, and whether it extends the sign, by `funct3`. -/
def loadWidth? : Nat → Option (Width × Bool)
  | 0b000 => some (.byte, true)
  | 0b001 => some (.half, true)
  | 0b010 => some (.word, true)
  | 0b100 => some (.byte, false)
  | 0b101 => some (.half, false)
  | _ => none

/-- The width of a store, by `funct3`. -/
def storeWidth? : Nat → Option Width
  | 0b000 => some .byte
  | 0b001 => some .half
  | 0b010 => some .word
  | _ => none

/-- An operation with a twelve-bit immediate, by `funct3`. -/
def immediateOp? : Nat → Option ArithmeticOp
  | 0b000 => some .add
  | 0b010 => some .slt
  | 0b011 => some .sltu
  | 0b100 => some .xor
  | 0b110 => some .or
  | 0b111 => some .and
  | _ => none

/-- A shift by a fixed amount, by `funct7` and `funct3`. -/
def shiftOp? : Nat → Nat → Option ArithmeticOp
  | 0b0000000, 0b001 => some .sll
  | 0b0000000, 0b101 => some .srl
  | 0b0100000, 0b101 => some .sra
  | _, _ => none

/-- An operation on two registers, by `funct7` and `funct3`. -/
def registerOp? : Nat → Nat → Option ArithmeticOp
  | 0b0000000, 0b000 => some .add
  | 0b0100000, 0b000 => some .sub
  | 0b0000000, 0b001 => some .sll
  | 0b0000000, 0b010 => some .slt
  | 0b0000000, 0b011 => some .sltu
  | 0b0000000, 0b100 => some .xor
  | 0b0000000, 0b101 => some .srl
  | 0b0100000, 0b101 => some .sra
  | 0b0000000, 0b110 => some .or
  | 0b0000000, 0b111 => some .and
  | _, _ => none

/-- The instruction that a word encodes. -/
def decode (w : Nat) : Option Decoded :=
  match opcode w with
  | 0b0110111 => some (.lui (rd w) (immU w))
  | 0b0010111 => some (.auipc (rd w) (immU w))
  | 0b1101111 => some (.jal (rd w) (immJ w))
  | 0b1100111 => if funct3 w = 0 then some (.jalr (rd w) (rs1 w) (immI w)) else none
  | 0b1100011 => (comparison? (funct3 w)).map fun c => .branch c (rs1 w) (rs2 w) (immB w)
  | 0b0000011 =>
    (loadWidth? (funct3 w)).map fun (width, signed) => .load width signed (rd w) (rs1 w) (immI w)
  | 0b0100011 => (storeWidth? (funct3 w)).map fun width => .store width (rs1 w) (rs2 w) (immS w)
  | 0b0010011 =>
    match immediateOp? (funct3 w) with
    | some op => some (.immediate op (rd w) (rs1 w) (immI w))
    | none =>
      (shiftOp? (funct7 w) (funct3 w)).map fun op => .immediate op (rd w) (rs1 w) (field w 20 5)
  | 0b0110011 =>
    (registerOp? (funct7 w) (funct3 w)).map fun op => .register op (rd w) (rs1 w) (rs2 w)
  | 0b1110011 => if w = 0x00100073 then some .ebreak else none
  | _ => none

/-- The mnemonic of an operation on two registers. -/
def operationName : ArithmeticOp → String
  | .add => "add"
  | .sub => "sub"
  | .sll => "sll"
  | .slt => "slt"
  | .sltu => "sltu"
  | .xor => "xor"
  | .srl => "srl"
  | .sra => "sra"
  | .or => "or"
  | .and => "and"

/-- The mnemonic of an instruction. -/
def Decoded.mnemonic : Decoded → String
  | lui .. => "lui"
  | auipc .. => "auipc"
  | jal .. => "jal"
  | jalr .. => "jalr"
  | branch .eq .. => "beq"
  | branch .ne .. => "bne"
  | branch .lt .. => "blt"
  | branch .ge .. => "bge"
  | branch .ltu .. => "bltu"
  | branch .geu .. => "bgeu"
  | load .byte true .. => "lb"
  | load .half true .. => "lh"
  | load .word _ .. => "lw"
  | load .byte false .. => "lbu"
  | load .half false .. => "lhu"
  | store .byte .. => "sb"
  | store .half .. => "sh"
  | store .word .. => "sw"
  | immediate .sltu .. => "sltiu"
  | immediate op .. => operationName op ++ "i"
  | register op .. => operationName op
  | ebreak => "ebreak"

/-! ## Arithmetic -/

/-- The result of an operation on two numbers below `2 ^ 32`. -/
def compute (op : ArithmeticOp) (a b : Nat) : Nat :=
  match op with
  | .add => (a + b) % 2 ^ 32
  | .sub => wrap (a - b)
  | .sll => a * 2 ^ (b % 32) % 2 ^ 32
  | .slt => if signed 32 a < signed 32 b then 1 else 0
  | .sltu => if a < b then 1 else 0
  | .xor => a ^^^ b
  | .srl => a / 2 ^ (b % 32)
  | .sra => wrap (signed 32 a / 2 ^ (b % 32))
  | .or => a ||| b
  | .and => a &&& b

/-- Whether a comparison holds of two numbers below `2 ^ 32`. -/
def compare (c : Comparison) (a b : Nat) : Bool :=
  match c with
  | .eq => a = b
  | .ne => a ≠ b
  | .lt => signed 32 a < signed 32 b
  | .ge => signed 32 b ≤ signed 32 a
  | .ltu => a < b
  | .geu => b ≤ a

/-! ## The hart -/

/-- The state of a hart and of the memory it sees. -/
@[ext]
structure Hart where
  pc : Nat
  reg : Fin 32 → Nat
  memory : Nat → Option Nat

namespace Hart

def next (h : Hart) : Nat :=
  wrap (h.pc + 4)

/-- The hart with a number in a register; register zero keeps its own. -/
def set (h : Hart) (rd : Fin 32) (x : Nat) : Hart :=
  { h with reg := fun r => if r = rd ∧ r ≠ 0 then x else h.reg r }

def jump (h : Hart) (target : Nat) : Hart :=
  { h with pc := target }

/-- The number that the `len` bytes from an address on spell, the first one weighing least, if
all of them are there. -/
def number? (h : Hart) (addr : Nat) : Nat → Option Nat
  | 0 => some 0
  | len + 1 => do
    let low ← h.memory addr
    let high ← h.number? (addr + 1) len
    return low + 256 * high

/-- The hart with the `len` bytes from an address on spelling a number, if all of them are there. -/
def store? (h : Hart) (addr len x : Nat) : Option Hart :=
  if (h.number? addr len).isSome then
    some { h with
      memory := fun a =>
        if addr ≤ a ∧ a < addr + len then some (x / 256 ^ (a - addr) % 256) else h.memory a }
  else none

/-- The hart after an instruction, or the trap that it raises. -/
def execute (h : Hart) : Decoded → Except Trap Hart
  | .lui rd imm => .ok ((h.set rd (wrap imm)).jump h.next)
  | .auipc rd imm => .ok ((h.set rd (wrap (h.pc + imm))).jump h.next)
  | .jal rd offset => .ok ((h.set rd h.next).jump (wrap (h.pc + offset)))
  | .jalr rd rs1 imm => .ok ((h.set rd h.next).jump (wrap (h.reg rs1 + imm)))
  | .branch c rs1 rs2 offset =>
    .ok (h.jump (if compare c (h.reg rs1) (h.reg rs2) then wrap (h.pc + offset) else h.next))
  | .load width sign rd rs1 imm =>
    let addr := wrap (h.reg rs1 + imm)
    match h.number? addr width.bytes with
    | none => .error (.loadFault (BitVec.ofNat 32 addr) width.bytes)
    | some x =>
      .ok ((h.set rd (if sign then wrap (Rv32i.signed width.bits x) else x)).jump h.next)
  | .store width rs1 rs2 imm =>
    let addr := wrap (h.reg rs1 + imm)
    match h.store? addr width.bytes (h.reg rs2) with
    | none => .error (.storeFault (BitVec.ofNat 32 addr) width.bytes)
    | some h' => .ok (h'.jump h.next)
  | .immediate op rd rs1 imm => .ok ((h.set rd (compute op (h.reg rs1) (wrap imm))).jump h.next)
  | .register op rd rs1 rs2 =>
    .ok ((h.set rd (compute op (h.reg rs1) (h.reg rs2))).jump h.next)
  | .ebreak => .error (.breakpoint (BitVec.ofNat 32 h.pc) (BitVec.ofNat 32 (h.reg 10)))

/-- The hart after the instruction at `pc`, and its record or the trap it ended in.  A trap
changes nothing. -/
def step (h : Hart) : Hart × Except Trap Step :=
  match h.number? h.pc 4 with
  | none => (h, .error (.fetchFault (BitVec.ofNat 32 h.pc)))
  | some w =>
    match decode w with
    | none => (h, .error (.illegalInstruction (BitVec.ofNat 32 h.pc) (BitVec.ofNat 32 w)))
    | some i =>
      match h.execute i with
      | .error t => (h, .error t)
      | .ok h' =>
        (h', .ok {
          pc := BitVec.ofNat 32 h.pc
          snpc := BitVec.ofNat 32 h.next
          dnpc := BitVec.ofNat 32 h'.pc
          inst := BitVec.ofNat 32 w
          name := i.mnemonic })

end Hart

end HartMonitor.Rv32i
