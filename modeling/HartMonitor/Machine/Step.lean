/-
# `HartMonitor.Machine.Step` — one instruction

An instruction is fetched at `pc`, described by the first row of the decode table that
matches it, and applied.  Sources are read before anything is written.  `snpc` is the
address after the instruction and `dnpc` the one that comes next:

    lui, auipc, alu, load, store    dnpc = snpc
    jal, taken branch               dnpc = pc + 2 * imm      (imm counts halfwords)
    jalr                            dnpc = src1 + imm        (bit zero is kept)

Register zero is put back at zero after every instruction that was described, also
after one that trapped.  A trap leaves `pc` on the instruction.
-/
import HartMonitor.Instruction.Table
import HartMonitor.Machine

namespace HartMonitor

/-- The record of an instruction that completed. -/
structure Step where
  /-- Where it was fetched. -/
  pc : Word
  /-- The address after it. -/
  snpc : Word
  /-- The address of the instruction that comes next. -/
  dnpc : Word
  inst : Word
  name : String
deriving DecidableEq, Repr

def instructionBytes : Nat := 4

namespace Machine

open Instruction

def snpc (m : Machine) : Word :=
  m.pc + BitVec.ofNat 32 instructionBytes

/-- The target of a jump by an offset in halfwords. -/
def relative (m : Machine) (halfwords : Word) : Word :=
  m.pc + halfwords * 2

/-- The machine with a word in a register and the next address in `pc`. -/
def retire (m : Machine) (rd : RegisterNumber) (w : Word) (dnpc : Word) : Machine :=
  { m with regs := m.regs.write rd w, pc := dnpc }

/-- The second operand of a computation: a source in the register format, the immediate in every
other. -/
def aluOperand (format : Format) (o : Operands) : Word :=
  if format = .register then o.src2 else o.imm

/-- The machine after an action on decoded operands. -/
def apply (m : Machine) (row : Row) (inst : Word) (o : Operands) : Except Trap Machine :=
  match row.action with
  | .lui => .ok (m.retire o.rd o.imm m.snpc)
  | .auipc => .ok (m.retire o.rd (m.pc + o.imm) m.snpc)
  | .jal => .ok (m.retire o.rd m.snpc (m.relative o.imm))
  | .jalr => .ok (m.retire o.rd m.snpc (o.src1 + o.imm))
  | .branch c =>
    .ok { m with pc := if c.holds o.src1 o.src2 then m.relative o.imm else m.snpc }
  | .load width signed =>
    (m.memory.loadWord (o.src1 + o.imm) width signed).map fun w => m.retire o.rd w m.snpc
  | .store width =>
    (m.memory.storeWord (o.src1 + o.imm) width o.src2).map fun memory =>
      { m with memory := memory, pc := m.snpc }
  | .alu op => .ok (m.retire o.rd (op.eval o.src1 (aluOperand row.format o)) m.snpc)
  | .ebreak => .error (.breakpoint m.pc (m.regs.read .a0))
  | .invalid => .error (.illegalInstruction m.pc inst)

def resetZero (m : Machine) : Machine :=
  { m with regs := m.regs.resetZero }

/-- The machine after the instruction `inst`, described by a row of the table, and the record of
that instruction or the trap it ended in. -/
def execute (m : Machine) (row : Row) (inst : Word) : Machine × Except Trap Step :=
  match m.apply row inst (operands row.format m.regs inst) with
  | .error trap => (m.resetZero, .error trap)
  | .ok next =>
    (next.resetZero,
      .ok { pc := m.pc, snpc := m.snpc, dnpc := next.pc, inst := inst, name := row.name })

/-- The machine after the instruction at `pc`, and its record or the trap it ended in. -/
def step (m : Machine) : Machine × Except Trap Step :=
  match m.memory.fetch m.pc instructionBytes with
  | .error trap => (m, .error trap)
  | .ok inst =>
    match lookup table inst with
    | none => (m, .error (.unimplementedFormat m.pc inst))
    | some row => m.execute row inst

end Machine

end HartMonitor
