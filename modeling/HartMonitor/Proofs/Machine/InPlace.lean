/-
# `HartMonitor.Proofs.Machine.InPlace` — an instruction, write by write

A step gives the machine after an instruction, and where the instruction traps the machine
before it.  Here there is one machine, which is changed where it stands, and nothing is
taken back: whatever was written before a trap stays written.  An instruction goes

    fetch    describe    act    register zero    pc

and `act` writes a register, or the bytes of a store one after the other, register zero
not excepted.  A trap of `act` is kept until register zero is back at zero.

    run_act     what an action does, or a trap and nothing written
    run_step    the two ways of executing an instruction are the same
-/
import HartMonitor.Machine.Step
import HartMonitor.Proofs.Memory.Window

namespace HartMonitor

def Memory.setByte (m : Memory) (offset : Nat) (b : Byte) : Memory :=
  { m with store := m.store.setByte offset b }

/-- A computation that changes a machine where it stands.  A trap takes nothing back. -/
abbrev InPlace (α : Type) := ExceptT Trap (StateM Machine) α

namespace InPlace

open Instruction (Row Operands lookup table operands)

def lift {α : Type} (result : Except Trap α) : InPlace α := ExceptT.mk (pure result)

/-- How a computation comes out, a trap being a result like any other. -/
def outcome {α : Type} (x : InPlace α) : InPlace (Except Trap α) := ExceptT.lift x.run

/-! ## Writes -/

def setRegister (rd : RegisterNumber) (w : Word) : InPlace Unit :=
  modify fun m => { m with regs := m.regs.write rd w }

def setByte (offset : Nat) (b : Byte) : InPlace Unit :=
  modify fun m => { m with memory := m.memory.setByte offset b }

/-- Some bytes put into the memory from an offset on, one after the other. -/
def putBytes (offset : Nat) : List Byte → InPlace Unit
  | [] => pure ()
  | b :: rest => do
    setByte offset b
    putBytes (offset + 1) rest

/-- The low `len` bytes of a word written from an address on.  The window is looked at before the
first of them. -/
def writeWord (addr : Word) (len : Nat) (w : Word) : InPlace Unit := do
  let memory := (← get).memory
  if memory.Covers addr len then putBytes (addr.toNat - memory.base.toNat) (bytesOfWord w len)
  else throw (.storeFault addr len)

/-! ## Instructions -/

/-- What an action writes, and the address of the instruction that comes next. -/
def act (row : Row) (inst : Word) (o : Operands) : InPlace Word := do
  let m ← get
  match row.action with
  | .lui =>
    setRegister o.rd o.imm
    return m.snpc
  | .auipc =>
    setRegister o.rd (m.pc + o.imm)
    return m.snpc
  | .jal =>
    setRegister o.rd m.snpc
    return m.relative o.imm
  | .jalr =>
    setRegister o.rd m.snpc
    return o.src1 + o.imm
  | .branch c => return if c.holds o.src1 o.src2 then m.relative o.imm else m.snpc
  | .load width signed =>
    let w ← lift (m.memory.loadWord (o.src1 + o.imm) width signed)
    setRegister o.rd w
    return m.snpc
  | .store width =>
    writeWord (o.src1 + o.imm) width.bytes o.src2
    return m.snpc
  | .alu op =>
    setRegister o.rd (op.eval o.src1 (Machine.aluOperand row.format o))
    return m.snpc
  | .ebreak => throw (.breakpoint m.pc (m.regs.read .a0))
  | .invalid => throw (.illegalInstruction m.pc inst)

/-- An instruction that a row describes.  A trap of its action is kept until register zero is back
at zero, and `pc` moves last. -/
def execute (row : Row) (inst : Word) : InPlace Step := do
  let m ← get
  let next ← outcome (act row inst (operands row.format m.regs inst))
  modify Machine.resetZero
  let dnpc ← lift next
  modify fun after => { after with pc := dnpc }
  return { pc := m.pc, snpc := m.snpc, dnpc := dnpc, inst := inst, name := row.name }

/-- The instruction at `pc`. -/
def step : InPlace Step := do
  let m ← get
  let inst ← lift (m.memory.fetch m.pc instructionBytes)
  match lookup table inst with
  | none => throw (.unimplementedFormat m.pc inst)
  | some row => execute row inst

/-! ## The machine after them -/

section Bind
variable {α β : Type} {x : InPlace α} {f : α → InPlace β} {m m' : Machine}

theorem run_bind_ok {a : α} (h : x.run.run m = (.ok a, m')) :
    (x >>= f).run.run m = (f a).run.run m' := by
  rw [ExceptT.run_bind, StateT.run_bind, h]
  rfl

theorem run_bind_error {t : Trap} (h : x.run.run m = (.error t, m')) :
    (x >>= f).run.run m = (.error t, m') := by
  rw [ExceptT.run_bind, StateT.run_bind, h]
  rfl

theorem run_get_bind {g : Machine → InPlace β} : (get >>= g).run.run m = (g m).run.run m := rfl

end Bind

variable {m : Machine}

/-- The bytes of a slice are in memory when the last of them is. -/
theorem run_putBytes (bytes : List Byte) :
    ∀ {m : Machine} {offset : Nat}, ∃ memory : Memory,
      (putBytes offset bytes).run.run m = (.ok (), { m with memory := memory }) ∧
        memory.base = m.memory.base ∧ memory.store = m.memory.store.put offset bytes := by
  induction bytes with
  | nil => intro m offset; exact ⟨m.memory, rfl, rfl, rfl⟩
  | cons b rest ih =>
      intro m offset
      exact @ih { m with memory := m.memory.setByte offset b } (offset + 1)

/-- A word is written whole or not at all. -/
theorem run_writeWord (addr : Word) (len : Nat) (w : Word) :
    (writeWord addr len w).run.run m =
      match m.memory.write addr len w with
      | .ok memory => (.ok (), { m with memory := memory })
      | .error t => (.error t, m) := by
  show (ite (m.memory.Covers addr len) _ _ : InPlace Unit).run.run m = _
  by_cases covers : m.memory.Covers addr len
  · obtain ⟨memory, ran, base, store⟩ :=
      @run_putBytes (bytesOfWord w len) m (addr.toNat - m.memory.base.toNat)
    obtain ⟨written, wrote, base', store'⟩ := Memory.write_of_covers w covers
    have same : memory = written := by
      cases memory
      cases written
      simp_all
    rw [if_pos covers, wrote, ← same]
    exact ran
  · rw [if_neg covers, Memory.write_of_not_covers w covers]
    rfl

/-- An action does what it does to the machine, up to `pc`; where it traps, it has written
nothing. -/
theorem run_act (row : Row) (inst : Word) (o : Operands) :
    (act row inst o).run.run m =
      match m.apply row inst o with
      | .ok next => (.ok next.pc, { next with pc := m.pc })
      | .error t => (.error t, m) := by
  obtain ⟨name, pattern, format, action⟩ := row
  cases action with
  | load width signed =>
      show (lift (m.memory.loadWord (o.src1 + o.imm) width signed) >>= _ : InPlace Word).run.run m = _
      simp only [Machine.apply]
      cases m.memory.loadWord (o.src1 + o.imm) width signed <;> rfl
  | store width =>
      have wrote := @run_writeWord m (o.src1 + o.imm) width.bytes o.src2
      show (writeWord (o.src1 + o.imm) width.bytes o.src2 >>= fun _ => pure m.snpc).run.run m = _
      simp only [Machine.apply, Memory.storeWord]
      cases h : m.memory.write (o.src1 + o.imm) width.bytes o.src2 with
      | error t =>
          rw [h] at wrote
          exact run_bind_error wrote
      | ok memory =>
          rw [h] at wrote
          exact run_bind_ok wrote
  | lui | auipc | jal | jalr | branch | alu | ebreak | invalid => rfl

theorem run_execute (row : Row) (inst : Word) :
    (execute row inst).run.run m = ((m.execute row inst).2, (m.execute row inst).1) := by
  have acted := @run_act m row inst (operands row.format m.regs inst)
  have kept : ∀ {result after}, (act row inst (operands row.format m.regs inst)).run.run m =
      (result, after) → (outcome (act row inst (operands row.format m.regs inst))).run.run m =
        (.ok result, after) := by
    intro result after h
    rw [outcome, ExceptT.run_lift, StateT.run_map, h]
    rfl
  rw [Machine.execute]
  cases applied : m.apply row inst (operands row.format m.regs inst) with
  | error t =>
      rw [applied] at acted
      exact run_get_bind.trans (run_bind_ok (kept acted))
  | ok next =>
      rw [applied] at acted
      exact run_get_bind.trans (run_bind_ok (kept acted))

/-- Executing an instruction write by write gives the machine and the outcome of a step. -/
theorem run_step (m : Machine) : step.run.run m = (m.step.2, m.step.1) := by
  rw [Machine.step]
  cases fetched : m.memory.fetch m.pc instructionBytes with
  | error t =>
      have lifted : (lift (m.memory.fetch m.pc instructionBytes)).run.run m = (.error t, m) :=
        congrArg (·, m) fetched
      exact run_get_bind.trans (run_bind_error lifted)
  | ok inst =>
      have lifted : (lift (m.memory.fetch m.pc instructionBytes)).run.run m = (.ok inst, m) :=
        congrArg (·, m) fetched
      refine run_get_bind.trans ((run_bind_ok lifted).trans ?_)
      cases found : lookup table inst with
      | none => simp only [found]; rfl
      | some row => simp only [found]; exact run_execute row inst

end InPlace

end HartMonitor
