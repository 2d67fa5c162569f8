/-
# `HartMonitor.Proofs.Rv32i.Trap` — the traps of an instruction, and what they leave

An instruction traps in one of five ways (`Hart.Traps`), told by the bytes that are there
and by what the word at `pc` encodes:

    fetchFault            a byte of the instruction is not there
    illegalInstruction    the word encodes nothing
    breakpoint            the word is the breakpoint
    loadFault             a byte that a load reads is not there
    storeFault            a byte that a store writes is not there

One byte that is not there is enough, whatever the others are.  A hart traps in these ways and
in no other (`step_eq_error_iff`), and a machine that traps is the machine it was.
-/
import HartMonitor.Proofs.Machine.InPlace
import HartMonitor.Proofs.Rv32i.Refinement

namespace HartMonitor

namespace Rv32i.Hart

/-- Some of the `len` bytes from an address on are not there. -/
def Lacks (h : Hart) (addr len : Nat) : Prop :=
  ∃ i < len, h.memory (addr + i) = none

/-- The trap that an instruction raises. -/
inductive Raises (h : Hart) : Decoded → Trap → Prop
  | ebreak : Raises h .ebreak (.breakpoint (BitVec.ofNat 32 h.pc) (BitVec.ofNat 32 (h.reg 10)))
  | load {width : Width} {sign : Bool} {rd rs1 : Fin 32} {imm : Int} {addr : Nat} :
      addr = wrap (h.reg rs1 + imm) → h.Lacks addr width.bytes →
      Raises h (.load width sign rd rs1 imm) (.loadFault (BitVec.ofNat 32 addr) width.bytes)
  | store {width : Width} {rs1 rs2 : Fin 32} {imm : Int} {addr : Nat} :
      addr = wrap (h.reg rs1 + imm) → h.Lacks addr width.bytes →
      Raises h (.store width rs1 rs2 imm) (.storeFault (BitVec.ofNat 32 addr) width.bytes)

/-- The trap that the instruction at `pc` ends in. -/
inductive Traps (h : Hart) : Trap → Prop
  | fetch : h.Lacks h.pc 4 → Traps h (.fetchFault (BitVec.ofNat 32 h.pc))
  | illegal {w : Nat} : h.number? h.pc 4 = some w → decode w = none →
      Traps h (.illegalInstruction (BitVec.ofNat 32 h.pc) (BitVec.ofNat 32 w))
  | raised {w : Nat} {i : Decoded} {t : Trap} : h.number? h.pc 4 = some w → decode w = some i →
      h.Raises i t → Traps h t

variable {h : Hart} {t : Trap}

theorem number?_eq_none_iff {len : Nat} :
    ∀ {addr : Nat}, h.number? addr len = none ↔ h.Lacks addr len := by
  induction len with
  | zero =>
      intro addr
      constructor
      · intro none
        cases none
      · rintro ⟨i, lt, -⟩
        cases lt
  | succ len ih =>
      intro addr
      have later : h.Lacks (addr + 1) len ↔ ∃ i < len, h.memory (addr + (i + 1)) = none := by
        simp only [Lacks, Nat.add_assoc, Nat.add_comm 1]
      rw [Lacks, Nat.exists_lt_succ_left, ← later, ← ih, number?, Nat.add_zero]
      cases h.memory addr with
      | none => simp
      | some low => cases h.number? (addr + 1) len <;> simp

theorem store?_eq_none_iff {addr len x : Nat} : h.store? addr len x = none ↔ h.Lacks addr len := by
  rw [← number?_eq_none_iff, store?]
  cases h.number? addr len with
  | none => simp
  | some found => simp

theorem execute_eq_error_iff {i : Decoded} : h.execute i = .error t ↔ h.Raises i t := by
  constructor
  · intro failed
    cases i with
    | load width sign rd rs1 imm =>
        simp only [execute] at failed
        split at failed
        · next none => cases failed; exact .load rfl (number?_eq_none_iff.mp none)
        · cases failed
    | store width rs1 rs2 imm =>
        simp only [execute] at failed
        split at failed
        · next none => cases failed; exact .store rfl (store?_eq_none_iff.mp none)
        · cases failed
    | ebreak => cases failed; exact .ebreak
    | lui | auipc | jal | jalr | branch | immediate | register => cases failed
  · intro raised
    cases raised with
    | ebreak => rfl
    | load addr lacks =>
        subst addr
        simp only [execute, number?_eq_none_iff.mpr lacks]
    | store addr lacks =>
        subst addr
        simp only [execute, store?_eq_none_iff.mpr lacks]

/-- A hart traps in these ways and in no other. -/
theorem step_eq_error_iff : h.step.2 = .error t ↔ h.Traps t := by
  constructor
  · intro failed
    simp only [step] at failed
    split at failed
    · next none => cases failed; exact .fetch (number?_eq_none_iff.mp none)
    · next w fetched =>
      split at failed
      · next undescribed => cases failed; exact .illegal fetched undescribed
      · next i described =>
        split at failed
        · next cause raised =>
          cases failed
          exact .raised fetched described (execute_eq_error_iff.mp raised)
        · cases failed
  · intro trapped
    cases trapped with
    | fetch lacks => simp only [step, number?_eq_none_iff.mpr lacks]
    | illegal fetched undescribed => simp only [step, fetched, undescribed]
    | raised fetched described raised =>
        simp only [step, fetched, described, execute_eq_error_iff.mpr raised]

end Rv32i.Hart

/-- Traps are precise: a machine that traps, executed write by write, is the machine it was. -/
theorem traps_precise {m : Machine} (zero : m.regs.read 0 = 0) :
    InPlace.step.run.run m = (m.step.2, m.step.1) ∧
      ∀ t, (m.step.2 = .error t ↔ m.toHart.Traps t) ∧ (m.step.2 = .error t → m.step.1 = m) := by
  refine ⟨InPlace.run_step m, fun t => ⟨?_, fun h => ?_⟩⟩
  · rw [← Rv32i.Hart.step_eq_error_iff, ← Rv32i.step_toHart zero]
  · have trapped : m.step = (m.step.1, .error t) := Prod.ext rfl h
    exact Machine.eq_of_step_error zero trapped

/-- A store of four bytes, two of them past the end of memory: the two that fit are not written. -/
theorem traps_precise_store :
    let m : Machine := {
      regs := (Registers.zeros.write 5 0x80000006).write 6 0xffffffff
      pc := 0x80000000
      memory := ⟨0x80000000, (Store.zeros 8).put 0 (bytesOfWord 0x0062a023 4), by decide⟩ }
    m.regs.read 0 = 0 ∧ m.memory.read 0x80000006 2 = .ok 0 ∧
      m.toHart.Traps (.storeFault 0x80000006 4) ∧
      InPlace.step.run.run m = (.error (.storeFault 0x80000006 4), m) := by
  intro m
  have zero : m.regs.read 0 = 0 := by decide +kernel
  have found : Instruction.lookup Instruction.table 0x0062a023 =
      some ⟨"sw", Rv32i.fixed 0b0100011 (some 0b010) none, .store, .store .word⟩ := by
    rw [Instruction.table, Rv32i.lookup_concat, Rv32i.namedRows_eq]
    decide
  have fetched : m.memory.fetch m.pc instructionBytes = .ok 0x0062a023 := by decide +kernel
  have faulted : m.step.2 = .error (.storeFault 0x80000006 4) := by
    rw [Machine.step_of_found fetched found]
    decide +kernel
  obtain ⟨ran, precise⟩ := traps_precise zero
  obtain ⟨trap, kept⟩ := precise (.storeFault 0x80000006 4)
  refine ⟨zero, by decide +kernel, trap.mp faulted, ?_⟩
  rw [ran, faulted, kept faulted]

end HartMonitor
