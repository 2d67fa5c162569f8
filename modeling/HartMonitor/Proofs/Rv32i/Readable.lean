/-
# `HartMonitor.Proofs.Rv32i.Readable` — a listed instruction has one reading

From the text of an instruction its word is known.  What stands up to the blank names the row, and
the commas keep the operands apart, since no operand has one:

    mnemonic operand, operand, offset(register)

Registers have different names, and different numbers different digits.  So the text tells what
was read in the word, and a word is assembled from that.  The two texts that are of no row,
`unknown` and `ecall`, are the mnemonics of none.
-/
import HartMonitor.Proofs.Rv32i.Listing
import HartMonitor.Proofs.Text.ReadBack
import Mathlib.Data.List.GetD
import Mathlib.Data.List.Nodup

namespace HartMonitor

open Instruction (Row lookup table namedRows catchAll disassemble)

namespace RegisterNumber

theorem name_eq_get (r : RegisterNumber) : r.name = names.get ⟨r.toNat, r.isLt⟩ :=
  List.getD_eq_getElem names noName r.isLt

theorem name_injective : Function.Injective name := by
  have different : names.Nodup := by decide
  intro r s same
  rw [name_eq_get, name_eq_get] at same
  exact BitVec.eq_of_toNat_eq (congrArg Fin.val ((List.Nodup.get_inj_iff different).mp same))

theorem comma_notMem_name (r : RegisterNumber) : ',' ∉ r.name.toList := by
  have none : ∀ text ∈ names, ',' ∉ text.toList := by decide
  rw [name_eq_get]
  exact none _ (List.get_mem ..)

end RegisterNumber

namespace Instruction

variable {row row' : Row} {w w' : Word}

/-! ## Operands -/

theorem digitChar_ne_comma (d : Nat) : d.digitChar ≠ ',' :=
  Nat.digitChar_ne ',' rfl

theorem comma_notMem_basedText (offset : Int) (r : RegisterNumber) :
    ',' ∉ (basedText offset r).toList := by
  have number : ',' ∉ offset.repr.toList :=
    Text.notMem_repr_int digitChar_ne_comma (by decide) offset
  simp [basedText, number, r.comma_notMem_name]

theorem comma_notMem_marked (n : Nat) : ',' ∉ (Text.marked n).toList := by
  simp [Text.marked, Text.notMem_hex digitChar_ne_comma n]

theorem comma_notMem_texts (row : Row) (o : Written) :
    ∀ text ∈ o.texts row, ',' ∉ text.toList := by
  have number : ∀ i : Int, ',' ∉ i.repr.toList :=
    Text.notMem_repr_int digitChar_ne_comma (by decide)
  have amount : ∀ n : Nat, ',' ∉ Nat.toDigits 10 n :=
    Text.notMem_toDigits digitChar_ne_comma (by decide)
  cases o with
  | immediate rd rs1 imm =>
      simp only [Written.texts]
      split <;> simp [RegisterNumber.comma_notMem_name, number, comma_notMem_basedText]
  | shift | store | branch | upper | jump | register | bare =>
      simp [Written.texts, RegisterNumber.comma_notMem_name, number, amount, comma_notMem_basedText,
        comma_notMem_marked]

theorem basedText_cancel {offset offset' : Int} {r r' : RegisterNumber}
    (same : basedText offset r = basedText offset' r') : offset = offset' ∧ r = r' := by
  have apart : ∀ i : Int, '(' ∉ (toString i).toList :=
    Text.notMem_repr_int (fun _ => Nat.digitChar_ne '(' rfl) (by decide)
  have split : ∀ (i : Int) (r : RegisterNumber), (basedText i r).toList =
      (toString i).toList ++ '(' :: (r.name ++ ")").toList := by
    intro i r
    simp only [basedText, String.toList_append, List.append_assoc]
    rfl
  have lists := congrArg String.toList same
  rw [split, split] at lists
  obtain ⟨number, name⟩ := Text.append_cons_cancel (apart offset) (apart offset') lists
  have name := String.toList_injective name
  exact ⟨Text.repr_int_injective (String.toList_injective number),
    RegisterNumber.name_injective ((String.append_left_inj _).mp name)⟩

/-- What is read in a word is known from its operands as they are listed. -/
theorem disassembled_of_texts
    (same : (disassembled row w).texts row = (disassembled row w').texts row) :
    disassembled row w = disassembled row w' := by
  have number : ∀ {i j : Int}, toString i = toString j → i = j := fun h => Text.repr_int_injective h
  cases h : row.format with
  | immediate =>
      cases shift : row.isShift with
      | true =>
          simp only [disassembled, h, shift, if_true, Written.texts, List.cons.injEq] at same ⊢
          obtain ⟨hrd, hrs1, amount, -⟩ := same
          rw [RegisterNumber.name_injective hrd, RegisterNumber.name_injective hrs1,
            Text.repr_injective amount]
      | false =>
          cases based : row.isBased with
          | true =>
              simp only [disassembled, h, shift, Bool.false_eq_true, if_false, Written.texts, based,
                if_true, List.cons.injEq] at same ⊢
              obtain ⟨hrd, memory, -⟩ := same
              obtain ⟨offset, hrs1⟩ := basedText_cancel memory
              rw [RegisterNumber.name_injective hrd, hrs1, offset]
          | false =>
              simp only [disassembled, h, shift, Bool.false_eq_true, if_false, Written.texts, based,
                List.cons.injEq] at same ⊢
              obtain ⟨hrd, hrs1, imm, -⟩ := same
              rw [RegisterNumber.name_injective hrd, RegisterNumber.name_injective hrs1, number imm]
  | store =>
      simp only [disassembled, h, Written.texts, List.cons.injEq] at same ⊢
      obtain ⟨hrs2, memory, -⟩ := same
      obtain ⟨offset, hrs1⟩ := basedText_cancel memory
      rw [RegisterNumber.name_injective hrs2, hrs1, offset]
  | branch =>
      simp only [disassembled, h, Written.texts, List.cons.injEq] at same ⊢
      obtain ⟨hrs1, hrs2, offset, -⟩ := same
      rw [RegisterNumber.name_injective hrs1, RegisterNumber.name_injective hrs2, number offset]
  | upper =>
      simp only [disassembled, h, Written.texts, List.cons.injEq] at same ⊢
      obtain ⟨hrd, imm, -⟩ := same
      rw [RegisterNumber.name_injective hrd, Text.marked_injective imm]
  | jump =>
      simp only [disassembled, h, Written.texts, List.cons.injEq] at same ⊢
      obtain ⟨hrd, offset, -⟩ := same
      rw [RegisterNumber.name_injective hrd, number offset]
  | register =>
      simp only [disassembled, h, Written.texts, List.cons.injEq] at same ⊢
      obtain ⟨hrd, hrs1, hrs2, -⟩ := same
      rw [RegisterNumber.name_injective hrd, RegisterNumber.name_injective hrs1,
        RegisterNumber.name_injective hrs2]
  | bare => simp only [disassembled, h]

/-! ## Lines -/

theorem row_eq_of_name (mem : row ∈ Rv32i.encodings) (mem' : row' ∈ Rv32i.encodings)
    (same : row.name = row'.name) : row = row' := by
  have different : (Rv32i.encodings.map Row.name).Nodup := by decide
  exact List.inj_on_of_nodup_map different mem mem' same

theorem line_ne_name (name : String) (texts : List String) : line name texts ≠ name := by
  intro same
  have longer := congrArg (fun text => text.toList.length) same
  simp only [line, String.toList_append, List.length_append] at longer
  have blank : (" " : String).toList.length = 1 := rfl
  omega

theorem texts_of_listed {o o' : Written} (same : o.listed row = o'.listed row) :
    o.texts row = o'.texts row := by
  have apart := comma_notMem_texts row o
  have apart' := comma_notMem_texts row o'
  simp only [Written.listed] at same
  generalize o.texts row = texts at same apart ⊢
  generalize o'.texts row = texts' at same apart' ⊢
  cases texts with
  | nil =>
      cases texts' with
      | nil => rfl
      | cons => exact absurd same.symm (line_ne_name _ _)
  | cons =>
      cases texts' with
      | nil => exact absurd same (line_ne_name _ _)
      | cons => exact Text.intercalate_cancel apart apart' ((String.append_right_inj _).mp same)

/-- A listed instruction has one reading. -/
theorem disassembled_of_listed (mem : row ∈ Rv32i.encodings) (mem' : row' ∈ Rv32i.encodings)
    (same : (disassembled row w).listed row = (disassembled row' w').listed row') :
    row = row' ∧ disassembled row w = disassembled row' w' := by
  have name : row.name.toList = row'.name.toList := by
    rw [← mnemonicOf_listed mem, same, mnemonicOf_listed mem']
  obtain rfl := row_eq_of_name mem mem' (String.toList_injective name)
  exact ⟨rfl, disassembled_of_texts (texts_of_listed same)⟩

theorem eq_of_disassemble (mem : row ∈ namedRows) (found : lookup table w = some row)
    (same : disassemble w = disassemble w') : w = w' := by
  have named : ∀ {row : Row}, row ∈ namedRows → row ∈ Rv32i.encodings := fun mem =>
    Rv32i.namedRows_eq ▸ mem
  have fits := (lookup_eq_some_iff mem).mp found
  rw [disassemble_of_matches (named mem) fits] at same
  obtain ⟨row', mem', fits', found'⟩ | ⟨-, found'⟩ := lookup_table_cases w'
  · rw [disassemble_of_matches (named mem') fits'] at same
    obtain ⟨rfl, read⟩ := disassembled_of_listed (named mem) (named mem') same
    rw [← assemble_disassembled (named mem) fits, read, assemble_disassembled (named mem) fits']
  · by_cases call : w' = 0x00000073
    · have text : disassemble w' = "ecall" := by rw [call]; decide
      exact absurd (same.trans text) (listed_ne (named mem) _ (by decide))
    · have text := disassemble_of_missed call found'
      exact absurd (same.trans text) (listed_ne (named mem) _ (by decide))

end Instruction

theorem Machine.named_of_completed {m : Machine} {s : Step} (done : m.step.2 = .ok s) :
    ∃ row ∈ namedRows, lookup table s.inst = some row := by
  have executed := m.executed_step
  generalize m.step = out at executed done
  cases executed with
  | unfetched | undescribed | trapped => cases done
  | @completed inst row next _ found applied =>
      cases done
      obtain ⟨named, mem, -, found'⟩ | ⟨-, found'⟩ := Instruction.lookup_table_cases inst
      · exact ⟨named, mem, found'⟩
      · -- the last row only traps
        cases found.symm.trans found'
        cases applied

/-- Disassembly loses nothing: a word that has an instruction is the only one with its text, and so
are the words that machines complete. -/
theorem disassembly_lossless :
    (∀ (w w' : Word) (row : Row), row ∈ namedRows → lookup table w = some row →
      disassemble w = disassemble w' → w = w') ∧
    ∀ (m m' : Machine) (s s' : Step), m.step.2 = .ok s → m'.step.2 = .ok s' →
      disassemble s.inst = disassemble s'.inst → s.inst = s'.inst := by
  refine ⟨fun w w' row mem found same => Instruction.eq_of_disassemble mem found same,
    fun m m' s s' done _ same => ?_⟩
  obtain ⟨row, mem, found⟩ := Machine.named_of_completed done
  exact Instruction.eq_of_disassemble mem found same

/-- The word that is assembled for a branch is the one that is listed as that branch; and a program
that stands in two places has one text for the instruction that both machines complete. -/
theorem disassembly_lossless_beq :
    let row : Row := ⟨"beq", Rv32i.fixed 0b1100011 (some 0) none, .branch, .branch .eq⟩
    let w := Instruction.assemble row (.branch 1 2 (-4))
    let code := bytesOfWord 0x00a00513 4
    let first : Machine :=
      ⟨Registers.zeros, 0x80000000, 0x80000000, (Store.zeros 8).put 0 code, by decide⟩
    let second : Machine :=
      ⟨Registers.zeros, 0x80000004, 0x80000000, (Store.zeros 8).put 4 code, by decide⟩
    (row ∈ namedRows ∧ lookup table w = some row ∧ disassemble w = "beq ra, sp, -4" ∧
      disassemble 0xfe208ee3 = "beq ra, sp, -4" ∧ w = 0xfe208ee3) ∧
    ∃ s s' : Step, first.step.2 = .ok s ∧ second.step.2 = .ok s' ∧
      disassemble s.inst = "addi a0, $0, 10" ∧ disassemble s'.inst = "addi a0, $0, 10" ∧
      s.inst = s'.inst := by
  intro row w code first second
  have mem : row ∈ namedRows := by rw [Rv32i.namedRows_eq]; decide
  have found : lookup table w = some row := (Instruction.lookup_eq_some_iff mem).mpr (by decide)
  have text : disassemble w = "beq ra, sp, -4" := by decide
  have text' : disassemble 0xfe208ee3 = "beq ra, sp, -4" := by decide
  have addi : lookup table 0x00a00513 =
      some ⟨"addi", Rv32i.fixed 0b0010011 (some 0) none, .immediate, .alu .add⟩ :=
    (Instruction.lookup_eq_some_iff (by rw [Rv32i.namedRows_eq]; decide)).mpr (by decide)
  have fetched : first.memory.fetch first.pc instructionBytes = .ok 0x00a00513 := by
    decide
  have fetched' : second.memory.fetch second.pc instructionBytes = .ok 0x00a00513 := by
    decide
  have done : first.step.2 = .ok ⟨0x80000000, 0x80000004, 0x80000004, 0x00a00513, "addi"⟩ := by
    rw [Machine.step_of_found fetched addi]
    rfl
  have done' : second.step.2 = .ok ⟨0x80000004, 0x80000008, 0x80000008, 0x00a00513, "addi"⟩ := by
    rw [Machine.step_of_found fetched' addi]
    rfl
  have listed : disassemble 0x00a00513 = "addi a0, $0, 10" := by decide
  obtain ⟨words, steps⟩ := disassembly_lossless
  exact ⟨⟨mem, found, text, text', words w _ row mem found (text.trans text'.symm)⟩,
    _, _, done, done', listed, listed, steps _ _ _ _ done done' rfl⟩

end HartMonitor
