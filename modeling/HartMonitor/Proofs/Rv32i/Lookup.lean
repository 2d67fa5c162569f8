/-
# `HartMonitor.Proofs.Rv32i.Lookup` — one row for every word

Any two rows of instructions fix some bit differently, so that a word matches one of them at most,
wherever they stand.  The last row matches every word:

    some instruction matches      its row is found, in any order of the rows before the last
    none does                     the last row is found, and the machine traps

So a look-up always finds a row, and no machine meets a word that no row describes.
-/
import HartMonitor.Proofs.Machine.Precise
import HartMonitor.Proofs.Rv32i.Encoding
import Mathlib.Data.List.Find

namespace HartMonitor

open Instruction (Row lookup table namedRows catchAll)

namespace Instruction

variable {rows : List Row}

/-! ## Rows that match -/

theorem length_matching_le_one (w : Word) :
    (namedRows.filter fun row => row.pattern.Matches w).length ≤ 1 := by
  have clash : (namedRows.filter fun row => row.pattern.Matches w).Pairwise fun a b =>
      Clash a.pattern b.pattern :=
    (Rv32i.namedRows_eq ▸ clash_rows).filter _
  have fits : ∀ row ∈ namedRows.filter fun row => row.pattern.Matches w,
      row.pattern.Matches w := fun row mem => of_decide_eq_true (List.mem_filter.mp mem).2
  generalize (namedRows.filter fun row => row.pattern.Matches w) = matching at clash fits ⊢
  match matching with
  | [] | [_] => simp
  | a :: b :: rest =>
      have apart := List.rel_of_pairwise_cons clash (List.mem_cons_self (a := b))
      exact absurd (fits b (by simp)) (apart.not_matches (fits a (by simp)))

theorem lookup_table_cases (w : Word) :
    (∃ row ∈ namedRows, row.pattern.Matches w ∧ lookup table w = some row) ∨
      (∀ row ∈ namedRows, ¬ row.pattern.Matches w) ∧ lookup table w = some catchAll := by
  by_cases named : ∃ row ∈ namedRows, row.pattern.Matches w
  · obtain ⟨row, mem, fits⟩ := named
    exact .inl ⟨row, mem, fits, (lookup_eq_some_iff mem).mpr fits⟩
  · have none : ∀ row ∈ namedRows, ¬ row.pattern.Matches w := fun row mem fits =>
      named ⟨row, mem, fits⟩
    have missed : namedRows.find? (fun row => decide (row.pattern.Matches w)) = Option.none :=
      List.find?_eq_none.mpr fun row mem => by simpa using none row mem
    exact .inr ⟨none, by rw [table, Rv32i.lookup_concat, missed, Option.none_or]⟩

theorem lookup_table_ne_none (w : Word) : lookup table w ≠ none := by
  intro missed
  obtain ⟨_, _, _, found⟩ | ⟨_, found⟩ := lookup_table_cases w
  · rw [missed] at found; cases found
  · rw [missed] at found; cases found

theorem lookup_perm (perm : rows.Perm table) (last : rows.getLast? = some catchAll) (w : Word) :
    lookup rows w = lookup table w := by
  obtain ⟨front, rfl⟩ := List.getLast?_eq_some_iff.mp last
  have same : namedRows.Perm front := ((List.perm_append_right_iff [catchAll]).mp perm).symm
  have one : {row ∈ namedRows | decide (row.pattern.Matches w)}.Subsingleton := by
    rintro a ⟨ha, fa⟩ b ⟨hb, fb⟩
    have found := (lookup_eq_some_iff ha).mpr (of_decide_eq_true fa)
    rw [(lookup_eq_some_iff hb).mpr (of_decide_eq_true fb)] at found
    exact (Option.some.inj found).symm
  rw [table, Rv32i.lookup_concat, Rv32i.lookup_concat, List.find?_eq_find?_of_perm same one]

theorem action_ne_invalid : ∀ row ∈ namedRows, row.action ≠ .invalid := by
  rw [Rv32i.namedRows_eq]
  decide +kernel

end Instruction

/-! ## Words that no instruction matches -/

namespace Machine

variable {m : Machine} {pc w : Word}

theorem step_ne_unimplementedFormat (m : Machine) (pc w : Word) :
    m.step.2 ≠ .error (.unimplementedFormat pc w) := by
  intro failed
  have executed := m.executed_step
  generalize m.step = out at executed failed
  cases executed with
  | unfetched missing =>
      cases failed
      cases Memory.fault_of_orFault missing
  | undescribed _ missed => exact Instruction.lookup_table_ne_none _ missed
  | trapped _ _ raised =>
      cases failed
      cases raised_of_apply raised
  | completed => cases failed

/-- An instruction is illegal where the word at `pc` matches none. -/
theorem step_eq_illegalInstruction_iff :
    m.step.2 = .error (.illegalInstruction pc w) ↔
      pc = m.pc ∧ m.memory.fetch m.pc instructionBytes = .ok w ∧
        ∀ row ∈ namedRows, ¬ row.pattern.Matches w := by
  constructor
  · intro failed
    have executed := m.executed_step
    generalize m.step = out at executed failed
    cases executed with
    | unfetched missing =>
        cases failed
        cases Memory.fault_of_orFault missing
    | undescribed => cases failed
    | @trapped inst row _ fetched found raised =>
        cases failed
        cases raised_of_apply raised with
        | invalid action =>
            obtain ⟨named, mem, _, other⟩ | ⟨none, _⟩ := Instruction.lookup_table_cases w
            · rw [found] at other
              cases other
              exact absurd action (Instruction.action_ne_invalid row mem)
            · exact ⟨rfl, fetched, none⟩
    | completed => cases failed
  · rintro ⟨rfl, fetched, none⟩
    obtain ⟨row, mem, fits, _⟩ | ⟨_, found⟩ := Instruction.lookup_table_cases w
    · exact absurd fits (none row mem)
    · rw [step_of_found fetched found]
      rfl

end Machine

/-- The decode table has one row for every word, in whatever order its instructions stand: no
machine meets a word without a row, and an instruction is illegal exactly where no row but the last
matches it. -/
theorem decode_table_unambiguous :
    (∀ w : Word, (namedRows.filter fun row => row.pattern.Matches w).length ≤ 1) ∧
    (∀ rows : List Row, rows.Perm table → rows.getLast? = some catchAll →
      ∀ w, lookup rows w = lookup table w) ∧
    (∀ w : Word, lookup table w ≠ none) ∧
    ∀ (m : Machine) (pc w : Word),
      m.step.2 ≠ .error (.unimplementedFormat pc w) ∧
      (m.step.2 = .error (.illegalInstruction pc w) ↔
        pc = m.pc ∧ m.memory.fetch m.pc instructionBytes = .ok w ∧
          ∀ row ∈ namedRows, ¬ row.pattern.Matches w) := by
  refine ⟨Instruction.length_matching_le_one,
    fun rows perm last => Instruction.lookup_perm perm last, Instruction.lookup_table_ne_none,
    fun m pc w => ⟨m.step_ne_unimplementedFormat pc w, Machine.step_eq_illegalInstruction_iff⟩⟩

/-- With its instructions in reverse the table has the same row for an addition, and a call of the
environment is still illegal. -/
theorem decode_table_unambiguous_reversed :
    let rows := namedRows.reverse ++ [catchAll]
    let m : Machine := {
      regs := Registers.zeros
      pc := 0x80000000
      memory := ⟨0x80000000, (Store.zeros 8).put 0 (bytesOfWord 0x00000073 4), by decide⟩ }
    rows.Perm table ∧ rows.getLast? = some catchAll ∧
      lookup rows 0x00c58533 = lookup table 0x00c58533 ∧
      (lookup rows 0x00c58533).map Row.name = some "add" ∧
      m.step.2 = .error (.illegalInstruction 0x80000000 0x00000073) := by
  intro rows m
  have perm : rows.Perm table := (List.reverse_perm namedRows).append_right [catchAll]
  have last : rows.getLast? = some catchAll := List.getLast?_concat
  obtain ⟨_, order, _, traps⟩ := decode_table_unambiguous
  have same := order rows perm last 0x00c58533
  refine ⟨perm, last, same, ?_, (traps m 0x80000000 0x00000073).2.mpr ⟨rfl, ?_, ?_⟩⟩
  · rw [same, table, Rv32i.lookup_concat, Rv32i.namedRows_eq]
    decide +kernel
  · decide +kernel
  · rw [Rv32i.namedRows_eq]
    decide +kernel

end HartMonitor
