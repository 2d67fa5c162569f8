/-
# `HartMonitor.Proofs.Shell.Wording` — the lines of answers are plain

Four characters begin something that stands out on the screen: the prompt, the last line of a
run, and the heading of its statistics.  No other line that a shell prints begins with one of
them, and none has a line feed (`Plain`).  Where a line echoes a piece of the input, it does so
behind words of its own, so that nothing typed can pass for the end of a run.
-/
import HartMonitor.Proofs.Expression.Quotation
import HartMonitor.Shell
import Mathlib.Data.List.GetD

namespace HartMonitor

open Text (OneLine)

/-! ## Instructions -/

namespace Instruction

@[simp]
theorem oneLine_name (r : RegisterNumber) : OneLine r.name := by
  have listed : ∀ name ∈ RegisterNumber.names, OneLine name := by decide +kernel
  have bound : r.toNat < RegisterNumber.names.length := r.isLt
  rw [RegisterNumber.name, RegisterNumber.nameAt, List.getD_eq_getElem _ _ bound]
  exact listed _ (List.getElem_mem bound)

section Mnemonics
variable {f3 : BitVec 3} {f7 : BitVec 7} {mnemonic : String}

theorem oneLine_loadMnemonic (h : loadMnemonic? f3 = some mnemonic) : OneLine mnemonic := by
  simp only [loadMnemonic?] at h
  split at h <;> cases h <;> decide

theorem oneLine_storeMnemonic (h : storeMnemonic? f3 = some mnemonic) : OneLine mnemonic := by
  simp only [storeMnemonic?] at h
  split at h <;> cases h <;> decide

theorem oneLine_branchMnemonic (h : branchMnemonic? f3 = some mnemonic) : OneLine mnemonic := by
  simp only [branchMnemonic?] at h
  split at h <;> cases h <;> decide

theorem oneLine_registerMnemonic (h : registerMnemonic? f3 f7 = some mnemonic) :
    OneLine mnemonic := by
  simp only [registerMnemonic?] at h
  split at h <;> cases h <;> decide

theorem oneLine_immediateMnemonic {isShift : Bool}
    (h : immediateMnemonic? f3 f7 = some (mnemonic, isShift)) : OneLine mnemonic := by
  simp only [immediateMnemonic?] at h
  split at h <;> cases h <;> decide

end Mnemonics

theorem oneLine_line {mnemonic : String} {operandTexts : List String} (name : OneLine mnemonic)
    (operands : ∀ text ∈ operandTexts, OneLine text) : OneLine (line mnemonic operandTexts) := by
  have separated := Text.oneLine_intercalate (by decide : OneLine ", ") operands
  simp +decide [line, name, separated]

@[simp]
theorem oneLine_based (offset : Word) (r : RegisterNumber) : OneLine (based offset r) := by
  simp +decide [based]

@[simp]
theorem oneLine_immediateText (isShift : Bool) (inst : Word) :
    OneLine (immediateText isShift inst) := by
  cases isShift <;> simp [immediateText]

theorem oneLine_disassemble? {inst : Word} {text : String} (h : disassemble? inst = some text) :
    OneLine text := by
  simp only [disassemble?] at h
  split at h
  · obtain ⟨mnemonic, named, rfl⟩ := Option.map_eq_some_iff.mp h
    exact oneLine_line (oneLine_registerMnemonic named) (by simp)
  · obtain ⟨⟨mnemonic, isShift⟩, named, rfl⟩ := Option.map_eq_some_iff.mp h
    exact oneLine_line (oneLine_immediateMnemonic named) (by simp)
  · obtain ⟨mnemonic, named, rfl⟩ := Option.map_eq_some_iff.mp h
    exact oneLine_line (oneLine_loadMnemonic named) (by simp)
  · obtain ⟨mnemonic, named, rfl⟩ := Option.map_eq_some_iff.mp h
    exact oneLine_line (oneLine_storeMnemonic named) (by simp)
  · obtain ⟨mnemonic, named, rfl⟩ := Option.map_eq_some_iff.mp h
    exact oneLine_line (oneLine_branchMnemonic named) (by simp [byteOffset])
  · cases h
    exact oneLine_line (by decide) (by simp [upperText])
  · cases h
    exact oneLine_line (by decide) (by simp [upperText])
  · cases h
    exact oneLine_line (by decide) (by simp [byteOffset])
  · split at h <;> cases h
    exact oneLine_line (by decide) (by simp)
  · split at h
    · cases h; decide
    · split at h <;> cases h
      decide
  · cases h

@[simp]
theorem oneLine_disassemble (inst : Word) : OneLine (disassemble inst) := by
  rw [disassemble]
  cases h : disassemble? inst with
  | none => decide
  | some text => exact oneLine_disassemble? h

end Instruction

theorem PoolError.oneLine_message {e : PoolError} (mild : e.isFatal = false) :
    OneLine e.message := by
  delta message
  cases e with
  | lostValue => cases mild
  | exhausted | noSuchSlot | emptyExpression | expressionTooLong => simp +decide

/-! ## Plain lines -/

namespace Shell

/-- The characters with which the prompt, the last line of a run and the heading of the statistics
begin. -/
def heads : List Char := ['(', 'H', 'A', 'S']

/-- A line that does not begin like one of these. -/
def Plain (line : String) : Prop :=
  OneLine line ∧ ∀ c ∈ line.toList.head?, c ∉ heads

instance (line : String) : Decidable (Plain line) :=
  @instDecidableAnd (OneLine line) _ _ (Option.decidableForallMem _)

@[simp]
theorem plain_append {front back : String} (nonempty : front ≠ "") :
    Plain (front ++ back) ↔ Plain front ∧ OneLine back := by
  have cons : front.toList ≠ [] := fun nil => nonempty (String.toList_eq_nil_iff.mp nil)
  rw [Plain, Plain, Text.oneLine_append, String.toList_append, List.head?_append_of_ne_nil _ cons]
  tauto

theorem plain_digits {base : Nat} (large : 1 < base) (n : Nat) :
    String.ofList (base.toDigits n) ≠ "" ∧ Plain (String.ofList (base.toDigits n)) := by
  have oneLine := Text.notMem_toDigits Text.digitChar_ne_lineFeed large n
  refine ⟨?_, by simpa using oneLine, fun c first => ?_⟩
  · rw [Ne, String.ofList_eq_empty_iff]
    exact Nat.toDigits_ne_nil
  · rw [String.toList_ofList] at first
    obtain ⟨d, rfl⟩ := Text.exists_digitChar large (List.mem_of_mem_head? first)
    simp +decide [heads]

@[simp]
theorem plain_hex (n : Nat) : Text.hex n ≠ "" ∧ Plain (Text.hex n) := plain_digits (by decide) n

@[simp]
theorem plain_repr (n : Nat) : n.repr ≠ "" ∧ Plain n.repr := by
  rw [← Nat.toString_eq_repr, Nat.toString_eq_ofList_toDigits]
  exact plain_digits (by decide) n

/-! ## The lines of answers -/

theorem plain_stepLine (step : Step) : Plain (stepLine step) := by
  simp +decide [stepLine, Text.address]

theorem plain_eventLine {event : WatchEvent} (h : OneLine event.expression) :
    Plain (eventLine event) := by
  simp +decide [eventLine, h]

theorem plain_reportLines {tracing : Bool} {report : RunReport}
    (h : ∀ event ∈ report.events, OneLine event.expression) :
    ∀ line ∈ reportLines tracing report, Plain line := by
  intro line mem
  obtain steps | events := List.mem_append.mp mem
  · split at steps
    · obtain ⟨step, -, rfl⟩ := List.mem_map.mp steps
      exact plain_stepLine step
    · cases steps
  · obtain ⟨event, listed, rfl⟩ := List.mem_map.mp events
    exact plain_eventLine (h event listed)

theorem plain_commandLine : ∀ command ∈ commands, Plain (commandLine command) := by
  have names : ∀ command ∈ commands, command.1 ≠ "" ∧ Plain command.1 := by decide
  have abouts : ∀ command ∈ commands, OneLine command.2 := by
    simp only [commands, List.forall_mem_cons]
    repeat refine ⟨Text.oneLine_of_spelled rfl (by decide), ?_⟩
    exact fun _ none => absurd none List.not_mem_nil
  intro command mem
  obtain ⟨nonempty, plain⟩ := names command mem
  simp +decide [commandLine, nonempty, plain, abouts command mem]

theorem plain_registerLine (s : Simulator) :
    ∀ register ∈ s.registers, Plain (registerLine register) := by
  have names : ∀ name ∈ "pc" :: RegisterNumber.names, Plain name ∧ name ≠ "" := by decide +kernel
  intro register mem
  obtain ⟨plain, nonempty⟩ : Plain register.1 ∧ register.1 ≠ "" := by
    obtain general | program := List.mem_append.mp mem
    · exact names _ (List.mem_cons_of_mem _ (List.of_mem_zip general).1)
    · rw [List.mem_singleton.mp program]
      exact names _ List.mem_cons_self
  simp +decide [registerLine, Text.padRight, plain, nonempty]

theorem plain_watchpointLines {pool : WatchPool} (h : ∀ w ∈ pool.toList, OneLine w.expression) :
    ∀ line ∈ watchpointLines pool, Plain line := by
  intro line mem
  obtain live | off := List.mem_append.mp mem
  · split at live
    · rw [List.mem_singleton.mp live]
      decide
    · obtain ⟨w, listed, rfl⟩ := List.mem_map.mp live
      simp +decide [watchpointLine, h w listed]
  · split at off
    · cases off
    · rw [List.mem_singleton.mp off]
      decide

theorem plain_dump (addr : Nat) (bytes : List Byte) :
    ∀ line ∈ Dump.lines addr bytes, Plain line := by
  intro line mem
  obtain rfl | row := List.mem_cons.mp mem
  · decide +kernel
  · obtain ⟨⟨bytes, i⟩, -, rfl⟩ := List.mem_map.mp row
    have rest : OneLine (String.join (bytes.map fun b => " " ++ Text.byteHex b)) :=
      Text.oneLine_join (by simp +decide)
    simp [Dump.row, rest]

/-- Lines apart by line feeds, ended by one more, are the same as lines each ended by one. -/
theorem text_intercalate {lines : List String} (nonempty : lines ≠ []) :
    text ["\n".intercalate lines] = text lines := by
  induction lines with
  | nil => exact absurd rfl nonempty
  | cons line rest ih =>
      cases rest with
      | nil => rw [String.intercalate_singleton]
      | cons next rest =>
          have later := ih (List.cons_ne_nil next rest)
          simp only [text, List.map_cons, List.map_nil, String.join_cons,
            String.join_nil] at later ⊢
          rw [String.intercalate_cons_cons, ← later]
          simp only [String.append_assoc]

theorem text_render (addr : Nat) (bytes : List Byte) :
    text [Dump.render addr bytes] = text (Dump.lines addr bytes) :=
  text_intercalate (List.cons_ne_nil _ _)

end Shell

end HartMonitor
