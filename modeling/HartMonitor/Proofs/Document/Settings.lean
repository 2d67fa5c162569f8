/-
# `HartMonitor.Proofs.Document.Settings` — a configuration under any presentation

A configuration is written as a record of three sections, and each setting, or a whole section, may
be left out.  `Presents` says what the members of such a record are: the known names have their
values, at most once, and everything else is free.  It speaks of the values that the names have,
not of where they stand, so it does not see an order.

A section that is read depends on which of its settings are given only, and a configuration on
which of its sections are: `record_reads_given` is the one argument for both levels.  The shape
that the readers follow is in `reader_follows`; what a misfit gives is a matter of that shape.
-/
import HartMonitor.Config
import HartMonitor.Proofs.Document.Follow

namespace HartMonitor

open Document

/-! ## Natural numbers -/

namespace Document

def Json.natural (n : Nat) : Json := .number ⟨false, Nat.toDigits 10 n, none, none⟩

namespace NumberText

theorem digitsValue_eq (ds : List Char) (high : Nat) :
    ds.foldl (fun n c => n * 10 + (c.toNat - '0'.toNat)) high = Nat.ofDigitChars 10 ds high := by
  simp only [Nat.ofDigitChars_eq_foldl, Nat.mul_comm]

theorem le_ofDigitChars (ds : List Char) (high : Nat) : high ≤ Nat.ofDigitChars 10 ds high := by
  rw [Nat.ofDigitChars_eq_ofDigitChars_zero]
  have : 1 * high ≤ 10 ^ ds.length * high :=
    Nat.mul_le_mul_right high (Nat.one_le_pow' _ 9)
  omega

theorem leadingDigits_eq {ds : List Char} {high : Nat} (small : Nat.ofDigitChars 10 ds high < 2 ^ 64) :
    leadingDigits high ds = (Nat.ofDigitChars 10 ds high, 0) := by
  induction ds generalizing high with
  | nil => rfl
  | cons c ds ih =>
      rw [Nat.ofDigitChars_cons] at small ⊢
      have := le_ofDigitChars ds (10 * high + (c.toNat - '0'.toNat))
      rw [leadingDigits, Nat.mul_comm high 10]
      exact (if_pos (by rw [Nat.one_shiftLeft]; omega)).trans (ih small)

theorem natural?_toDigits (n : Nat) : natural? ⟨false, Nat.toDigits 10 n, none, none⟩ = some n := by
  show some (digitsValue (Nat.toDigits 10 n)) = _
  rw [digitsValue, digitsValue_eq, Nat.ofDigitChars_ten_toDigits]

end NumberText

theorem roundDiv_le (num den : Nat) : Binary64.roundDiv num den ≤ num / den + 1 := by
  have even := Nat.mod_lt (num / den) (by decide : 2 > 0)
  rw [Binary64.roundDiv]
  split
  · omega
  · split <;> omega

theorem roundWhole_le (n : Nat) : Binary64.roundWhole n ≤ 2 * n + 1 := by
  have unit : 1 <<< (n.log2 - 52) ≤ n + 1 := by
    rw [Nat.one_shiftLeft]
    by_cases zero : n = 0
    · subst zero
      decide
    · have low := Nat.log2_self_le zero
      have := Nat.pow_le_pow_right (by decide : 0 < 2) (Nat.sub_le n.log2 52)
      omega
  calc
    Binary64.roundWhole n ≤ (n / 1 <<< (n.log2 - 52) + 1) * 1 <<< (n.log2 - 52) :=
      Nat.mul_le_mul_right _ (roundDiv_le ..)
    _ = n / 1 <<< (n.log2 - 52) * 1 <<< (n.log2 - 52) + 1 <<< (n.log2 - 52) := by
      rw [Nat.add_mul, Nat.one_mul]
    _ ≤ 2 * n + 1 := by
      have := Nat.div_mul_le_self n (1 <<< (n.log2 - 52))
      omega

theorem isTooLarge_toDigits {n : Nat} (small : n < 2 ^ 64) :
    NumberText.isTooLarge ⟨false, Nat.toDigits 10 n, none, none⟩ = false := by
  have value : NumberText.leadingDigits 0 (Nat.toDigits 10 n) = (n, 0) := by
    have same : Nat.ofDigitChars 10 (Nat.toDigits 10 n) 0 = n := Nat.ofDigitChars_ten_toDigits
    rw [NumberText.leadingDigits_eq (by rw [same]; exact small), same]
  have one : Binary64.roundWhole 1 = 1 := by decide
  have far : 2 ^ 66 ≤ 1 <<< 1024 - 1 <<< 970 := by decide
  have near := roundWhole_le n
  have inRange : Binary64.exceedsRange (Binary64.roundWhole n * Binary64.roundWhole 1) = false := by
    rw [one, Nat.mul_one, Binary64.exceedsRange, decide_eq_false_iff_not]
    omega
  simp [NumberText.isTooLarge, value, NumberText.leadingDigits, NumberText.exponentValue, inRange]

theorem Json.natural_reads {bits n : Nat} (small : n < 2 ^ bits) (narrow : bits ≤ 64) :
    Reads (Document.natural bits) (.natural n) n :=
  Document.natural_reads
    (isTooLarge_toDigits (Nat.lt_of_lt_of_le small (Nat.pow_le_pow_right (by decide) narrow)))
    (NumberText.natural?_toDigits n) small

end Document

/-! ## Settings -/

/-- A setting of a configuration. -/
inductive Setting where
  | traceInstructions | startPc | ramBase | ramSize | watchpointsEnabled | batchMode

namespace Config

/-- A configuration with some of its settings left out, so that they are at their defaults. -/
def without (c : Config) (left : Setting → Bool) : Config where
  general := {
    traceInstructions :=
      if left .traceInstructions then standard.general.traceInstructions
      else c.general.traceInstructions
    startPc := if left .startPc then standard.general.startPc else c.general.startPc }
  memory := {
    ramBase := if left .ramBase then standard.memory.ramBase else c.memory.ramBase
    ramSize := if left .ramSize then standard.memory.ramSize else c.memory.ramSize }
  monitor := {
    watchpointsEnabled :=
      if left .watchpointsEnabled then standard.monitor.watchpointsEnabled
      else c.monitor.watchpointsEnabled
    batchMode := if left .batchMode then standard.monitor.batchMode else c.monitor.batchMode }

/-- Some members give a value under a name, once, or leave it out. -/
def Gives (ms : List Member) (name : String) (left : Bool) (v : Json) : Prop :=
  valuesOf name ms = if left then [] else [v]

/-- Some members give a section with two values, or leave it out with both of them. -/
def GivesSection (ms : List Member) (name : String) (first : String × Bool × Json)
    (second : String × Bool × Json) : Prop :=
  valuesOf name ms = [] ∧ first.2.1 = true ∧ second.2.1 = true ∨
    ∃ fields, valuesOf name ms = [.record fields] ∧ Legible fields ∧
      Gives fields first.1 first.2.1 first.2.2 ∧ Gives fields second.1 second.2.1 second.2.2

/-- The members of a record present a configuration, some settings being left out.  They are in any
order, with any others between them. -/
structure Presents (c : Config) (left : Setting → Bool) (ms : List Member) : Prop where
  legible : Legible ms
  general : GivesSection ms "general"
    ("trace_instructions", left .traceInstructions, .flag c.general.traceInstructions)
    ("start_pc", left .startPc, .natural c.general.startPc.toNat)
  memory : GivesSection ms "memory"
    ("ram_base", left .ramBase, .natural c.memory.ramBase.toNat)
    ("ram_size", left .ramSize, .natural c.memory.ramSize)
  monitor : GivesSection ms "monitor"
    ("watchpoints_enabled", left .watchpointsEnabled, .flag c.monitor.watchpointsEnabled)
    ("batch_mode", left .batchMode, .flag c.monitor.batchMode)

def shape : Shape := .record [
  ("general", .record [("trace_instructions", .flag), ("start_pc", .natural 32)]),
  ("memory", .record [("ram_base", .natural 32), ("ram_size", .natural 64)]),
  ("monitor", .record [("watchpoints_enabled", .flag), ("batch_mode", .flag)])]

theorem reader_follows : Follows reader shape := by
  have general : Follows generalReader
      (.record [("trace_instructions", .flag), ("start_pc", .natural 32)]) :=
    record_follows (.field flag_follows _ (.field (natural_follows 32) _ .nil)) _
  have memory : Follows memoryReader
      (.record [("ram_base", .natural 32), ("ram_size", .natural 64)]) :=
    record_follows (.field (natural_follows 32) _ (.field (natural_follows 64) _ .nil)) _
  have monitor : Follows monitorReader
      (.record [("watchpoints_enabled", .flag), ("batch_mode", .flag)]) :=
    record_follows (.field flag_follows _ (.field flag_follows _ .nil)) _
  exact record_follows (.field general _ (.field memory _ (.field monitor _ .nil))) _

/-! ## What is presented -/

section Given
variable {σ : Type} {fields : List (Document.Field σ)} {ms : List Member} {f : Document.Field σ}

theorem found_of_mem (distinct : (fields.map Document.Field.name).Nodup) (mem : f ∈ fields) :
    Found fields f := by
  induction fields with
  | nil => cases mem
  | cons g fields ih =>
      obtain ⟨new, distinct⟩ := List.nodup_cons.mp distinct
      obtain rfl | mem := List.mem_cons.mp mem
      · exact found_cons.mpr (.inl ⟨rfl, rfl⟩)
      · have other : g.name ≠ f.name := fun same => new (same ▸ List.mem_map_of_mem mem)
        exact found_cons.mpr (.inr ⟨other, ih distinct mem⟩)

/-- A record, each of whose fields is given once or left out, by which ones are left out. -/
theorem record_reads_given (state : (String → Bool) → σ) (legible : Legible ms)
    (distinct : (fields.map Document.Field.name).Nodup)
    (depends : ∀ l l', (∀ f ∈ fields, l f.name = l' f.name) → state l = state l')
    (each : ∀ f ∈ fields, valuesOf f.name ms = [] ∨ ∃ v g, valuesOf f.name ms = [v] ∧
      Reads f.change v g ∧ ∀ l, g (state l) = state fun name => l name && decide (name ≠ f.name)) :
    Reads (record (state fun _ => true) fields) (.record ms)
      (state fun name => (valuesOf name ms).isEmpty) := by
  have readable : Readable fields (fun seen x => x = state fun name => decide (name ∉ seen)) [] ms := by
    refine ⟨legible, fun f found => ?once, nofun, fun f found v mem => ?each⟩
    all_goals obtain none | ⟨w, g, single, reads, change⟩ := each f (List.mem_of_find?_eq_some found)
    case once.inl => simp [none]
    case once.inr => simp [single]
    case each.inl => simp [none] at mem
    case each.inr =>
      obtain rfl : v = w := by simpa [single] using mem
      refine ⟨g, reads, fun seen x _ now => ?_⟩
      rw [now, change]
      congr 1
      funext name
      simp [Bool.and_comm]
  have start : (state fun _ => true) = state fun name => decide (name ∉ ([] : List String)) := by simp
  obtain ⟨x, seen, reads, rfl, names⟩ := record_reads readable start
  have same : (state fun name => decide (name ∉ seen)) =
      state fun name => (valuesOf name ms).isEmpty := by
    refine depends _ _ fun f mem => ?_
    rw [Bool.eq_iff_iff]
    simp [names f (found_of_mem distinct mem)]
  rwa [same] at reads

end Given

/-- A section of two fields, by which ones are left out. -/
theorem section_reads {σ α₁ α₂ : Type} {name₁ name₂ : String} {r₁ : ValueReader α₁}
    {r₂ : ValueReader α₂} {f₁ : α₁ → σ → σ} {f₂ : α₂ → σ → σ} {a₁ : α₁} {a₂ : α₂} {v₁ v₂ : Json}
    {ms : List Member} {left₁ left₂ : Bool} (result : Bool → Bool → σ) (distinct : name₁ ≠ name₂)
    (legible : Legible ms) (gives₁ : Gives ms name₁ left₁ v₁) (gives₂ : Gives ms name₂ left₂ v₂)
    (reads₁ : Reads r₁ v₁ a₁) (reads₂ : Reads r₂ v₂ a₂)
    (change₁ : ∀ b b', f₁ a₁ (result b b') = result false b')
    (change₂ : ∀ b b', f₂ a₂ (result b b') = result b false) :
    Reads (record (result true true) [⟨name₁, r₁.map f₁⟩, ⟨name₂, r₂.map f₂⟩]) (.record ms)
      (result left₁ left₂) := by
  have given : Reads (record (result true true) [⟨name₁, r₁.map f₁⟩, ⟨name₂, r₂.map f₂⟩])
      (.record ms) (result (valuesOf name₁ ms).isEmpty (valuesOf name₂ ms).isEmpty) := by
    refine record_reads_given (fun l => result (l name₁) (l name₂)) legible
      (by simpa using distinct) (by simp_all) ?_
    intro f mem
    obtain rfl | rfl := by simpa using mem
    · obtain rfl | rfl := Bool.eq_false_or_eq_true left₁
      · exact .inl gives₁
      · exact .inr ⟨v₁, _, gives₁, reads₁.map f₁, fun l => by simp [change₁, distinct.symm]⟩
    · obtain rfl | rfl := Bool.eq_false_or_eq_true left₂
      · exact .inl gives₂
      · exact .inr ⟨v₂, _, gives₂, reads₂.map f₂, fun l => by simp [change₂, distinct]⟩
  have empty₁ : (valuesOf name₁ ms).isEmpty = left₁ := by
    rw [gives₁]
    cases left₁ <;> rfl
  have empty₂ : (valuesOf name₂ ms).isEmpty = left₂ := by
    rw [gives₂]
    cases left₂ <;> rfl
  rwa [empty₁, empty₂] at given

variable {c : Config} {left : Setting → Bool} {ms : List Member}

theorem general_reads (legible : Legible ms)
    (trace : Gives ms "trace_instructions" (left .traceInstructions)
      (.flag c.general.traceInstructions))
    (pc : Gives ms "start_pc" (left .startPc) (.natural c.general.startPc.toNat)) :
    Reads generalReader (.record ms) (c.without left).general :=
  section_reads
    (fun b b' => (⟨if b then standard.general.traceInstructions else c.general.traceInstructions,
      if b' then standard.general.startPc else c.general.startPc⟩ : GeneralConfig))
    (by decide) legible trace pc (flag_reads _)
    (Json.natural_reads c.general.startPc.isLt (by decide)) (fun _ _ => rfl)
    (fun _ _ => by simp)

theorem memory_reads (size : c.memory.ramSize < 2 ^ 64) (legible : Legible ms)
    (base : Gives ms "ram_base" (left .ramBase) (.natural c.memory.ramBase.toNat))
    (ram : Gives ms "ram_size" (left .ramSize) (.natural c.memory.ramSize)) :
    Reads memoryReader (.record ms) (c.without left).memory :=
  section_reads
    (fun b b' => (⟨if b then standard.memory.ramBase else c.memory.ramBase,
      if b' then standard.memory.ramSize else c.memory.ramSize⟩ : MemoryConfig))
    (by decide) legible base ram (Json.natural_reads c.memory.ramBase.isLt (by decide))
    (Json.natural_reads size (by decide)) (fun _ _ => by simp) (fun _ _ => rfl)

theorem monitor_reads (legible : Legible ms)
    (watch : Gives ms "watchpoints_enabled" (left .watchpointsEnabled)
      (.flag c.monitor.watchpointsEnabled))
    (batch : Gives ms "batch_mode" (left .batchMode) (.flag c.monitor.batchMode)) :
    Reads monitorReader (.record ms) (c.without left).monitor :=
  section_reads
    (fun b b' => (⟨if b then standard.monitor.watchpointsEnabled else c.monitor.watchpointsEnabled,
      if b' then standard.monitor.batchMode else c.monitor.batchMode⟩ : MonitorConfig))
    (by decide) legible watch batch (flag_reads _) (flag_reads _) (fun _ _ => rfl) (fun _ _ => rfl)

/-- A configuration with some of its sections left out, by their names. -/
def withoutSections (c : Config) (l : String → Bool) : Config where
  general := if l "general" then standard.general else c.general
  memory := if l "memory" then standard.memory else c.memory
  monitor := if l "monitor" then standard.monitor else c.monitor

theorem GivesSection.absent {name : String} {first second : String × Bool × Json}
    (gives : GivesSection ms name first second) (empty : (valuesOf name ms).isEmpty = true) :
    first.2.1 = true ∧ second.2.1 = true := by
  obtain ⟨-, absent⟩ | ⟨fields, given, -⟩ := gives
  · exact absent
  · simp [given] at empty

theorem withoutSections_without (presents : Presents c left ms) :
    ((c.without left).withoutSections fun name => (valuesOf name ms).isEmpty) = c.without left := by
  have general : (valuesOf "general" ms).isEmpty → (c.without left).general = standard.general := by
    intro empty
    obtain ⟨first, second⟩ : left .traceInstructions = true ∧ left .startPc = true :=
      presents.general.absent empty
    simp [without, first, second]
  have memory : (valuesOf "memory" ms).isEmpty → (c.without left).memory = standard.memory := by
    intro empty
    obtain ⟨first, second⟩ : left .ramBase = true ∧ left .ramSize = true :=
      presents.memory.absent empty
    simp [without, first, second]
  have monitor : (valuesOf "monitor" ms).isEmpty → (c.without left).monitor = standard.monitor := by
    intro empty
    obtain ⟨first, second⟩ : left .watchpointsEnabled = true ∧ left .batchMode = true :=
      presents.monitor.absent empty
    simp [without, first, second]
  have kept : ∀ {σ : Type} {absent : Bool} {x y : σ}, (absent = true → y = x) →
      (if absent then x else y) = y := by
    intro σ absent x y same
    cases absent with
    | true => exact (same rfl).symm
    | false => rfl
  rw [withoutSections, kept general, kept memory, kept monitor]

theorem reader_reads (size : c.memory.ramSize < 2 ^ 64) (presents : Presents c left ms) :
    Reads reader (.record ms) (c.without left) := by
  have given : Reads reader (.record ms)
      ((c.without left).withoutSections fun name => (valuesOf name ms).isEmpty) := by
    refine record_reads_given (c.without left).withoutSections presents.legible (by decide)
      (by simp_all [withoutSections]) ?_
    intro f mem
    obtain rfl | rfl | rfl := by simpa using mem
    · obtain ⟨absent, -⟩ | ⟨fields, given, legible, trace, pc⟩ := presents.general
      · exact .inl absent
      · exact .inr ⟨_, _, given, (general_reads legible trace pc).field _ _, fun l => by
          simp [withoutSections]⟩
    · obtain ⟨absent, -⟩ | ⟨fields, given, legible, base, ram⟩ := presents.memory
      · exact .inl absent
      · exact .inr ⟨_, _, given, (memory_reads size legible base ram).field _ _, fun l => by
          simp [withoutSections]⟩
    · obtain ⟨absent, -⟩ | ⟨fields, given, legible, watch, batch⟩ := presents.monitor
      · exact .inl absent
      · exact .inr ⟨_, _, given, (monitor_reads legible watch batch).field _ _, fun l => by
          simp [withoutSections]⟩
  rwa [withoutSections_without presents] at given

/-! ## Whole texts -/

variable {s t rest : List Char} {v : Json}

theorem ofJson_of_reads (reads : Reads reader v c) (blank : Blank s) (w : Written (.value v) t)
    (parted : v.Parted rest) :
    ofJson (String.ofList (s ++ (t ++ rest))) = if Blank rest then .ok c else .error .malformed := by
  have read := reads s t rest blank w parted
  rw [ofJson, readAll, String.toList_ofList, read]
  simp only [isEmpty_skipSpace]

theorem ofJson_of_problem {bad : List Char} {e : DocumentError} (blank : Blank s)
    (problem : FirstProblem shape bad e) : ofJson (String.ofList (s ++ bad)) = .error e := by
  rw [ofJson, readAll, String.toList_ofList, reader_follows.refuses s bad e blank problem]

/-- A text that presents a configuration is read as that, each setting that is left out being at its
default: the order of sections and settings, the blanks, the escapes in names and what else there
is make no difference.  The first problem of a text decides what is reported, whatever stands
behind it.  A record that does not fit has one, wherever the text goes on, and so has one that
repeats a known name, or has a value that a setting cannot have; a record that fits is refused
where more than blanks follow it. -/
theorem ofJson_exact :
    (∀ (c : Config) (left : Setting → Bool) (ms : List Member) (s t s' : List Char),
      c.memory.ramSize < 2 ^ 64 → Presents c left ms → Written (.value (.record ms)) t → Blank s →
        Blank s' → ofJson (String.ofList (s ++ (t ++ s'))) = .ok (c.without left)) ∧
    (∀ (s bad : List Char) (e : DocumentError), Blank s → FirstProblem shape bad e →
      ofJson (String.ofList (s ++ bad)) = .error e) ∧
    (∀ (ms : List Member) (s t : List Char), Written (.value (.record ms)) t → Blank s →
      ¬ Fits shape (.record ms) → ∃ e, ∀ rest, FirstProblem shape (t ++ rest) e ∧
        ofJson (String.ofList (s ++ (t ++ rest))) = .error e) ∧
    (∀ v, Faulty shape v → ¬ Fits shape v) ∧
    (∀ (ms : List Member) (s t rest : List Char), Written (.value (.record ms)) t → Blank s →
      Fits shape (.record ms) → ¬ Blank rest →
        ofJson (String.ofList (s ++ (t ++ rest))) = .error .malformed) := by
  refine ⟨?presented, fun s bad e => ofJson_of_problem, ?refused, fun v => Faulty.not_fits, ?followed⟩
  case presented =>
    intro c left ms s t s' size presents w blank blank'
    rw [ofJson_of_reads (reader_reads size presents) blank w trivial, if_pos blank']
  case refused =>
    intro ms s t w blank misfit
    obtain fits | ⟨e, problem⟩ := fits_or_problem w shape
    · exact absurd fits misfit
    · exact ⟨e, fun rest => ⟨problem rest trivial, ofJson_of_problem blank (problem rest trivial)⟩⟩
  case followed =>
    intro ms s t rest w blank fits more
    obtain ⟨c, reads⟩ := reader_follows.accepts _ fits
    rw [ofJson_of_reads reads blank w trivial, if_neg more]

/-- A text with a new member and one setting, one with a number for a section, and one that goes on
behind its record. -/
theorem ofJson_exact_at_texts :
    ofJson " \x7b\"new\":[1e999],\"memory\" :\x7b\"ram_size\":16\x7d\x7d\n" =
        .ok { memory := { ramSize := 16 } } ∧
      ofJson "\x7b\"monitor\":1 ]" = .error .mismatch ∧
      (∃ e, ofJson "\x7b\"monitor\":1\x7d\x7d" = .error e) ∧
      ofJson "\x7b\x7d\x7b\x7d" = .error .malformed := by
  obtain ⟨presented, first, refused, faulty, followed⟩ := ofJson_exact
  let new : Name := .ofClear ['n', 'e', 'w'] rfl
  let memory : Name := .ofClear ['m', 'e', 'm', 'o', 'r', 'y'] rfl
  let size : Name := .ofClear ['r', 'a', 'm', '_', 's', 'i', 'z', 'e'] rfl
  let monitor : Name := .ofClear ['m', 'o', 'n', 'i', 't', 'o', 'r'] rfl
  let one : NumberText := ⟨false, ['1'], none, none⟩
  have digit : NumberText.IsDigits ['1'] := ⟨by decide, by simp⟩
  have spelled : one.Spelled _ := .mk digit (by decide) .absent .absent
  have named : monitor.decode? = some "monitor".toList := rfl
  have empty : Fits shape (.record []) := .record nofun (fun _ _ _ => Nat.zero_le 1) nofun
  refine ⟨?_, ?_, ?_, ?_⟩
  · let fields : List Member := [(size, .natural 16)]
    let huge : NumberText := ⟨false, ['1'], none, some (false, ['9', '9', '9'])⟩
    let ms : List Member := [(new, .list [.number huge]), (memory, .record fields)]
    have large : huge.Spelled _ :=
      .mk digit (by decide) .absent (.present (.inl rfl) (.inr ⟨.inr rfl, rfl⟩) ⟨by decide, by simp⟩)
    have sixteen : NumberText.Spelled ⟨false, Nat.toDigits 10 16, none, none⟩ _ :=
      .mk ⟨Nat.toDigits_ne_nil, fun c hc => Nat.isDigit_of_mem_toDigits (by decide) (by decide) hc⟩
        (by decide) .absent .absent
    obtain ⟨t, written, same⟩ : ∃ t, Written (.value (.record ms)) t ∧
        String.ofList ([' '] ++ (t ++ ['\n'])) =
          " \x7b\"new\":[1e999],\"memory\" :\x7b\"ram_size\":16\x7d\x7d\n" :=
      ⟨_, .record (.member .nil .nil .nil .nil
        (.list (.item .nil .nil (.number large) (.noItems .nil)))
        (.member .nil .nil (by decide : Blank [' ']) .nil
          (.record (.member .nil .nil .nil .nil (.number sixteen) (.noMembers .nil)))
          (.noMembers .nil))), by rfl⟩
    have legible : Legible fields := by
      intro m hm
      obtain rfl := by simpa [fields] using hm
      exact Option.some_ne_none _
    have presents : Presents { memory := { ramSize := 16 } } (fun | .ramSize => false | _ => true) ms := {
      legible := by
        intro m hm
        obtain rfl | rfl := by simpa [ms] using hm
        · exact Option.some_ne_none _
        · exact Option.some_ne_none _
      general := .inl ⟨rfl, rfl, rfl⟩
      memory := .inr ⟨fields, rfl, legible, rfl, rfl⟩
      monitor := .inl ⟨rfl, rfl, rfl⟩ }
    rw [← same]
    exact presented _ _ ms [' '] t ['\n'] (by decide) presents written (by decide) (by decide)
  · have wrong : FirstProblem (.record [("watchpoints_enabled", .flag), ("batch_mode", .flag)])
        (['1'] ++ [' ', ']']) .mismatch :=
      .wrongValue (v := .number one) trivial (by decide : one.isTooLarge = false) nofun
        (.number spelled) (ends_cons (by decide) _)
    obtain ⟨t, problem, same⟩ : ∃ t, FirstProblem shape t .mismatch ∧
        String.ofList ([] ++ t) = "\x7b\"monitor\":1 ]" :=
      ⟨_, .member (.noMembers .nil) empty .nil .nil .nil .nil named rfl rfl wrong, by rfl⟩
    rw [← same]
    exact first [] t .mismatch .nil problem
  · have given : Json.number one ∈ valuesOf "monitor" [(monitor, .number one)] :=
      List.mem_singleton.mpr rfl
    obtain ⟨t, written, same⟩ : ∃ t, Written (.value (.record [(monitor, .number one)])) t ∧
        String.ofList ([] ++ (t ++ ['\x7d'])) = "\x7b\"monitor\":1\x7d\x7d" :=
      ⟨_, .record (.member .nil .nil .nil .nil (.number spelled) (.noMembers .nil)), by rfl⟩
    have misfit := faulty _ (.member rfl given (.notRecord trivial))
    obtain ⟨e, refusal⟩ := refused _ [] t written .nil misfit
    rw [← same]
    exact ⟨e, (refusal _).2⟩
  · have none : Fits shape (.record []) :=
      .record nofun (fun _ _ _ => Nat.zero_le 1) nofun
    obtain ⟨t, written, same⟩ : ∃ t, Written (.value (.record [])) t ∧
        String.ofList ([] ++ (t ++ ['\x7b', '\x7d'])) = "\x7b\x7d\x7b\x7d" :=
      ⟨_, .record (.noMembers .nil), by rfl⟩
    rw [← same]
    exact followed [] [] t _ written .nil empty (by decide)

end Config

end HartMonitor
