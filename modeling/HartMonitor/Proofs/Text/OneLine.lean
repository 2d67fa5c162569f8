/-
# `HartMonitor.Proofs.Text.OneLine` — texts without a line feed

What is printed on a line is put together from numbers, names and pieces of the input.  None of
them has a line feed:

    numbers                      no digit is one (`notMem_toDigits`)
    a line of the input          it was cut at line feeds (`oneLine_of_mem_lines`)
    a piece of a text            it has no other characters (`OneLine.of_subset`)
-/
import HartMonitor.Text.Blank
import HartMonitor.Text.Hex
import HartMonitor.Text.Lines
import HartMonitor.Text.Percent
import Mathlib.Data.List.TakeDrop

namespace HartMonitor.Text

/-- A text without a line feed. -/
def OneLine (text : String) : Prop := '\n' ∉ text.toList

instance (text : String) : Decidable (OneLine text) :=
  inferInstanceAs (Decidable ('\n' ∉ text.toList))

variable {text piece : String}

@[simp]
theorem oneLine_append {front back : String} :
    OneLine (front ++ back) ↔ OneLine front ∧ OneLine back := by
  simp [OneLine]

@[simp]
theorem oneLine_ofList {cs : List Char} : OneLine (String.ofList cs) ↔ '\n' ∉ cs := by
  simp [OneLine]

/-- A literal is given by its characters as it stands, where `decide` would decode it. -/
theorem oneLine_of_spelled {cs : List Char} (spelled : text = String.ofList cs)
    (none : '\n' ∉ cs) : OneLine text := by
  rw [spelled]
  exact oneLine_ofList.mpr none

theorem oneLine_join {pieces : List String} (h : ∀ piece ∈ pieces, OneLine piece) :
    OneLine (String.join pieces) := by
  simpa [OneLine] using h

theorem oneLine_intercalate {separator : String} {pieces : List String} (apart : OneLine separator)
    (h : ∀ piece ∈ pieces, OneLine piece) : OneLine (separator.intercalate pieces) := by
  induction pieces with
  | nil => simp +decide
  | cons piece rest ih =>
      obtain ⟨first, later⟩ := List.forall_mem_cons.mp h
      cases rest with
      | nil => simpa using first
      | cons next rest => simpa [first, apart] using ih later

theorem OneLine.of_subset (h : OneLine text) (sub : piece.toList ⊆ text.toList) : OneLine piece :=
  fun mem => h (sub mem)

/-! ## Numbers -/

theorem exists_digitChar {base : Nat} (large : 1 < base) {n : Nat} {c : Char}
    (h : c ∈ base.toDigits n) : ∃ d : Nat, d.digitChar = c := by
  induction n using Nat.strongRecOn with
  | _ n ih =>
      rw [Nat.toDigits_eq_if large] at h
      split at h
      · exact ⟨n, (List.mem_singleton.mp h).symm⟩
      · next many =>
        obtain high | low := List.mem_append.mp h
        · exact ih _ (Nat.div_lt_self (by omega) large) high
        · exact ⟨n % base, (List.mem_singleton.mp low).symm⟩

section NotMem
variable {c : Char} (other : ∀ d : Nat, d.digitChar ≠ c)
include other

/-- A character that is no digit is in no number. -/
theorem notMem_toDigits {base : Nat} (large : 1 < base) (n : Nat) : c ∉ base.toDigits n := by
  intro mem
  obtain ⟨d, digit⟩ := exists_digitChar large mem
  exact other d digit

theorem notMem_hex (n : Nat) : c ∉ (hex n).toList := by
  rw [hex, String.toList_ofList]
  exact notMem_toDigits other (by decide) n

theorem notMem_repr (n : Nat) : c ∉ n.repr.toList := by
  rw [Nat.toList_repr]
  exact notMem_toDigits other (by decide) n

theorem notMem_repr_int (sign : c ≠ '-') (i : Int) : c ∉ i.repr.toList := by
  cases i with
  | ofNat n => exact notMem_repr other n
  | negSucc n =>
      intro mem
      obtain negative | digit := List.mem_append.mp (String.toList_append ▸ mem)
      · exact sign (List.mem_singleton.mp negative)
      · exact notMem_repr other (n + 1) digit

end NotMem

theorem digitChar_ne_lineFeed (d : Nat) : d.digitChar ≠ '\n' :=
  Nat.digitChar_ne '\n' rfl

@[simp]
theorem oneLine_hex (n : Nat) : OneLine (hex n) :=
  notMem_hex digitChar_ne_lineFeed n

@[simp]
theorem oneLine_repr (n : Nat) : OneLine n.repr :=
  notMem_repr digitChar_ne_lineFeed n

@[simp]
theorem oneLine_repr_int (i : Int) : OneLine i.repr :=
  notMem_repr_int digitChar_ne_lineFeed (by decide) i

@[simp]
theorem oneLine_padLeft_zero {width : Nat} : OneLine (padLeft width '0' text) ↔ OneLine text := by
  simp [padLeft]

@[simp]
theorem oneLine_hexPadded (width n : Nat) : OneLine (hexPadded width n) := by
  simp [hexPadded]

@[simp]
theorem oneLine_marked (n : Nat) : OneLine (marked n) := by
  simp +decide [marked]

@[simp]
theorem oneLine_address (w : Word) : OneLine (address w) := by
  simp +decide [address]

@[simp]
theorem oneLine_byteHex (b : Byte) : OneLine (byteHex b) := by
  simp [byteHex]

@[simp]
theorem oneLine_percent (part whole : Nat) : OneLine (percent part whole) := by
  simp +decide [percent]

/-! ## Pieces of a text -/

theorem trim_subset (text : String) : (trim text).toList ⊆ text.toList := by
  rw [trim, String.toList_ofList, trimChars]
  intro c mem
  have inner := (List.dropWhile_sublist _).subset (List.mem_reverse.mp mem)
  exact (List.dropWhile_sublist _).subset (List.mem_reverse.mp inner)

theorem splitAtBlank?_subset {front back : String} (h : splitAtBlank? text = some (front, back)) :
    front.toList ⊆ text.toList ∧ back.toList ⊆ text.toList := by
  simp only [splitAtBlank?, List.span_eq_takeWhile_dropWhile] at h
  split at h
  · cases h
  · next cut =>
    cases h
    obtain ⟨rfl, dropped⟩ := Prod.mk.inj cut
    rw [String.toList_ofList, String.toList_ofList]
    refine ⟨(List.takeWhile_sublist _).subset, fun c mem => ?_⟩
    exact (List.dropWhile_sublist _).subset (dropped ▸ List.mem_cons_of_mem _ mem)

theorem firstWord?_subset {word : String} (h : firstWord? text = some word) :
    word.toList ⊆ text.toList := by
  simp only [firstWord?] at h
  split at h
  · cases h
  · cases h
    rw [String.toList_ofList]
    exact ((List.takeWhile_sublist _).trans (List.dropWhile_sublist _)).subset

/-! ## Lines of the input -/

theorem lineFeed_notMem_cutLine (bytes : List Byte) : 0x0a ∉ (cutLine bytes).1 := by
  induction bytes with
  | nil => exact List.not_mem_nil
  | cons b rest ih =>
      simp only [cutLine]
      split
      · exact List.not_mem_nil
      · next other => exact fun mem => (List.mem_cons.mp mem).elim (fun same => other same.symm) ih

theorem lineFeed_notMem_byteLines {bytes line : List Byte} (h : line ∈ byteLines bytes) :
    0x0a ∉ line := by
  fun_induction byteLines bytes with
  | case1 => cases h
  | case2 b rest ih =>
      obtain rfl | later := List.mem_cons.mp h
      · exact lineFeed_notMem_cutLine _
      · exact ih later

theorem oneLine_of_decode? {bytes : List Byte} (h : decode? bytes = some text)
    (none : 0x0a ∉ bytes) : OneLine text := by
  intro mem
  have spelled : text.toByteArray = ⟨(bytes.map UInt8.ofBitVec).toArray⟩ := by
    simp only [decode?, String.fromUTF8?] at h
    split at h
    · cases h; rfl
    · cases h
  have encoded : text.toByteArray.data.toList = text.toList.flatMap String.utf8EncodeChar := by
    rw [← String.utf8Encode_toList, List.utf8Encode, List.toList_data_toByteArray]
  have there : (0x0a : UInt8) ∈ text.toByteArray.data.toList := by
    rw [encoded]
    exact List.mem_flatMap.mpr ⟨'\n', mem, by decide⟩
  rw [spelled] at there
  obtain ⟨b, mem, same⟩ := List.mem_map.mp there
  obtain rfl : b = 0x0a := UInt8.ofBitVec.inj same
  exact none mem

theorem oneLine_of_mem_lines {bytes : List Byte} {line : String} (h : some line ∈ lines bytes) :
    OneLine line := by
  obtain ⟨piece, mem, decoded⟩ := List.mem_map.mp h
  exact oneLine_of_decode? decoded (lineFeed_notMem_byteLines mem)

end HartMonitor.Text
