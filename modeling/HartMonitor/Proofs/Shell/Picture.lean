/-
# `HartMonitor.Proofs.Shell.Picture` — a dump is a picture of memory

A dump is read without asking how it was written: it is cut at its line feeds, and behind the header
each row is cut at its blanks.

    XXXXXXXX 00 01 02 03 ... 0e 0f
    80000000 13 05 a0 00 ... 73 00        address of the first cell, then sixteen cells
    80000010 10 00                        and so on, up to the last byte

A cell is two digits, which show a byte (`cell?`), and what the cells of all rows show one after the
other is what the dump shows (`read?`).
-/
import HartMonitor.Proofs.Shell.Screen
import HartMonitor.Proofs.Simulator.Examine
import HartMonitor.Proofs.Text.ReadBack

namespace HartMonitor

namespace Dump

/-! ## Reading a dump -/

def digits : List Char :=
  ['0', '1', '2', '3', '4', '5', '6', '7', '8', '9', 'a', 'b', 'c', 'd', 'e', 'f']

/-- The byte that a cell shows, if it is two digits. -/
def cell? : List Char → Option Byte
  | [high, low] =>
    (digits.idxOf? high).bind fun h => (digits.idxOf? low).map fun l => BitVec.ofNat 8 (16 * h + l)
  | _ => none

/-- The cells of a row: the pieces behind its first blank. -/
def cells (line : List Char) : List (List Char) := (line.splitOn ' ').tail

def read? (printed : String) : Option (List Byte) :=
  ((printed.toList.splitOn '\n').tail.flatMap cells).mapM cell?

/-- A row for an address, with so many cells of two digits. -/
def IsRow (line : String) (address count : Nat) : Prop :=
  ∃ cells, line.toList.splitOn ' ' = Nat.toDigits 16 address :: cells ∧ cells.length = count ∧
    ∀ cell ∈ cells, cell.length = 2 ∧ ∀ c ∈ cell, c ∈ digits

/-- What is printed shows some bytes: under the columns there is a row for every sixteen of them and
one for those that are left, and the cells read as the bytes. -/
structure Pictures (printed : String) (start : Nat) (bytes : List Byte) : Prop where
  layout : ∃ lines : List String,
    printed = Shell.text ("XXXXXXXX 00 01 02 03 04 05 06 07 08 09 0a 0b 0c 0d 0e 0f" :: lines) ∧
    lines.length = (bytes.length + 15) / 16 ∧
    ∀ r line, lines[r]? = some line →
      (r + 1 < lines.length → IsRow line (start + 16 * r) 16) ∧
      (r + 1 = lines.length → 1 ≤ bytes.length - 16 * r ∧ bytes.length - 16 * r ≤ 16 ∧
        IsRow line (start + 16 * r) (bytes.length - 16 * r))
  read : read? printed = some bytes

/-! ## Cells -/

theorem toList_byteHex (b : Byte) :
    (Text.byteHex b).toList = [(b.toNat / 16).digitChar, (b.toNat % 16).digitChar] := by
  have small : b.toNat < 256 := b.isLt
  simp only [Text.byteHex, Text.hexPadded, Text.padLeft, Text.hex, String.toList_append,
    String.toList_ofList, String.length_ofList]
  rw [Nat.toDigits_eq_if (by decide)]
  split
  · next one =>
    rw [Nat.div_eq_of_lt one, Nat.mod_eq_of_lt one]
    rfl
  · rw [Nat.toDigits_of_lt_base (by omega)]
    rfl

theorem idxOf?_digitChar : ∀ d < 16, digits.idxOf? d.digitChar = some d := by
  decide

theorem cell?_byteHex (b : Byte) : cell? (Text.byteHex b).toList = some b := by
  have small : b.toNat < 256 := b.isLt
  have whole : 16 * (b.toNat / 16) + b.toNat % 16 = b.toNat := Nat.div_add_mod _ 16
  rw [toList_byteHex, cell?, idxOf?_digitChar _ (by omega), idxOf?_digitChar _ (by omega),
    Option.bind_some, Option.map_some, whole, BitVec.ofNat_toNat, BitVec.setWidth_eq]

theorem notMem_byteHex {c : Char} (other : ∀ d : Nat, d.digitChar ≠ c) (b : Byte) :
    c ∉ (Text.byteHex b).toList := by
  rw [toList_byteHex]
  simp [(other _).symm]

/-! ## Rows -/

theorem getElem?_rows (bytes : List Byte) (r : Nat) :
    (rows bytes)[r]? =
      if 16 * r < bytes.length then some ((bytes.drop (16 * r)).take 16) else none := by
  fun_induction rows bytes generalizing r with
  | case1 => rfl
  | case2 b rest ih =>
      cases r with
      | zero => rfl
      | succ r =>
          rw [List.getElem?_cons_succ, ih, rowBytes, List.length_drop, List.drop_drop]
          exact if_congr (by omega) (by rw [Nat.mul_succ, Nat.add_comm]) rfl

theorem length_rows (bytes : List Byte) : (rows bytes).length = (bytes.length + 15) / 16 := by
  fun_induction rows bytes with
  | case1 => rfl
  | case2 b rest ih =>
      rw [List.length_cons, ih, List.length_drop, rowBytes, List.length_cons]
      omega

/-- A row is cut at its blanks into the address and the bytes. -/
theorem splitOn_row (addr : Nat) (bytes : List Byte) :
    (row addr bytes).toList.splitOn ' ' =
      Nat.toDigits 16 addr :: bytes.map fun b => (Text.byteHex b).toList := by
  have blank : ∀ d : Nat, d.digitChar ≠ ' ' := fun _ => Nat.digitChar_ne ' ' rfl
  have cut : ∀ front : List Char, ' ' ∉ front →
      (front ++ (String.join (bytes.map fun b => " " ++ Text.byteHex b)).toList).splitOn ' ' =
        front :: bytes.map fun b => (Text.byteHex b).toList := by
    induction bytes with
    | nil =>
        intro front apart
        rw [List.map_nil, String.join_nil, String.toList_empty, List.append_nil,
          List.splitOn_eq_singleton apart, List.map_nil]
    | cons b rest ih =>
        intro front apart
        have mark : (" " ++ Text.byteHex b).toList = ' ' :: (Text.byteHex b).toList := by simp
        rw [List.map_cons, String.join_cons, String.toList_append, mark, List.cons_append,
          List.splitOn_append_cons_self_of_not_mem apart, ih _ (notMem_byteHex blank b),
          List.map_cons]
  rw [row, String.toList_append, cut _ (Text.notMem_hex blank addr), Text.hex,
    String.toList_ofList]

theorem cells_row (addr : Nat) (bytes : List Byte) :
    cells (row addr bytes).toList = bytes.map fun b => (Text.byteHex b).toList := by
  rw [cells, splitOn_row, List.tail_cons]

theorem isRow_row (addr : Nat) (bytes : List Byte) : IsRow (row addr bytes) addr bytes.length := by
  refine ⟨_, splitOn_row addr bytes, List.length_map _, fun cell mem => ?_⟩
  obtain ⟨b, -, rfl⟩ := List.mem_map.mp mem
  have small : b.toNat < 256 := b.isLt
  have digit : ∀ d < 16, d.digitChar ∈ digits := by decide
  rw [toList_byteHex]
  refine ⟨rfl, List.forall_mem_cons.mpr ⟨digit _ (by omega), List.forall_mem_singleton.mpr ?_⟩⟩
  exact digit _ (by omega)

/-! ## Dumps -/

theorem tail_lines (addr : Nat) (bytes : List Byte) :
    (lines addr bytes).tail =
      (rows bytes).zipIdx.map fun found => row (addr + found.2 * rowBytes) found.1 := rfl

theorem isRow_of_lines {addr r : Nat} {bytes : List Byte} {line : String}
    (h : (lines addr bytes).tail[r]? = some line) :
    IsRow line (addr + 16 * r) (min 16 (bytes.length - 16 * r)) := by
  rw [tail_lines, List.getElem?_map, List.getElem?_zipIdx, getElem?_rows] at h
  split at h
  · cases h
    have count : ((bytes.drop (16 * r)).take 16).length = min 16 (bytes.length - 16 * r) := by
      rw [List.length_take, List.length_drop]
    rw [← count, Nat.zero_add, rowBytes, Nat.mul_comm]
    exact isRow_row _ _
  · cases h

theorem length_tail_lines (addr : Nat) (bytes : List Byte) :
    (lines addr bytes).tail.length = (bytes.length + 15) / 16 := by
  rw [tail_lines, List.length_map, List.length_zipIdx, length_rows]

theorem flatMap_cells_lines (addr : Nat) (bytes : List Byte) :
    (lines addr bytes).tail.flatMap (fun line => cells line.toList) =
      bytes.map fun b => (Text.byteHex b).toList := by
  let shown (bytes : List Byte) := bytes.map fun b => (Text.byteHex b).toList
  calc (lines addr bytes).tail.flatMap (fun line => cells line.toList)
    _ = (rows bytes).zipIdx.flatMap fun found => shown found.1 := by
        simp only [tail_lines, List.flatMap_map, cells_row, shown]
    _ = ((rows bytes).zipIdx.map Prod.fst).flatMap shown := (List.flatMap_map ..).symm
    _ = shown bytes := by
        rw [List.zipIdx_map_fst, List.flatMap_def, ← List.map_flatten, flatten_rows]

theorem splitOn_text {lines : List String} (plain : ∀ line ∈ lines, Text.OneLine line) :
    (Shell.text lines).toList.splitOn '\n' = lines.map String.toList ++ [[]] := by
  induction lines with
  | nil => rfl
  | cons line rest ih =>
      obtain ⟨first, later⟩ := List.forall_mem_cons.mp plain
      have cut : (Shell.text (line :: rest)).toList =
          line.toList ++ '\n' :: (Shell.text rest).toList := by
        rw [Shell.text_cons]
        simp
      rw [cut, List.splitOn_append_cons_self_of_not_mem first, ih later, List.map_cons,
        List.cons_append]

theorem read?_text_lines (addr : Nat) (bytes : List Byte) :
    read? (Shell.text (lines addr bytes)) = some bytes := by
  have plain : ∀ line ∈ lines addr bytes, Text.OneLine line := fun line mem =>
    (Shell.plain_dump addr bytes line mem).1
  have rest : (lines addr bytes).map String.toList =
      header.toList :: (lines addr bytes).tail.map String.toList := rfl
  have behind : ([[]] : List (List Char)).flatMap cells = [] := rfl
  rw [read?, splitOn_text plain, rest, List.cons_append, List.tail_cons, List.flatMap_append,
    List.flatMap_map, flatMap_cells_lines, behind, List.append_nil, List.mapM_map]
  simp only [Function.comp_def, cell?_byteHex]
  exact List.mapM_pure.trans (congrArg some (List.map_id bytes))

theorem pictures_lines (start : Nat) (bytes : List Byte) :
    Pictures (Shell.text (lines start bytes)) start bytes := by
  have columns : header = "XXXXXXXX 00 01 02 03 04 05 06 07 08 09 0a 0b 0c 0d 0e 0f" := by
    decide +kernel
  have shape : lines start bytes = header :: (lines start bytes).tail := rfl
  refine ⟨⟨(lines start bytes).tail, ?_, length_tail_lines start bytes, fun r line there => ?_⟩,
    read?_text_lines start bytes⟩
  · rw [← columns, ← shape]
  · have found := isRow_of_lines there
    rw [length_tail_lines]
    constructor
    · intro before
      rwa [Nat.min_eq_left (by omega)] at found
    · intro last
      rw [Nat.min_eq_right (by omega)] at found
      exact ⟨by omega, by omega, found⟩

end Dump

/-! ## Requests -/

/-- What a range shows is what memory holds from its first address on. -/
theorem Simulator.number?_of_bytesIn {s : Simulator} {addr len : Word} {bytes : List Byte}
    (h : s.bytesIn addr len = .ok bytes) :
    bytes.length = len.toNat ∧ ∀ (i : Nat) (hi : i < bytes.length),
      s.machine.memory.number? (addr.toNat + i) = some bytes[i].toNat := by
  rw [bytesIn_eq] at h
  split at h
  · next both =>
    cases h
    obtain ⟨low, high⟩ := (s.machine.memory.covers_iff addr len.toNat).mp both.2
    refine ⟨Store.length_slice _ _ _, fun i hi => ?_⟩
    rw [Store.length_slice] at hi
    rw [Memory.number?, if_pos ⟨by omega, by omega⟩]
    simp only [Store.slice, List.getElem_map, List.getElem_range]
    rw [Nat.sub_add_comm low]
  · cases h

/-- A range is shown where two expressions have values. -/
theorem Simulator.examine_eq_ok {s : Simulator} {count place : String} {start : Word}
    {bytes : List Byte} (h : (s.examine count place).2 = .ok (start, bytes)) :
    ∃ len, HartMonitor.evaluate s.machine count = .ok len ∧
      HartMonitor.evaluate s.machine place = .ok start ∧ s.bytesIn start len = .ok bytes := by
  cases counted : HartMonitor.evaluate s.machine count with
  | error e => simp only [examine, evaluate, counted] at h; cases h
  | ok len =>
      cases placed : HartMonitor.evaluate s.machine place with
      | error e => simp only [examine, evaluate, counted, placed] at h; cases h
      | ok addr =>
          rw [examine_of_values counted placed] at h
          cases shown : s.bytesIn addr len with
          | error e => rw [shown] at h; cases h
          | ok found =>
              rw [shown] at h
              cases h
              exact ⟨len, rfl, rfl, shown⟩

namespace Shell

/-- The request that `x` makes with an argument is accepted, for an address and the bytes there. -/
def Accepts (sh : Shell) (argument : String) (start : Word) (bytes : List Byte) : Prop :=
  ∃ count place, Text.splitAtBlank? argument = some (count, place) ∧
    (sh.simulator.examine count (Text.trim place)).2 = .ok (start, bytes)

theorem Accepts.output {sh : Shell} {argument : String} {start : Word} {bytes : List Byte}
    (h : sh.Accepts argument start bytes) :
    (sh.perform "x" argument).output = text (Dump.lines start.toNat bytes) := by
  obtain ⟨count, place, cut, found⟩ := h
  show (sh.examineCommand argument).output = _
  rw [← text_render]
  simp only [examineCommand, cut]
  generalize sh.simulator.examine count (Text.trim place) = out at found
  obtain ⟨s, result⟩ := out
  obtain rfl : result = .ok (start, bytes) := found
  rfl

end Shell

/-- An accepted request is answered with a picture of memory: the bytes that memory holds from the
address on, as many as were asked for.  Where something else is shown, the answers differ. -/
theorem dump_faithful {sh : Shell} {argument : String} {start : Word} {bytes : List Byte}
    (accepted : sh.Accepts argument start bytes) :
    (∃ count place len, Text.splitAtBlank? argument = some (count, place) ∧
      evaluate sh.simulator.machine count = .ok len ∧ bytes.length = len.toNat ∧
      evaluate sh.simulator.machine (Text.trim place) = .ok start) ∧
    (∀ (i : Nat) (hi : i < bytes.length),
      sh.simulator.machine.memory.number? (start.toNat + i) = some bytes[i].toNat) ∧
    Dump.Pictures (sh.perform "x" argument).output start.toNat bytes ∧
    ∀ sh' argument' start' bytes', Shell.Accepts sh' argument' start' bytes' → bytes' ≠ bytes →
      (sh'.perform "x" argument').output ≠ (sh.perform "x" argument).output := by
  obtain ⟨count, place, cut, found⟩ := id accepted
  obtain ⟨len, counted, placed, shown⟩ := Simulator.examine_eq_ok found
  obtain ⟨length, held⟩ := Simulator.number?_of_bytesIn shown
  refine ⟨⟨count, place, len, cut, counted, length, placed⟩, held, ?_,
    fun sh' argument' start' bytes' accepted' differ same => differ ?_⟩
  · rw [accepted.output]
    exact Dump.pictures_lines start.toNat bytes
  · have read := Dump.read?_text_lines start'.toNat bytes'
    rw [← accepted'.output, same, accepted.output, Dump.read?_text_lines] at read
    exact (Option.some.inj read).symm

/-- The last seventeen physical bytes are shown in two rows, the second of them with one cell, and not
as the last sixteen are. -/
theorem dump_faithful_at_end :
    let s := (Simulator.create { memory := ⟨0x87ffffef, 17⟩ }).perform
      (.load (.raw [0x13, 0x05, 0xa0] 0x87ffffef))
    let sh : Shell := { simulator := s }
    let bytes : List Byte := [0x13, 0x05, 0xa0] ++ List.replicate 14 0
    sh.Accepts "17 0x87ffffef" 0x87ffffef bytes ∧
      s.machine.memory.number? 0x87fffff1 = some 0xa0 ∧
      Dump.Pictures (sh.perform "x" "17 0x87ffffef").output 0x87ffffef bytes ∧
      (sh.perform "x" "16 0x87fffff0").output ≠ (sh.perform "x" "17 0x87ffffef").output := by
  intro s sh bytes
  have accepted : sh.Accepts "17 0x87ffffef" 0x87ffffef bytes :=
    ⟨"17", "0x87ffffef", by decide +kernel, by decide +kernel⟩
  have later : sh.Accepts "16 0x87fffff0" 0x87fffff0 ([0x05, 0xa0] ++ List.replicate 14 0) :=
    ⟨"16", "0x87fffff0", by decide +kernel, by decide +kernel⟩
  obtain ⟨-, held, picture, differ⟩ := dump_faithful accepted
  exact ⟨accepted, held 2 (by decide), picture, differ sh _ _ _ later (by decide)⟩

end HartMonitor
