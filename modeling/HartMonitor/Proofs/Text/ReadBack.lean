/-
# `HartMonitor.Proofs.Text.ReadBack` — printed text has one reading

Digits are read back as the number that they were printed for.  What else is printed is put together
from pieces, with a character between them that the piece in front of it does not have:

    front ++ c :: back            c is not in front: the two pieces are known (`append_cons_cancel`)
    ", ".intercalate pieces       none has a comma: all pieces are known (`intercalate_cancel`)
-/
import HartMonitor.Proofs.Text.OneLine
import HartMonitor.Text.Numeral

namespace HartMonitor.Text

/-! ## Numbers -/

theorem digitsFrom?_concat (base high : Nat) (cs : List Char) (c : Char) :
    digitsFrom? base high (cs ++ [c]) =
      (digitsFrom? base high cs).bind fun n =>
        (digitBelow? base c).map fun d => n * base + d := by
  induction cs generalizing high with
  | nil =>
      simp only [List.nil_append, digitsFrom?, Option.bind_some]
      exact (Option.map_eq_bind ..).symm
  | cons first rest ih => simp only [List.cons_append, digitsFrom?, ih, Option.bind_assoc]

theorem digitBelow?_digitChar : ∀ d < 16, ∀ base ≤ 16, d < base →
    digitBelow? base d.digitChar = some d := by
  decide

section Digits
variable {base : Nat} (large : 1 < base) (small : base ≤ 16)
include large small

theorem digitsFrom?_toDigits (n : Nat) : digitsFrom? base 0 (base.toDigits n) = some n := by
  induction n using Nat.strongRecOn with
  | _ n ih =>
      have digit : ∀ d < base, digitBelow? base d.digitChar = some d := fun d below =>
        digitBelow?_digitChar d (by omega) base small below
      rw [Nat.toDigits_eq_if large]
      split
      · next one => simp [digitsFrom?, digit n one]
      · next many =>
        have last := digit (n % base) (Nat.mod_lt _ (by omega))
        rw [digitsFrom?_concat, ih _ (Nat.div_lt_self (by omega) large), Option.bind_some, last,
          Option.map_some, Nat.div_add_mod']

theorem toDigits_injective : Function.Injective base.toDigits := by
  intro a b same
  have read := digitsFrom?_toDigits large small a
  rw [same, digitsFrom?_toDigits large small b] at read
  exact (Option.some.inj read).symm

end Digits

theorem marked_injective : Function.Injective marked := by
  intro a b same
  have digits : hex a = hex b := (String.append_right_inj _).mp same
  exact toDigits_injective (by decide) (by decide) (String.ofList_injective digits)

theorem repr_injective : Function.Injective Nat.repr := by
  intro a b same
  refine toDigits_injective (by decide) (by decide : 10 ≤ 16) ?_
  rw [← Nat.toList_repr, ← Nat.toList_repr, same]

/-- Numbers of one sign differ in their digits, and of two in the sign. -/
theorem repr_int_injective : Function.Injective Int.repr := by
  have signed : ∀ n : Nat, (Int.negSucc n).repr = "-" ++ (n + 1).repr := fun _ => rfl
  have apart : ∀ m n : Nat, (Int.ofNat m).repr ≠ (Int.negSucc n).repr := by
    intro m n same
    have unsigned : '-' ∉ (Int.ofNat m).repr.toList :=
      notMem_repr (fun _ => Nat.digitChar_ne '-' rfl) m
    rw [same, signed, String.toList_append] at unsigned
    exact unsigned List.mem_cons_self
  intro a b same
  match a, b with
  | .ofNat m, .ofNat n => exact congrArg Int.ofNat (repr_injective same)
  | .ofNat m, .negSucc n => exact absurd same (apart m n)
  | .negSucc m, .ofNat n => exact absurd same.symm (apart n m)
  | .negSucc m, .negSucc n =>
      have digits : (m + 1).repr = (n + 1).repr := (String.append_right_inj _).mp same
      exact congrArg Int.negSucc (Nat.succ.inj (repr_injective digits))

/-! ## Pieces -/

/-- What stands in front of the first `c` ends there. -/
theorem append_cons_cancel {c : Char} {front front' back back' : List Char} (apart : c ∉ front)
    (apart' : c ∉ front') (same : front ++ c :: back = front' ++ c :: back') :
    front = front' ∧ back = back' := by
  have cut : ∀ {front back : List Char}, c ∉ front →
      (front ++ c :: back).takeWhile (fun a => decide (a ≠ c)) = front := by
    intro front back apart
    have passed : ∀ a ∈ front, decide (a ≠ c) = true := fun a mem =>
      decide_eq_true fun h => apart (h ▸ mem)
    rw [List.takeWhile_append_of_pos passed, List.takeWhile_cons_of_neg (by simp), List.append_nil]
  have fronts : front = front' := by rw [← cut apart, same, cut apart']
  subst fronts
  exact ⟨rfl, (List.cons.inj (List.append_cancel_left same)).2⟩

/-- Pieces without a comma are what is listed of them, cut at the commas. -/
theorem splitOn_intercalate_comma {first : String} {rest : List String}
    (apart : ∀ piece ∈ first :: rest, ',' ∉ piece.toList) :
    (", ".intercalate (first :: rest)).toList.splitOn ',' =
      first.toList :: rest.map fun piece => ' ' :: piece.toList := by
  -- the blank behind a comma belongs to the piece that follows
  have commas : ∀ first, (", ".intercalate (first :: rest)).toList =
      [','].intercalate (first.toList :: rest.map fun piece => ' ' :: piece.toList) := by
    clear apart
    induction rest with
    | nil => intro first; simp
    | cons next rest ih =>
        intro first
        simp only [String.intercalate_cons_cons, String.toList_append, ih next, List.map_cons,
          List.intercalate_cons_cons, List.intercalate_cons_cons_left]
        simp
  rw [commas, List.splitOn_intercalate _ _ (List.cons_ne_nil _ _)]
  intro piece mem
  obtain ⟨free, later⟩ := List.forall_mem_cons.mp apart
  obtain rfl | behind := List.mem_cons.mp mem
  · exact free
  · obtain ⟨next, there, rfl⟩ := List.mem_map.mp behind
    exact List.not_mem_cons_of_ne_of_not_mem (by decide) (later next there)

/-- So two lists of such pieces are listed differently. -/
theorem intercalate_cancel {first first' : String} {rest rest' : List String}
    (apart : ∀ piece ∈ first :: rest, ',' ∉ piece.toList)
    (apart' : ∀ piece ∈ first' :: rest', ',' ∉ piece.toList)
    (same : ", ".intercalate (first :: rest) = ", ".intercalate (first' :: rest')) :
    first :: rest = first' :: rest' := by
  have cut := splitOn_intercalate_comma apart
  rw [same, splitOn_intercalate_comma apart'] at cut
  obtain ⟨heads, tails⟩ := List.cons.inj cut
  have behind : ∀ a b : String, ' ' :: a.toList = ' ' :: b.toList → a = b := fun _ _ h =>
    String.toList_injective (List.cons.inj h).2
  rw [String.toList_injective heads, (List.map_inj_right behind).mp tails]

end HartMonitor.Text
