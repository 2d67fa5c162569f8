/-
# `HartMonitor.Proofs.Document.Shape` — values of an expected shape, and the first problem

A shape says what is expected of a value: a truth value, a natural number of a bounded width, or a
record of named fields.  `Fits` holds of the trees that are as expected.  `FirstProblem` holds of a
text that is not, and names what is wrong first, from left to right; what stands behind that is
arbitrary.

    unsound       a number beyond double precision, half of a surrogate pair        malformed
    wrong value   a value of another type, or a number that is not in range         mismatch
    bracket       a list or a record where neither can be                           mismatch
    illegible     a name with half of a surrogate pair                              malformed
    repeated      a name that is known, again                                       mismatch
    member        a member whose name is known, with a problem in its value
    element       the same in a list, by its place
    surplus       an element without a field                                        malformed

Every written value fits a shape or has a first problem (`fits_or_problem`), so it has one exactly
where a name is repeated or a field has a value that it cannot have.
-/
import HartMonitor.Proofs.Document.Scan
import Mathlib.Algebra.Group.Nat.Defs

namespace HartMonitor.Document

open DocumentError

/-- What a value is expected to be. -/
inductive Shape where
  | flag
  | natural (bits : Nat)
  | record (fields : List (String × Shape))

def Shape.IsScalar : Shape → Prop
  | record _ => False
  | _ => True

/-- A scalar that is more than well-formed: its number is not too large, its string is one. -/
def Json.Sound : Json → Prop
  | number n => n.isTooLarge = false
  | string s => s.decode? ≠ none
  | _ => True

/-- The values of the members with a name, in their order. -/
def valuesOf (name : String) (ms : List Member) : List Json :=
  ms.filterMap fun m => if m.1.decode? = some name.toList then some m.2 else none

/-- Every name is one. -/
def Legible (ms : List Member) : Prop := ∀ m ∈ ms, m.1.decode? ≠ none

/-- A value is as expected. -/
inductive Fits : Shape → Json → Prop
  | flag (b : Bool) : Fits .flag (.flag b)
  | natural {bits k : Nat} {n : NumberText} (sound : n.isTooLarge = false)
      (value : n.natural? = some k) (small : k < 2 ^ bits) : Fits (.natural bits) (.number n)
  | record {fields : List (String × Shape)} {ms : List Member} (legible : Legible ms)
      (once : ∀ name shape, fields.lookup name = some shape → (valuesOf name ms).length ≤ 1)
      (values : ∀ name shape v, fields.lookup name = some shape → v ∈ valuesOf name ms →
        Fits shape v) : Fits (.record fields) (.record ms)
  | list {fields : List (String × Shape)} {vs : List Json} (enough : vs.length ≤ fields.length)
      (values : ∀ (i : Nat) field v, fields[i]? = some field → vs[i]? = some v → Fits field.2 v) :
      Fits (.record fields) (.list vs)

/-- A name that is known is repeated, or has a value that it cannot have, at any depth. -/
inductive Faulty : Shape → Json → Prop
  | repeated {fields : List (String × Shape)} {ms : List Member} {name : String} {shape : Shape}
      (known : fields.lookup name = some shape) (again : 1 < (valuesOf name ms).length) :
      Faulty (.record fields) (.record ms)
  | member {fields : List (String × Shape)} {ms : List Member} {name : String} {shape : Shape}
      {v : Json} (known : fields.lookup name = some shape) (given : v ∈ valuesOf name ms)
      (faulty : Faulty shape v) : Faulty (.record fields) (.record ms)
  | notRecord {fields : List (String × Shape)} {v : Json} (scalar : v.IsScalar) :
      Faulty (.record fields) v
  | notFlag {v : Json} (other : ∀ b, v ≠ .flag b) : Faulty .flag v
  | notNumber {bits : Nat} {v : Json} (other : ∀ n, v ≠ .number n) : Faulty (.natural bits) v
  | negative {bits : Nat} {n : NumberText} (signed : n.negative = true) :
      Faulty (.natural bits) (.number n)
  | fractional {bits : Nat} {n : NumberText} (pointed : n.fraction ≠ none ∨ n.exponent ≠ none) :
      Faulty (.natural bits) (.number n)
  | outOfRange {bits k : Nat} {n : NumberText} (value : n.natural? = some k) (large : 2 ^ bits ≤ k) :
      Faulty (.natural bits) (.number n)

theorem Faulty.not_fits {shape : Shape} {v : Json} (faulty : Faulty shape v) : ¬ Fits shape v := by
  intro fits
  induction faulty with
  | repeated known again =>
      cases fits with
      | record _ once _ => exact absurd (once _ _ known) (Nat.not_le_of_lt again)
  | member known given _ ih =>
      cases fits with
      | record _ _ values => exact ih (values _ _ _ known given)
  | notRecord scalar => cases fits <;> exact scalar
  | notFlag other =>
      cases fits with
      | flag b => exact other b rfl
  | notNumber other =>
      cases fits with
      | natural => exact other _ rfl
  | negative signed =>
      cases fits with
      | natural _ value _ => simp [NumberText.natural?, signed] at value
  | fractional pointed =>
      cases fits with
      | natural _ value _ =>
          obtain some | some := pointed <;>
            simp [NumberText.natural?, Option.isSome_iff_ne_none.mpr some] at value
  | outOfRange value large =>
      cases fits with
      | natural _ value' small =>
          obtain rfl := Option.some.inj (value.symm.trans value')
          exact absurd small (Nat.not_lt_of_le large)

/-- What is wrong first with a text in the place of a value. -/
inductive FirstProblem : Shape → List Char → DocumentError → Prop
  | unsound {shape : Shape} {v : Json} {t rest : List Char} (scalar : v.IsScalar)
      (unsound : ¬ v.Sound) (written : Written (.value v) t) (parted : v.Parted rest) :
      FirstProblem shape (t ++ rest) malformed
  | wrongValue {shape : Shape} {v : Json} {t rest : List Char} (scalar : v.IsScalar)
      (sound : v.Sound) (wrong : ¬ Fits shape v) (written : Written (.value v) t)
      (parted : v.Parted rest) : FirstProblem shape (t ++ rest) mismatch
  | bracket {shape : Shape} {c : Char} {rest : List Char} (scalar : shape.IsScalar)
      (bracket : c = '[' ∨ c = '\x7b') : FirstProblem shape (c :: rest) mismatch
  | illegible {fields : List (String × Shape)} {ms : List Member} {t s s' rest : List Char}
      {n : Name} (before : Written (.members true ms) t) (fine : Fits (.record fields) (.record ms))
      (blank : Blank s) (blank' : Blank s') (illegible : n.decode? = none) :
      FirstProblem (.record fields) ('\x7b' :: (t ++ next ms.isEmpty s s' (n.inQuotes rest))) malformed
  | repeated {fields : List (String × Shape)} {ms : List Member} {t s s' rest : List Char} {n : Name}
      {name : String} {shape : Shape} (before : Written (.members true ms) t)
      (fine : Fits (.record fields) (.record ms)) (blank : Blank s) (blank' : Blank s')
      (named : n.decode? = some name.toList) (known : fields.lookup name = some shape)
      (again : valuesOf name ms ≠ []) :
      FirstProblem (.record fields) ('\x7b' :: (t ++ next ms.isEmpty s s' (n.inQuotes rest))) mismatch
  | member {fields : List (String × Shape)} {ms : List Member} {t s s' s₁ s₂ bad : List Char}
      {n : Name} {name : String} {shape : Shape} {e : DocumentError}
      (before : Written (.members true ms) t) (fine : Fits (.record fields) (.record ms))
      (blank : Blank s) (blank' : Blank s') (blank₁ : Blank s₁) (blank₂ : Blank s₂)
      (named : n.decode? = some name.toList) (known : fields.lookup name = some shape)
      (new : valuesOf name ms = []) (problem : FirstProblem shape bad e) :
      FirstProblem (.record fields)
        ('\x7b' :: (t ++ next ms.isEmpty s s' (n.inQuotes (s₁ ++ ':' :: (s₂ ++ bad))))) e
  | element {fields : List (String × Shape)} {vs : List Json} {t s s' bad : List Char}
      {field : String × Shape} {e : DocumentError} (before : Written (.items true vs) t)
      (fine : Fits (.record fields) (.list vs)) (blank : Blank s) (blank' : Blank s')
      (place : fields[vs.length]? = some field) (problem : FirstProblem field.2 bad e) :
      FirstProblem (.record fields) ('[' :: (t ++ next vs.isEmpty s s' bad)) e
  | surplus {fields : List (String × Shape)} {v : Json} {vs : List Json} {t s s' t' rest : List Char}
      (before : Written (.items true vs) t) (fine : Fits (.record fields) (.list vs))
      (blank : Blank s) (blank' : Blank s') (all : vs.length = fields.length)
      (written : Written (.value v) t') :
      FirstProblem (.record fields) ('[' :: (t ++ next vs.isEmpty s s' (t' ++ rest))) malformed

variable {fields : List (String × Shape)} {ms : List Member} {vs : List Json} {v : Json} {n : Name}
  {s s' s₁ s₂ t t' : List Char}

/-! ## One item more -/

theorem valuesOf_cons (name : String) (m : Member) (ms : List Member) :
    valuesOf name (m :: ms) =
      (if m.1.decode? = some name.toList then [m.2] else []) ++ valuesOf name ms := by
  rw [valuesOf, List.filterMap_cons, valuesOf]
  by_cases named : m.1.decode? = some name.toList <;> simp [named]

theorem valuesOf_concat (name : String) (ms : List Member) (m : Member) :
    valuesOf name (ms ++ [m]) =
      valuesOf name ms ++ if m.1.decode? = some name.toList then [m.2] else [] := by
  rw [valuesOf, List.filterMap_append, ← valuesOf, ← valuesOf, valuesOf_cons]
  simp [valuesOf]

theorem Written.items_concat {first : Bool} (before : Written (.items first vs) t') (blank : Blank s)
    (blank' : Blank s') (value : Written (.value v) t) :
    Written (.items first (vs ++ [v])) (t' ++ next (first && vs.isEmpty) s s' t) := by
  induction vs generalizing first t' with
  | nil =>
      cases before with
      | noItems before =>
          have only : Written (.items first [v]) _ :=
            .item (before.append blank) blank' value (.noItems (s := []) nofun)
          simpa [next] using only
  | cons u vs ih =>
      cases before with
      | item before before' first later =>
          rw [next_append, List.append_assoc]
          refine .item before before' first ?_
          simpa using ih later

theorem Written.members_concat {first : Bool} (before : Written (.members first ms) t')
    (blank : Blank s) (blank' : Blank s') (blank₁ : Blank s₁) (blank₂ : Blank s₂)
    (value : Written (.value v) t) :
    Written (.members first (ms ++ [(n, v)]))
      (t' ++ next (first && ms.isEmpty) s s' (n.inQuotes (s₁ ++ ':' :: (s₂ ++ t)))) := by
  induction ms generalizing first t' with
  | nil =>
      cases before with
      | noMembers before =>
          have only : Written (.members first [(n, v)]) _ :=
            .member (before.append blank) blank' blank₁ blank₂ value (.noMembers (s := []) nofun)
          simpa [next] using only
  | cons m ms ih =>
      cases before with
      | member before before' before₁ before₂ first later =>
          rw [next_append, Name.inQuotes_append]
          simp only [List.append_assoc, List.cons_append]
          refine .member before before' before₁ before₂ first ?_
          simpa using ih later

theorem fits_list_iff :
    Fits (.record fields) (.list vs) ↔ vs.length ≤ fields.length ∧
      ∀ (i : Nat) field v, fields[i]? = some field → vs[i]? = some v → Fits field.2 v :=
  ⟨fun | .list enough values => ⟨enough, values⟩, fun ⟨enough, values⟩ => .list enough values⟩

theorem fits_record_iff :
    Fits (.record fields) (.record ms) ↔ Legible ms ∧
      (∀ name shape, fields.lookup name = some shape → (valuesOf name ms).length ≤ 1) ∧
      ∀ name shape v, fields.lookup name = some shape → v ∈ valuesOf name ms → Fits shape v :=
  ⟨fun | .record legible once values => ⟨legible, once, values⟩,
    fun ⟨legible, once, values⟩ => .record legible once values⟩

theorem Fits.list_concat (fine : Fits (.record fields) (.list vs)) {field : String × Shape}
    (place : fields[vs.length]? = some field) (fits : Fits field.2 v) :
    Fits (.record fields) (.list (vs ++ [v])) := by
  obtain ⟨-, values⟩ := fits_list_iff.mp fine
  have there := (List.getElem?_eq_some_iff.mp place).1
  refine .list (by simpa [Nat.succ_le_iff] using there) fun i other w known found => ?_
  obtain earlier | rfl | later := Nat.lt_trichotomy i vs.length
  · rw [List.getElem?_append_left earlier] at found
    exact values i other w known found
  · rw [List.getElem?_concat_length] at found
    obtain rfl := Option.some.inj found
    obtain rfl := Option.some.inj (place.symm.trans known)
    exact fits
  · rw [List.getElem?_eq_none (by simpa [Nat.succ_le_iff] using later)] at found
    cases found

theorem Fits.record_concat (fine : Fits (.record fields) (.record ms)) {cs : List Char}
    (named : n.decode? = some cs)
    (new : ∀ name shape, fields.lookup name = some shape → name.toList = cs →
      valuesOf name ms = [] ∧ Fits shape v) :
    Fits (.record fields) (.record (ms ++ [(n, v)])) := by
  obtain ⟨legible, once, values⟩ := fits_record_iff.mp fine
  refine .record ?_ ?_ ?_
  · intro m hm
    obtain old | rfl := by simpa using hm
    · exact legible m old
    · simp [named]
  · intro name shape known
    rw [valuesOf_concat, named]
    by_cases same : name.toList = cs
    · simp [(new name shape known same).1, same]
    · simpa [Ne.symm same] using once name shape known
  · intro name shape w known mem
    rw [valuesOf_concat, named] at mem
    by_cases same : name.toList = cs
    · obtain ⟨none, fits⟩ := new name shape known same
      obtain rfl : w = v := by simpa [none, same] using mem
      exact fits
    · exact values name shape w known (by simpa [Ne.symm same] using mem)

/-! ## What is not as expected has a first problem -/

/-- What is known of a part: a value of any shape, and items behind fine ones. -/
def Part.Judged : Part → List Char → Prop
  | .value v, t => ∀ shape,
      Fits shape v ∨ ∃ e, ∀ rest, v.Parted rest → FirstProblem shape (t ++ rest) e
  | .items first vs, t => ∀ fields before t', Written (.items true before) t' →
      Fits (.record fields) (.list before) → before.isEmpty = first →
      Fits (.record fields) (.list (before ++ vs)) ∨
        ∃ e, ∀ rest, Ends rest → FirstProblem (.record fields) ('[' :: (t' ++ (t ++ rest))) e
  | .members first ms, t => ∀ fields before t', Written (.members true before) t' →
      Fits (.record fields) (.record before) → before.isEmpty = first →
      Fits (.record fields) (.record (before ++ ms)) ∨
        ∃ e, ∀ rest, Ends rest → FirstProblem (.record fields) ('\x7b' :: (t' ++ (t ++ rest))) e

theorem scalar_judged (w : Written (.value v) t) (scalar : v.IsScalar) (shape : Shape) :
    Fits shape v ∨ ∃ e, ∀ rest, v.Parted rest → FirstProblem shape (t ++ rest) e := by
  by_cases sound : v.Sound
  · by_cases fits : Fits shape v
    · exact .inl fits
    · exact .inr ⟨mismatch, fun _ parted => .wrongValue scalar sound fits w parted⟩
  · exact .inr ⟨malformed, fun _ parted => .unsound scalar sound w parted⟩

/-- An element behind fine ones is fine too, or has the first problem. -/
theorem element_judged (front : Written (.items true vs) t') (fine : Fits (.record fields) (.list vs))
    (blank : Blank s) (blank' : Blank s') (value : Written (.value v) t)
    (judged : ∀ shape, Fits shape v ∨ ∃ e, ∀ rest, v.Parted rest → FirstProblem shape (t ++ rest) e) :
    Fits (.record fields) (.list (vs ++ [v])) ∨ ∃ e, ∀ rest, v.Parted rest →
      FirstProblem (.record fields) ('[' :: (t' ++ next vs.isEmpty s s' (t ++ rest))) e := by
  cases place : fields[vs.length]? with
  | none =>
      have all : vs.length = fields.length :=
        Nat.le_antisymm (fits_list_iff.mp fine).1 (List.getElem?_eq_none_iff.mp place)
      exact .inr ⟨malformed, fun _ _ => .surplus front fine blank blank' all value⟩
  | some field =>
      refine (judged field.2).imp (fine.list_concat place) ?_
      rintro ⟨e, problem⟩
      exact ⟨e, fun rest parted => .element front fine blank blank' place (problem rest parted)⟩

/-- A member behind fine ones is fine too, or has the first problem. -/
theorem member_judged (front : Written (.members true ms) t')
    (fine : Fits (.record fields) (.record ms)) (blank : Blank s) (blank' : Blank s')
    (blank₁ : Blank s₁) (blank₂ : Blank s₂)
    (judged : ∀ shape, Fits shape v ∨ ∃ e, ∀ rest, v.Parted rest → FirstProblem shape (t ++ rest) e) :
    Fits (.record fields) (.record (ms ++ [(n, v)])) ∨ ∃ e, ∀ rest, v.Parted rest →
      FirstProblem (.record fields)
        ('\x7b' :: (t' ++ next ms.isEmpty s s' (n.inQuotes (s₁ ++ ':' :: (s₂ ++ (t ++ rest)))))) e := by
  cases named : n.decode? with
  | none => exact .inr ⟨malformed, fun _ _ => .illegible front fine blank blank' named⟩
  | some cs =>
      by_cases known : ∃ name shape, fields.lookup name = some shape ∧ name.toList = cs
      · obtain ⟨name, shape, known, rfl⟩ := known
        by_cases new : valuesOf name ms = []
        · refine (judged shape).imp (fun fits => ?_) ?_
          · refine fine.record_concat named fun other shape' known' same => ?_
            obtain rfl := String.toList_injective same
            obtain rfl := Option.some.inj (known.symm.trans known')
            exact ⟨new, fits⟩
          · rintro ⟨e, problem⟩
            exact ⟨e, fun rest parted =>
              .member front fine blank blank' blank₁ blank₂ named known new (problem rest parted)⟩
        · exact .inr ⟨mismatch, fun _ _ => .repeated front fine blank blank' named known new⟩
      · exact .inl (fine.record_concat named fun name shape known' same =>
          absurd ⟨name, shape, known', same⟩ known)

theorem judged {p : Part} (w : Written p t) : p.Judged t := by
  induction w with
  | null => exact scalar_judged .null trivial
  | yes => exact scalar_judged .yes trivial
  | no => exact scalar_judged .no trivial
  | number spelled => exact scalar_judged (.number spelled) trivial
  | string s => exact scalar_judged (.string s) trivial
  | @list vs t items ih =>
      intro shape
      cases shape with
      | flag => exact .inr ⟨mismatch, fun _ _ => .bracket trivial (.inl rfl)⟩
      | natural bits => exact .inr ⟨mismatch, fun _ _ => .bracket trivial (.inl rfl)⟩
      | record fields =>
          have start : Fits (.record fields) (.list []) := .list (Nat.zero_le _) (by simp)
          refine (ih fields [] [] (.noItems nofun) start rfl).imp id ?_
          rintro ⟨e, problem⟩
          refine ⟨e, fun rest _ => ?_⟩
          rw [List.cons_append, List.append_assoc]
          exact problem _ (ends_cons (by decide) rest)
  | @record ms t members ih =>
      intro shape
      cases shape with
      | flag => exact .inr ⟨mismatch, fun _ _ => .bracket trivial (.inr rfl)⟩
      | natural bits => exact .inr ⟨mismatch, fun _ _ => .bracket trivial (.inr rfl)⟩
      | record fields =>
          have start : Fits (.record fields) (.record []) :=
            .record nofun (by simp [valuesOf]) (by simp [valuesOf])
          refine (ih fields [] [] (.noMembers nofun) start rfl).imp id ?_
          rintro ⟨e, problem⟩
          refine ⟨e, fun rest _ => ?_⟩
          rw [List.cons_append, List.append_assoc]
          exact problem _ (ends_cons (by decide) rest)
  | noItems =>
      intro fields before t' _ fine _
      rw [List.append_nil]
      exact .inl fine
  | noMembers =>
      intro fields before t' _ fine _
      rw [List.append_nil]
      exact .inl fine
  | @item first v vs s s' t more blank blank' value later ih ih' =>
      intro fields before t' front fine here
      subst here
      obtain fits | ⟨e, problem⟩ := element_judged front fine blank blank' value ih
      · refine (ih' fields _ _ (front.items_concat blank blank' value) fits (by simp)).imp ?_ ?_
        · simp
        · rintro ⟨e, problem⟩
          refine ⟨e, fun rest ends => ?_⟩
          simpa [next] using problem rest ends
      · refine .inr ⟨e, fun rest ends => ?_⟩
        rw [next_append, List.append_assoc]
        exact problem _ (.of_ends (later.ends_items ends) v)
  | @member first n v ms s s' s₁ s₂ t more blank blank' blank₁ blank₂ value later ih ih' =>
      intro fields before t' front fine here
      subst here
      obtain fits | ⟨e, problem⟩ :=
        member_judged (n := n) front fine blank blank' blank₁ blank₂ ih
      · have longer := front.members_concat (n := n) blank blank' blank₁ blank₂ value
        refine (ih' fields _ _ longer fits (by simp)).imp ?_ ?_
        · simp
        · rintro ⟨e, problem⟩
          refine ⟨e, fun rest ends => ?_⟩
          simpa [next, Name.inQuotes] using problem rest ends
      · refine .inr ⟨e, fun rest ends => ?_⟩
        simp only [next_append, Name.inQuotes_append, List.append_assoc, List.cons_append]
        exact problem _ (.of_ends (later.ends_members ends) v)

/-- A value that is written fits a shape, or its text has a first problem. -/
theorem fits_or_problem (w : Written (.value v) t) (shape : Shape) :
    Fits shape v ∨ ∃ e, ∀ rest, v.Parted rest → FirstProblem shape (t ++ rest) e :=
  judged w shape

end HartMonitor.Document
