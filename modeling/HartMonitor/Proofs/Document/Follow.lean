/-
# `HartMonitor.Proofs.Document.Follow` — readers that follow a shape

A reader follows a shape if it takes every value that fits, and reports the first problem of every
text that has one (`Follows`).  The readers of truth values and of natural numbers do, and a record
does if the readers of its fields do, whatever stands between its known members.

For a record, `members_reads` is the step that both halves share: members that are `Readable` are
read, and the reader stands behind them, whatever follows.  An invariant `Q` between the names that
have been seen and the record so far tells what has become of the values; without one, the members
are just read.  By the first member, either its name is unknown and all stays as it is, or its
field takes its value and the name has been seen from then on.
-/
import HartMonitor.Document.Record
import HartMonitor.Proofs.Document.Shape
import Mathlib.Data.List.Forall2

namespace HartMonitor.Document

open DocumentError

variable {α β σ : Type} {v : Json} {s s' t rest cs : List Char} {c : Char} {e : DocumentError}

/-- A reader takes a value, wherever and however that is written. -/
def Reads (r : ValueReader α) (v : Json) (a : α) : Prop :=
  ∀ s t rest, Blank s → Written (.value v) t → v.Parted rest → r.read (s ++ (t ++ rest)) = .ok (a, rest)

/-- A reader takes the values that fit a shape, and reports the first problem of other texts. -/
structure Follows (r : ValueReader α) (shape : Shape) : Prop where
  accepts : ∀ v, Fits shape v → ∃ a, Reads r v a
  refuses : ∀ s bad e, Blank s → FirstProblem shape bad e → r.read (s ++ bad) = .error e

theorem Reads.map {r : ValueReader α} {a : α} (reads : Reads r v a) (f : α → β) :
    Reads (r.map f) v (f a) := by
  intro s t rest blank w parted
  show (r.read _).map _ = _
  rw [reads s t rest blank w parted]
  rfl

theorem Reads.field {r : ValueReader α} {a : α} (reads : Reads r v a) (name : String)
    (f : α → σ → σ) : Reads (Field.change ⟨name, r.map f⟩) v (f a) :=
  reads.map f

theorem Follows.map {r : ValueReader α} {shape : Shape} (follows : Follows r shape) (f : α → β) :
    Follows (r.map f) shape where
  accepts v fits := by
    obtain ⟨a, reads⟩ := follows.accepts v fits
    exact ⟨f a, reads.map f⟩
  refuses s bad e blank problem := by
    show (r.read _).map _ = _
    rw [follows.refuses s bad e blank problem]
    rfl

/-! ## Scalars -/

theorem finiteNumber_append {n : NumberText} (spelled : n.Spelled t) (ends : Ends rest) :
    finiteNumber (t ++ rest) = if n.isTooLarge then .error malformed else .ok (n, rest) := by
  rw [finiteNumber, NumberText.number_append spelled ends]

theorem otherType_number (starts : startsNumber c = true) (cs : List Char) :
    otherType (c :: cs) =
      match finiteNumber (c :: cs) with
      | .error e => e
      | .ok _ => mismatch := by
  rw [otherType, if_neg (startsNumber_ne rfl starts), if_neg (startsNumber_ne rfl starts),
    if_neg (startsNumber_ne rfl starts), if_neg (startsNumber_ne rfl starts), if_pos starts]
  cases finiteNumber (c :: cs) <;> rfl

/-- A scalar in the place of another value is read to its end. -/
theorem otherType_scalar (w : Written (.value v) t) (scalar : v.IsScalar) (parted : v.Parted rest) :
    (v.Sound → otherType (t ++ rest) = mismatch) ∧
      (¬ v.Sound → otherType (t ++ rest) = malformed) := by
  cases w with
  | null =>
      refine ⟨fun _ => ?_, fun unsound => absurd trivial unsound⟩
      simp [otherType, spell]
  | yes =>
      refine ⟨fun _ => ?_, fun unsound => absurd trivial unsound⟩
      simp [otherType, spell]
  | no =>
      refine ⟨fun _ => ?_, fun unsound => absurd trivial unsound⟩
      simp [otherType, spell]
  | string n =>
      have read := quoted_strict n rest
      rw [Name.inQuotes_append]
      simp only [otherType, Name.inQuotes, List.nil_append, read, Json.Sound]
      cases n.decode? <;> simp
  | number spelled =>
      have read := finiteNumber_append spelled parted
      obtain ⟨c, more, rfl, starts⟩ := spelled.exists_cons
      rw [List.cons_append] at read ⊢
      rw [otherType_number starts, read]
      refine ⟨fun sound => ?_, fun unsound => ?_⟩
      · rw [if_neg (by simpa [Json.Sound] using sound)]
      · rw [if_pos (by simpa [Json.Sound] using unsound)]
  | list => exact scalar.elim
  | record => exact scalar.elim

theorem readFlag_of_ne (blank : Blank s) (solid : isSpace c = false) (yes : c ≠ 't') (no : c ≠ 'f') :
    readFlag (s ++ c :: cs) = .error (otherType (c :: cs)) := by
  rw [readFlag, skipSpace_append blank, skipSpace_cons solid]
  split <;> simp_all

theorem flag_reads (b : Bool) : Reads flag (.flag b) b := by
  intro s t rest blank w _
  show readFlag _ = _
  rw [readFlag, skipSpace_append blank]
  cases w with
  | yes =>
      rw [List.cons_append, skipSpace_cons (by decide)]
      show (spell _ (['r', 'u', 'e'] ++ rest)).map _ = _
      rw [spell_append]
      rfl
  | no =>
      rw [List.cons_append, skipSpace_cons (by decide)]
      show (spell _ (['a', 'l', 's', 'e'] ++ rest)).map _ = _
      rw [spell_append]
      rfl

theorem readFlag_scalar (blank : Blank s) (w : Written (.value v) t) (scalar : v.IsScalar)
    (other : ∀ b, v ≠ .flag b) : readFlag (s ++ (t ++ rest)) = .error (otherType (t ++ rest)) := by
  cases w with
  | null => exact readFlag_of_ne blank (by decide) (by decide) (by decide)
  | yes => exact absurd rfl (other true)
  | no => exact absurd rfl (other false)
  | string n => exact readFlag_of_ne blank (by decide) (by decide) (by decide)
  | number spelled =>
      obtain ⟨c, more, rfl, starts⟩ := spelled.exists_cons
      exact readFlag_of_ne blank (startsNumber_solid starts) (startsNumber_ne rfl starts)
        (startsNumber_ne rfl starts)
  | list => exact scalar.elim
  | record => exact scalar.elim

theorem flag_follows : Follows flag .flag where
  accepts v fits := by
    cases fits with
    | flag b => exact ⟨b, flag_reads b⟩
  refuses s bad e blank problem := by
    show readFlag _ = _
    cases problem with
    | @unsound _ v t rest scalar unsound w parted =>
        have other : ∀ b, v ≠ .flag b := by
          rintro b rfl
          exact unsound trivial
        rw [readFlag_scalar blank w scalar other, (otherType_scalar w scalar parted).2 unsound]
    | @wrongValue _ v t rest scalar sound wrong w parted =>
        have other : ∀ b, v ≠ .flag b := by
          rintro b rfl
          exact wrong (.flag b)
        rw [readFlag_scalar blank w scalar other, (otherType_scalar w scalar parted).1 sound]
    | bracket _ bracket =>
        obtain rfl | rfl := bracket
        · rw [readFlag_of_ne blank (by decide) (by decide) (by decide)]
          rfl
        · rw [readFlag_of_ne blank (by decide) (by decide) (by decide)]
          rfl

theorem readNatural_of_not_startsNumber {bits : Nat} (blank : Blank s) (solid : isSpace c = false)
    (other : startsNumber c = false) :
    readNatural bits (s ++ c :: cs) = .error (otherType (c :: cs)) := by
  rw [readNatural, skipSpace_append blank, skipSpace_cons solid]
  simp [other]

theorem readNatural_number {bits : Nat} {n : NumberText} (blank : Blank s) (spelled : n.Spelled t)
    (ends : Ends rest) :
    readNatural bits (s ++ (t ++ rest)) =
      if n.isTooLarge then .error malformed
      else
        match n.natural?.filter (· < 1 <<< bits) with
        | some value => .ok (value, rest)
        | none => .error mismatch := by
  have read := finiteNumber_append spelled ends
  obtain ⟨c, more, rfl, starts⟩ := spelled.exists_cons
  rw [List.cons_append] at read ⊢
  rw [readNatural, skipSpace_append blank, skipSpace_cons (startsNumber_solid starts)]
  simp only [starts, if_true, read]
  cases n.isTooLarge <;> rfl

theorem natural_reads {bits k : Nat} {n : NumberText} (sound : n.isTooLarge = false)
    (value : n.natural? = some k) (small : k < 2 ^ bits) : Reads (natural bits) (.number n) k := by
  intro s t rest blank w ends
  cases w with
  | number spelled =>
      show readNatural bits _ = _
      have inRange : n.natural?.filter (· < 1 <<< bits) = some k := by
        simp [value, Nat.shiftLeft_eq, small]
      rw [readNatural_number blank spelled ends, inRange, sound]
      rfl

theorem readNatural_scalar {bits : Nat} (blank : Blank s) (w : Written (.value v) t)
    (scalar : v.IsScalar) (other : ∀ n, v ≠ .number n) :
    readNatural bits (s ++ (t ++ rest)) = .error (otherType (t ++ rest)) := by
  cases w with
  | null => exact readNatural_of_not_startsNumber blank (by decide) (by decide)
  | yes => exact readNatural_of_not_startsNumber blank (by decide) (by decide)
  | no => exact readNatural_of_not_startsNumber blank (by decide) (by decide)
  | string n => exact readNatural_of_not_startsNumber blank (by decide) (by decide)
  | number spelled => exact absurd rfl (other _)
  | list => exact scalar.elim
  | record => exact scalar.elim

theorem natural_follows (bits : Nat) : Follows (natural bits) (.natural bits) where
  accepts v fits := by
    cases fits with
    | natural sound value small => exact ⟨_, natural_reads sound value small⟩
  refuses s bad e blank problem := by
    show readNatural bits _ = _
    cases problem with
    | @unsound _ v t rest scalar unsound w parted =>
        by_cases number : ∃ n, v = .number n
        · obtain ⟨n, rfl⟩ := number
          cases w with
          | number spelled =>
              rw [readNatural_number blank spelled parted, if_pos (by simpa [Json.Sound] using unsound)]
        · rw [readNatural_scalar blank w scalar fun n same => number ⟨n, same⟩,
            (otherType_scalar w scalar parted).2 unsound]
    | @wrongValue _ v t rest scalar sound wrong w parted =>
        by_cases number : ∃ n, v = .number n
        · obtain ⟨n, rfl⟩ := number
          have none : n.natural?.filter (· < 1 <<< bits) = none := by
            rw [Option.filter_eq_none_iff]
            intro k value small
            refine wrong (.natural sound value ?_)
            simpa [Nat.shiftLeft_eq] using small
          cases w with
          | number spelled =>
              rw [readNatural_number blank spelled parted, none, if_neg (by simpa [Json.Sound] using sound)]
        · rw [readNatural_scalar blank w scalar fun n same => number ⟨n, same⟩,
            (otherType_scalar w scalar parted).1 sound]
    | bracket _ bracket =>
        obtain rfl | rfl := bracket
        · rw [readNatural_of_not_startsNumber blank (by decide) (by decide)]
          rfl
        · rw [readNatural_of_not_startsNumber blank (by decide) (by decide)]
          rfl

/-! ## Members of a record -/

section Members
variable {fields : List (Field σ)} {seen : List String} {first : Bool} {x : σ} {n : Name}
  {ms : List Member} {f : Field σ} {s₁ s₂ : List Char}

/-- A field is the one that its name stands for. -/
def Found (fields : List (Field σ)) (f : Field σ) : Prop :=
  fields.find? (fun g => g.name.toList = f.name.toList) = some f

theorem skip_reads (v : Json) : Reads skip v () := by
  intro s t rest blank w parted
  show (skipValue [] _).map _ = _
  rw [skipValue_append blank, passedOver w [] rest parted, skipClosed]
  rfl

theorem memberName_inQuotes (n : Name) (rest : List Char) :
    memberName true (n.inQuotes rest) =
      match n.decode? with
      | some cs => .ok (cs, rest)
      | none => .error malformed := by
  rw [memberName, Name.inQuotes, skipSpace_cons (by decide)]
  exact (if_pos rfl).trans (quoted_strict n rest)

theorem member_append (blank : Blank s) (cs : List Char) :
    member fields seen (s ++ cs) = member fields seen cs := by
  rw [member, memberName, skipSpace_append blank, ← memberName, ← member]

theorem member_illegible (illegible : n.decode? = none) (rest : List Char) :
    member fields seen (n.inQuotes rest) = .error malformed := by
  rw [member, memberName_inQuotes, illegible]

theorem member_unknown (named : n.decode? = some cs)
    (unknown : fields.find? (fun f => f.name.toList = cs) = none) (blank₁ : Blank s₁)
    (blank₂ : Blank s₂) (w : Written (.value v) t) (parted : v.Parted rest) :
    member fields seen (n.inQuotes (s₁ ++ ':' :: (s₂ ++ (t ++ rest)))) = .ok (id, seen, rest) := by
  rw [member, memberName_inQuotes, named]
  simp only [unknown, colon_append blank₁, skip_reads v s₂ t rest blank₂ w parted]
  rfl

theorem member_repeated (named : n.decode? = some f.name.toList) (found : Found fields f)
    (again : f.name ∈ seen) (rest : List Char) :
    member fields seen (n.inQuotes rest) = .error mismatch := by
  rw [Found] at found
  rw [member, memberName_inQuotes, named]
  simp only [found, if_pos again]

theorem member_known (named : n.decode? = some f.name.toList) (found : Found fields f)
    (new : f.name ∉ seen) (blank : Blank s) (cs : List Char) :
    member fields seen (n.inQuotes (s ++ ':' :: cs)) =
      (f.change.read cs).map fun (g, rest) => (g, f.name :: seen, rest) := by
  rw [Found] at found
  rw [member, memberName_inQuotes, named]
  simp only [found, if_neg new, colon_append blank]

theorem members_eq (fields : List (Field σ)) (x : σ) (seen : List String) (first : Bool)
    (cs : List Char) :
    members fields x seen first cs =
      match skipSpace cs with
      | [] => .error truncated
      | c :: rest =>
        if c = '}' then .ok (x, rest)
        else
          match separator first (c :: rest) with
          | .error e => .error e
          | .ok item =>
            match member fields seen item with
            | .error e => .error e
            | .ok (g, seen, rest) => members fields (g x) seen false rest := by
  rw [members]
  split
  · next empty => rw [empty]
  · next c rest solid =>
      rw [solid]
      simp only
      congr 1
      split
      · next found => rw [found]
      · next found =>
          rw [found]
          simp only
          split <;> rename_i found <;> rw [found]

theorem members_append (blank : Blank s) (cs : List Char) :
    members fields x seen first (s ++ cs) = members fields x seen first cs := by
  rw [members_eq, skipSpace_append blank, ← members_eq]

theorem members_close (rest : List Char) :
    members fields x seen first ('\x7d' :: rest) = .ok (x, rest) := by
  rw [members_eq, skipSpace_cons (by decide)]
  exact if_pos rfl

theorem members_next (blank : Blank s) (blank' : Blank s') (n : Name) (rest : List Char) :
    members fields x seen first (next first s s' (n.inQuotes rest)) =
      match member fields seen (n.inQuotes rest) with
      | .error e => .error e
      | .ok (g, seen, rest) => members fields (g x) seen false rest := by
  rw [members_eq]
  cases first with
  | true =>
      show (match skipSpace (s ++ (s' ++ n.inQuotes rest)) with | [] => _ | _ :: _ => _) = _
      rw [skipSpace_append blank, skipSpace_append blank', Name.inQuotes, skipSpace_cons (by decide)]
      exact if_neg (by decide)
  | false =>
      show (match skipSpace (s ++ ',' :: (s' ++ n.inQuotes rest)) with | [] => _ | _ :: _ => _) = _
      rw [skipSpace_append blank, skipSpace_cons (by decide)]
      refine (if_neg (by decide)).trans ?_
      have behind : separator false (',' :: (s' ++ n.inQuotes rest)) = .ok (s' ++ n.inQuotes rest) := rfl
      rw [behind]
      simp only
      rw [member_append blank']

theorem members_next_append (blank : Blank s) (blank' : Blank s') (n : Name) (cs rest : List Char) :
    members fields x seen first (next first s s' (n.inQuotes cs) ++ rest) =
      match member fields seen (n.inQuotes (cs ++ rest)) with
      | .error e => .error e
      | .ok (g, seen, rest) => members fields (g x) seen false rest := by
  rw [next_append, Name.inQuotes_append, members_next blank blank']

/-- Members that can be read, with some names seen before them: a known name is there once, and
its field takes its value.  The invariant is between the names that are seen and the record. -/
structure Readable (fields : List (Field σ)) (Q : List String → σ → Prop) (seen : List String)
    (ms : List Member) : Prop where
  legible : Legible ms
  once : ∀ f, Found fields f → (valuesOf f.name ms).length ≤ 1
  new : ∀ f, Found fields f → f.name ∈ seen → valuesOf f.name ms = []
  each : ∀ f, Found fields f → ∀ v ∈ valuesOf f.name ms, ∃ g, Reads f.change v g ∧
    ∀ seen x, f.name ∉ seen → Q seen x → Q (f.name :: seen) (g x)

section Readable
variable {Q : List String → σ → Prop} {name : String}

theorem valuesOf_of_ne (named : n.decode? = some cs) (other : name.toList ≠ cs) :
    valuesOf name ((n, v) :: ms) = valuesOf name ms := by
  rw [valuesOf_cons, named]
  simpa using other.symm

theorem valuesOf_of_eq (named : n.decode? = some name.toList) :
    valuesOf name ((n, v) :: ms) = v :: valuesOf name ms := by
  rw [valuesOf_cons, named]
  simp

theorem valuesOf_of_unknown (named : n.decode? = some cs)
    (unknown : fields.find? (fun f => f.name.toList = cs) = none) (found : Found fields f) :
    valuesOf f.name ((n, v) :: ms) = valuesOf f.name ms :=
  valuesOf_of_ne named (by simpa using List.find?_eq_none.mp unknown f (List.mem_of_find?_eq_some found))

theorem Readable.behind_unknown (readable : Readable fields Q seen ((n, v) :: ms))
    (named : n.decode? = some cs) (unknown : fields.find? (fun f => f.name.toList = cs) = none) :
    Readable fields Q seen ms where
  legible m mem := readable.legible m (List.mem_cons_of_mem _ mem)
  once f found := valuesOf_of_unknown named unknown found ▸ readable.once f found
  new f found := valuesOf_of_unknown named unknown found ▸ readable.new f found
  each f found := valuesOf_of_unknown named unknown found ▸ readable.each f found

theorem Readable.not_mem_seen (readable : Readable fields Q seen ((n, v) :: ms))
    (named : n.decode? = some f.name.toList) (found : Found fields f) : f.name ∉ seen := by
  intro again
  have none := readable.new f found again
  rw [valuesOf_of_eq named] at none
  cases none

theorem Readable.behind_known (readable : Readable fields Q seen ((n, v) :: ms))
    (named : n.decode? = some f.name.toList) (found : Found fields f) :
    Readable fields Q (f.name :: seen) ms := by
  have last : valuesOf f.name ms = [] := by
    have := readable.once f found
    rw [valuesOf_of_eq named, List.length_cons] at this
    exact List.eq_nil_of_length_eq_zero (by omega)
  have other : ∀ name, name ≠ f.name → valuesOf name ((n, v) :: ms) = valuesOf name ms :=
    fun name differs => valuesOf_of_ne named fun same => differs (String.toList_injective same)
  refine ⟨fun m mem => readable.legible m (List.mem_cons_of_mem _ mem), ?once, ?new, ?each⟩
  case once =>
    intro f' found'
    by_cases same : f'.name = f.name
    · simp [same, last]
    · exact other _ same ▸ readable.once f' found'
  case new =>
    intro f' found'
    by_cases same : f'.name = f.name
    · simp [same, last]
    · simpa [same, other _ same] using readable.new f' found'
  case each =>
    intro f' found'
    by_cases same : f'.name = f.name
    · simp [same, last]
    · exact other _ same ▸ readable.each f' found'

/-- The members that can be read are read, however they are written.  The names that are seen are
those of known members. -/
theorem members_reads (readable : Readable fields Q seen ms) (now : Q seen x) :
    ∃ y seen', (∀ first t rest, Written (.members first ms) t → Ends rest →
        members fields x seen first (t ++ rest) =
          members fields y seen' (first && ms.isEmpty) rest) ∧ Q seen' y ∧
      ∀ name, name ∈ seen' ↔
        name ∈ seen ∨ (∃ f, Found fields f ∧ f.name = name) ∧ valuesOf name ms ≠ [] := by
  induction ms generalizing seen x with
  | nil =>
      refine ⟨x, seen, ?_, now, by simp [valuesOf]⟩
      intro first t rest w _
      cases w with
      | noMembers blank => rw [members_append blank, List.isEmpty_nil, Bool.and_true]
  | cons m ms ih =>
      obtain ⟨n, v⟩ := m
      obtain ⟨cs, named⟩ := Option.ne_none_iff_exists'.mp (readable.legible _ List.mem_cons_self)
      cases found : fields.find? (fun f => f.name.toList = cs) with
      | none =>
          obtain ⟨y, seen', read, holds, names⟩ := ih (readable.behind_unknown named found) now
          refine ⟨y, seen', ?_, holds, fun name => (names name).trans ?_⟩
          · intro first t rest w ends
            cases w with
            | member blank blank' blank₁ blank₂ value later =>
                have parted := Json.Parted.of_ends (later.ends_members ends) v
                rw [members_next_append blank blank']
                simp only [List.append_assoc, List.cons_append]
                rw [member_unknown named found blank₁ blank₂ value parted]
                simpa using read false _ rest later ends
          · refine or_congr_right (and_congr_right ?_)
            rintro ⟨f, hf, rfl⟩
            rw [valuesOf_of_unknown named found hf]
      | some f =>
          obtain rfl : f.name.toList = cs := by simpa using List.find?_some found
          have mine : valuesOf f.name ((n, v) :: ms) = v :: valuesOf f.name ms := valuesOf_of_eq named
          have new := readable.not_mem_seen named found
          obtain ⟨g, reads, step⟩ := readable.each f found v (mine ▸ List.mem_cons_self)
          obtain ⟨y, seen', read, holds, names⟩ :=
            ih (readable.behind_known named found) (step seen x new now)
          refine ⟨y, seen', ?_, holds, fun name => (names name).trans ?_⟩
          · intro first t rest w ends
            cases w with
            | @member _ _ _ _ _ _ _ s₂ t _ blank blank' blank₁ blank₂ value later =>
                have parted := Json.Parted.of_ends (later.ends_members ends) v
                rw [members_next_append blank blank']
                simp only [List.append_assoc, List.cons_append]
                rw [member_known named found new blank₁, reads s₂ t _ blank₂ value parted]
                show members fields (g x) (f.name :: seen) false _ = _
                simpa using read false _ rest later ends
          · by_cases same : name = f.name
            · subst same
              simpa [mine] using .inr ⟨f, found, rfl⟩
            · have other : name.toList ≠ f.name.toList := fun h => same (String.toList_injective h)
              simp [same, valuesOf_of_ne named other]

end Readable

end Members

/-! ## Elements of a list -/

section Elements
variable {fields : List (Field σ)} {first : Bool} {x : σ} {vs : List Json} {f : Field σ}

theorem nextElement_append (blank : Blank s) (cs : List Char) :
    nextElement first (s ++ cs) = nextElement first cs := by
  rw [nextElement, skipSpace_append blank, ← nextElement]

theorem elements_append (blank : Blank s) (cs : List Char) :
    elements x first (s ++ cs) fields = elements x first cs fields := by
  cases fields with
  | nil => rw [elements, listEnd, skipSpace_append blank, ← listEnd, ← elements]
  | cons f fields => rw [elements, nextElement_append blank, ← elements]

theorem elements_close (rest : List Char) : elements x first (']' :: rest) fields = .ok (x, rest) := by
  cases fields with
  | nil =>
      rw [elements, listEnd, skipSpace_cons (by decide)]
      rfl
  | cons f fields =>
      rw [elements, nextElement, skipSpace_cons (by decide)]
      rfl

theorem nextElement_next (blank : Blank s) (blank' : Blank s') (solid : isSpace c = false)
    (other : c ≠ ']') (cs : List Char) :
    nextElement first (next first s s' (c :: cs)) = .ok (true, c :: cs) := by
  cases first with
  | true =>
      show nextElement true (s ++ (s' ++ c :: cs)) = _
      rw [nextElement, skipSpace_append blank, skipSpace_append blank', skipSpace_cons solid]
      exact (if_neg other).trans (if_pos rfl)
  | false =>
      show nextElement false (s ++ ',' :: (s' ++ c :: cs)) = _
      rw [nextElement, skipSpace_append blank, skipSpace_cons (by decide)]
      refine (if_neg (by decide)).trans ((if_neg (by decide)).trans ((if_pos rfl).trans ?_))
      rw [skipSpace_append blank', skipSpace_cons solid]
      exact if_neg other

theorem elements_next (blank : Blank s) (blank' : Blank s') (solid : isSpace c = false)
    (other : c ≠ ']') (cs : List Char) :
    elements x first (next first s s' (c :: cs)) (f :: fields) =
      match f.change.read (c :: cs) with
      | .error e => .error e
      | .ok (g, rest) => elements (g x) false rest fields := by
  cases read : f.change.read (c :: cs) <;>
    simp only [elements, nextElement_next blank blank' solid other, read]

theorem elements_surplus (blank : Blank s) (blank' : Blank s') (solid : isSpace c = false)
    (other : c ≠ ']') (cs : List Char) :
    elements x first (next first s s' (c :: cs)) [] = .error malformed := by
  have read : ∀ {d : Char} (cs : List Char), isSpace d = false → d ≠ ']' →
      elements x first (d :: cs) [] = .error malformed := by
    intro d cs solid other
    rw [elements, listEnd, skipSpace_cons solid]
    simp only [if_neg other]
    rfl
  rw [next, elements_append blank]
  cases first with
  | true => exact (elements_append blank' _).trans (read cs solid other)
  | false => exact read _ (by decide) (by decide)

/-- The elements that are fine are read, each for the field in its place, however they are
written. -/
theorem elements_reads (enough : vs.length ≤ fields.length)
    (each : ∀ (i : Nat) f v, fields[i]? = some f → vs[i]? = some v → ∃ g, Reads f.change v g) :
    ∃ y, ∀ first t rest, Written (.items first vs) t → (vs ≠ [] → Ends rest) →
      elements x first (t ++ rest) fields =
        elements y (first && vs.isEmpty) rest (fields.drop vs.length) := by
  induction vs generalizing fields x with
  | nil =>
      refine ⟨x, fun first t rest w _ => ?_⟩
      cases w with
      | noItems blank =>
          rw [elements_append blank, List.isEmpty_nil, Bool.and_true]
          rfl
  | cons v vs ih =>
      cases fields with
      | nil => cases enough
      | cons f fields =>
          obtain ⟨g, reads⟩ := each 0 f v rfl rfl
          obtain ⟨y, read⟩ := ih (x := g x) (Nat.le_of_succ_le_succ enough)
            fun i f v => each (i + 1) f v
          refine ⟨y, fun first t rest w ends => ?_⟩
          have ends : Ends rest := ends (by simp)
          cases w with
          | @item _ _ _ s s' t more blank blank' value later =>
              have here := reads [] t (more ++ rest) nofun value (.of_ends (later.ends_items ends) v)
              obtain ⟨c, t, rfl, solid, other, -⟩ := value.exists_cons
              rw [next_append, List.append_assoc, List.cons_append,
                elements_next blank blank' solid other]
              rw [List.nil_append, List.cons_append] at here
              rw [here]
              simpa using read false more rest later fun _ => ends

end Elements

/-! ## Records -/

theorem FirstProblem.exists_cons {shape : Shape} {bad : List Char} (problem : FirstProblem shape bad e) :
    ∃ c more, bad = c :: more ∧ isSpace c = false ∧ c ≠ ']' := by
  cases problem with
  | unsound _ _ w =>
      obtain ⟨c, more, rfl, solid, other, -⟩ := w.exists_cons
      exact ⟨c, _, rfl, solid, other⟩
  | wrongValue _ _ _ w =>
      obtain ⟨c, more, rfl, solid, other, -⟩ := w.exists_cons
      exact ⟨c, _, rfl, solid, other⟩
  | bracket _ bracket =>
      obtain rfl | rfl := bracket
      · exact ⟨_, _, rfl, by decide, by decide⟩
      · exact ⟨_, _, rfl, by decide, by decide⟩
  | illegible => exact ⟨_, _, rfl, by decide, by decide⟩
  | repeated => exact ⟨_, _, rfl, by decide, by decide⟩
  | member => exact ⟨_, _, rfl, by decide, by decide⟩
  | element => exact ⟨_, _, rfl, by decide, by decide⟩
  | surplus => exact ⟨_, _, rfl, by decide, by decide⟩

theorem ends_next_inQuotes {first : Bool} (blank : Blank s) (blank' : Blank s') (n : Name)
    (rest : List Char) : Ends (next first s s' (n.inQuotes rest)) := by
  cases first with
  | true =>
      show Ends (s ++ (s' ++ n.inQuotes rest))
      exact ends_append blank (ends_append blank' (ends_cons (by decide) _))
  | false => exact ends_append blank (ends_cons (by decide) _)

theorem ends_next_of_ne_nil {vs : List Json} (blank : Blank s) (some : vs ≠ []) :
    Ends (next vs.isEmpty s s' rest) := by
  rw [List.isEmpty_eq_false_iff.mpr some]
  exact ends_append blank (ends_cons (by decide) _)

section Record
variable {fields : List (Field σ)} {named : List (String × Shape)} {start : σ} {name : String}
  {shape : Shape}

/-- Readers follow shapes field by field. -/
abbrev FollowEach (fields : List (Field σ)) (named : List (String × Shape)) : Prop :=
  List.Forall₂ (fun f p => f.name = p.1 ∧ Follows f.change p.2) fields named

theorem FollowEach.field {r : ValueReader α} (follows : Follows r shape) (f : α → σ → σ)
    (later : FollowEach fields named) :
    FollowEach (⟨name, r.map f⟩ :: fields) ((name, shape) :: named) :=
  .cons ⟨rfl, follows.map f⟩ later

theorem found_cons {f g : Field σ} :
    Found (f :: fields) g ↔ f.name = g.name ∧ f = g ∨ f.name ≠ g.name ∧ Found fields g := by
  rw [Found, List.find?_cons, Found]
  by_cases same : f.name = g.name
  · simp [same]
  · have differs : ¬ f.name.toList = g.name.toList := fun h => same (String.toList_injective h)
    simp [same, differs]

theorem FollowEach.exists_found (follow : FollowEach fields named)
    (known : named.lookup name = some shape) :
    ∃ f, Found fields f ∧ f.name = name ∧ Follows f.change shape := by
  induction follow with
  | nil => cases known
  | @cons f p fields named here _ ih =>
      obtain ⟨same, follows⟩ := here
      rw [List.lookup_cons] at known
      by_cases mine : name = p.1
      · have known : p.2 = shape := by simpa [mine] using known
        exact ⟨f, found_cons.mpr (.inl ⟨rfl, rfl⟩), same.trans mine.symm, known ▸ follows⟩
      · rw [beq_eq_false_iff_ne.mpr mine] at known
        obtain ⟨g, found, called, follows⟩ := ih known
        have other : f.name ≠ g.name := fun h => mine (called.symm.trans (h.symm.trans same))
        exact ⟨g, found_cons.mpr (.inr ⟨other, found⟩), called, follows⟩

theorem FollowEach.lookup_of_found (follow : FollowEach fields named) {f : Field σ}
    (found : Found fields f) : ∃ shape, named.lookup f.name = some shape ∧ Follows f.change shape := by
  induction follow with
  | nil => cases found
  | @cons g p fields named here _ ih =>
      obtain ⟨same, follows⟩ := here
      rw [List.lookup_cons]
      obtain ⟨-, rfl⟩ | ⟨other, found⟩ := found_cons.mp found
      · exact ⟨p.2, by simp [same], follows⟩
      · obtain ⟨shape, known, follows⟩ := ih found
        rw [← same, beq_eq_false_iff_ne.mpr other.symm]
        exact ⟨shape, known, follows⟩

theorem readRecord_append (blank : Blank s) (cs : List Char) :
    readRecord start fields (s ++ cs) = readRecord start fields cs := by
  rw [readRecord, skipSpace_append blank, ← readRecord]

theorem readRecord_record (cs : List Char) :
    readRecord start fields ('\x7b' :: cs) = members fields start [] true cs := by
  rw [readRecord, skipSpace_cons (by decide)]
  rfl

theorem readRecord_list (cs : List Char) :
    readRecord start fields ('[' :: cs) = elements start true cs fields := by
  rw [readRecord, skipSpace_cons (by decide)]
  rfl

theorem readRecord_scalar (w : Written (.value v) t) (scalar : v.IsScalar) :
    readRecord start fields (t ++ rest) = .error (otherType (t ++ rest)) := by
  obtain ⟨c, more, rfl, solid, -, -, opens⟩ := w.exists_cons
  rw [List.cons_append, readRecord, skipSpace_cons solid]
  simp only [opens scalar]

/-- A record is read where its members are. -/
theorem reads_of_members {x : σ} {seen : List String} {first : Bool} {ms : List Member}
    (read : ∀ t rest, Written (.members true ms) t → Ends rest →
      members fields start [] true (t ++ rest) = members fields x seen first rest) :
    Reads (record start fields) (.record ms) x := by
  intro s t rest blank w _
  show readRecord start fields _ = _
  cases w with
  | record written =>
      rw [readRecord_append blank, List.cons_append, List.append_assoc, readRecord_record]
      exact (read _ ('\x7d' :: rest) written (ends_cons (by decide) rest)).trans (members_close rest)

/-- A record of readable members, with what the invariant says in the end. -/
theorem record_reads {Q : List String → σ → Prop} {ms : List Member}
    (readable : Readable fields Q [] ms) (now : Q [] start) :
    ∃ x seen, Reads (record start fields) (.record ms) x ∧ Q seen x ∧
      ∀ f, Found fields f → (f.name ∈ seen ↔ valuesOf f.name ms ≠ []) := by
  obtain ⟨x, seen, read, holds, names⟩ := members_reads readable now
  refine ⟨x, seen, reads_of_members (read true), holds, fun f found => ?_⟩
  simpa using (names f.name).trans (by simpa using fun _ => ⟨f, found, rfl⟩)

/-- The members that fit are read, and their names are seen. -/
theorem FollowEach.members_reads (follow : FollowEach fields named) {ms : List Member}
    (fine : Fits (.record named) (.record ms)) :
    ∃ x seen, (∀ t rest, Written (.members true ms) t → Ends rest →
        members fields start [] true (t ++ rest) = members fields x seen ms.isEmpty rest) ∧
      ∀ name, name ∈ seen ↔ (∃ f, Found fields f ∧ f.name = name) ∧ valuesOf name ms ≠ [] := by
  obtain ⟨legible, once, values⟩ := fits_record_iff.mp fine
  have readable : Readable fields (fun _ _ => True) [] ms := by
    refine ⟨legible, fun f found => ?_, nofun, fun f found v mem => ?_⟩
    · obtain ⟨shape, known, -⟩ := follow.lookup_of_found found
      exact once _ shape known
    · obtain ⟨shape, known, follows⟩ := follow.lookup_of_found found
      obtain ⟨g, reads⟩ := follows.accepts v (values _ shape v known mem)
      exact ⟨g, reads, fun _ _ _ _ => trivial⟩
  obtain ⟨x, seen, read, -, names⟩ := Document.members_reads readable trivial
  exact ⟨x, seen, read true, by simpa using names⟩

theorem FollowEach.getElem? (follow : FollowEach fields named) {i : Nat} {f : Field σ}
    (place : fields[i]? = some f) : ∃ p, named[i]? = some p ∧ Follows f.change p.2 := by
  induction follow generalizing i with
  | nil => cases place
  | @cons g p fields named here _ ih =>
      cases i with
      | zero =>
          obtain rfl : g = f := Option.some.inj place
          exact ⟨p, rfl, here.2⟩
      | succ i => exact ih place

theorem FollowEach.elements_reads (follow : FollowEach fields named) {vs : List Json}
    (fine : Fits (.record named) (.list vs)) :
    ∃ x, ∀ t rest, Written (.items true vs) t → (vs ≠ [] → Ends rest) →
      elements start true (t ++ rest) fields =
        elements x vs.isEmpty rest (fields.drop vs.length) := by
  obtain ⟨enough, values⟩ := fits_list_iff.mp fine
  have each : ∀ (i : Nat) f v, fields[i]? = some f → vs[i]? = some v → ∃ g, Reads f.change v g := by
    intro i f v place found
    obtain ⟨p, place', follows⟩ := follow.getElem? place
    exact follows.accepts v (values i p v place' found)
  obtain ⟨x, read⟩ := Document.elements_reads (follow.length_eq ▸ enough) each
  exact ⟨x, read true⟩

theorem record_follows (follow : FollowEach fields named) (start : σ) :
    Follows (record start fields) (.record named) where
  accepts v fits := by
    cases v with
    | record ms =>
        obtain ⟨x, seen, read, -⟩ := follow.members_reads fits
        exact ⟨x, reads_of_members read⟩
    | list vs =>
        obtain ⟨x, read⟩ := follow.elements_reads fits
        refine ⟨x, fun s t rest blank w _ => ?_⟩
        show readRecord start fields _ = _
        cases w with
        | list written =>
            rw [readRecord_append blank, List.cons_append, List.append_assoc, readRecord_list]
            exact (read _ (']' :: rest) written fun _ => ends_cons (by decide) rest).trans
              (elements_close rest)
    | null | flag | number | string => cases fits
  refuses s bad e blank problem := by
    show readRecord start fields _ = _
    rw [readRecord_append blank]
    cases problem with
    | unsound scalar unsound w parted =>
        rw [readRecord_scalar w scalar, (otherType_scalar w scalar parted).2 unsound]
    | wrongValue scalar sound wrong w parted =>
        rw [readRecord_scalar w scalar, (otherType_scalar w scalar parted).1 sound]
    | bracket scalar => exact scalar.elim
    | illegible before fine blank blank' illegible =>
        obtain ⟨x, seen, read, -⟩ := follow.members_reads fine
        rw [readRecord_record, read _ _ before (ends_next_inQuotes blank blank' _ _),
          members_next blank blank', member_illegible illegible]
    | @repeated _ ms _ _ _ _ n name shape before fine blank blank' called known again =>
        obtain ⟨x, seen, read, names⟩ := follow.members_reads fine
        obtain ⟨f, found, rfl, -⟩ := follow.exists_found known
        have again : f.name ∈ seen := (names f.name).mpr ⟨⟨f, found, rfl⟩, again⟩
        rw [readRecord_record, read _ _ before (ends_next_inQuotes blank blank' _ _),
          members_next blank blank', member_repeated called found again]
    | @member _ ms _ _ _ _ _ _ n name shape _ before fine blank blank' blank₁ blank₂ called known new
        problem =>
        obtain ⟨x, seen, read, names⟩ := follow.members_reads fine
        obtain ⟨f, found, rfl, follows⟩ := follow.exists_found known
        have new : f.name ∉ seen := fun again => ((names f.name).mp again).2 new
        rw [readRecord_record, read _ _ before (ends_next_inQuotes blank blank' _ _),
          members_next blank blank', member_known called found new blank₁,
          follows.refuses _ _ _ blank₂ problem]
        rfl
    | @element _ vs _ _ _ _ p _ before fine blank blank' place problem =>
        obtain ⟨x, read⟩ := follow.elements_reads fine
        have there : vs.length < fields.length :=
          follow.length_eq ▸ (List.getElem?_eq_some_iff.mp place).1
        obtain ⟨p', place', follows⟩ := follow.getElem? (List.getElem?_eq_getElem there)
        obtain rfl := Option.some.inj (place.symm.trans place')
        have refused := follows.refuses [] _ _ nofun problem
        obtain ⟨c, more, rfl, solid, other⟩ := problem.exists_cons
        rw [readRecord_list, read _ _ before (ends_next_of_ne_nil blank),
          List.drop_eq_getElem_cons there, elements_next blank blank' solid other]
        rw [List.nil_append] at refused
        rw [refused]
    | @surplus _ v vs _ _ _ _ _ before fine blank blank' all written =>
        obtain ⟨x, read⟩ := follow.elements_reads fine
        have none : fields.drop vs.length = [] :=
          List.drop_eq_nil_of_le (Nat.le_of_eq (follow.length_eq.trans all.symm))
        obtain ⟨c, more, rfl, solid, other, -⟩ := written.exists_cons
        rw [readRecord_list, read _ _ before (ends_next_of_ne_nil blank), none, List.cons_append,
          elements_surplus blank blank' solid other]

end Record

end HartMonitor.Document
