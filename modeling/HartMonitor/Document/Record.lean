/-
# `HartMonitor.Document.Record` — records out of a JSON text

A record starts from a default, which each of its fields changes.  It is written

    { "name": value, … }     in any order, unknown names passed over, no known name twice
    [ value, … ]             in the order of the fields, missing ones at the end
-/
import HartMonitor.Document.Skip

namespace HartMonitor.Document

open DocumentError

/-- A field of a record: its name, and the reader of its value, which gives the change that the
value makes. -/
structure Field (σ : Type) where
  name : String
  change : ValueReader (σ → σ)

/-- A reader followed by a function on its value. -/
def ValueReader.map {α β : Type} (f : α → β) (r : ValueReader α) : ValueReader β where
  read cs := (r.read cs).map fun (a, rest) => (f a, rest)
  shorter {cs b rest} h := by
    simp only [Except.map] at h
    split at h
    · cases h
    · next hx =>
      cases h
      exact r.shorter hx

/-- The change that one member makes to a record, with the names that are known to have occurred
after it, and what follows it.  A name that occurs again is refused before its value. -/
def member {σ : Type} (fields : List (Field σ)) (seen : List String) (cs : List Char) :
    Except DocumentError ((σ → σ) × List String × List Char) :=
  match memberName true cs with
  | .error e => .error e
  | .ok (name, rest) =>
    match fields.find? (fun f => f.name.toList = name) with
    | none =>
      match colon rest with
      | .error e => .error e
      | .ok rest => (skip.read rest).map fun (_, rest) => (id, seen, rest)
    | some f =>
      if f.name ∈ seen then .error mismatch
      else
        match colon rest with
        | .error e => .error e
        | .ok rest => (f.change.read rest).map fun (g, rest) => (g, f.name :: seen, rest)

theorem length_member_lt {σ : Type} {fields : List (Field σ)} {seen seen' : List String}
    {cs rest : List Char} {g : σ → σ} (h : member fields seen cs = .ok (g, seen', rest)) :
    rest.length < cs.length := by
  unfold member at h
  split at h
  · cases h
  · next hm =>
    have h₁ := length_memberName_lt hm
    split at h
    · split at h
      · cases h
      · next hc =>
        have h₂ := length_colon_lt hc
        simp only [Except.map] at h
        split at h
        · cases h
        · next hv =>
          cases h
          have := skip.shorter hv
          omega
    · next f _ =>
      split at h
      · cases h
      · split at h
        · cases h
        · next hc =>
          have h₂ := length_colon_lt hc
          simp only [Except.map] at h
          split at h
          · cases h
          · next hv =>
            cases h
            have := f.change.shorter hv
            omega

/-- A comma between two items, none before the first; what follows it. -/
def separator (first : Bool) (cs : List Char) : Except DocumentError (List Char) :=
  if first then .ok cs
  else
    match cs with
    | ',' :: rest => .ok rest
    | _ => .error malformed

theorem length_separator_le {first : Bool} {cs rest : List Char}
    (h : separator first cs = .ok rest) : rest.length ≤ cs.length := by
  unfold separator at h
  split at h
  · cases h
    exact Nat.le_refl _
  · split at h
    · cases h
      simp
    · cases h

set_option linter.unusedVariables false in
/-- A record after the members at the head of a text, up to its closing brace. -/
def members {σ : Type} (fields : List (Field σ)) (value : σ) (seen : List String) (first : Bool)
    (cs : List Char) : Except DocumentError (σ × List Char) :=
  match hs : skipSpace cs with
  | [] => .error truncated
  | c :: rest =>
    if c = '}' then .ok (value, rest)
    else
      match hp : separator first (c :: rest) with
      | .error e => .error e
      | .ok item =>
        match hm : member fields seen item with
        | .error e => .error e
        | .ok (g, seen, rest) => members fields (g value) seen false rest
termination_by cs.length
decreasing_by
  have h₁ := length_skipSpace_le cs
  have h₂ := length_separator_le hp
  have h₃ := length_member_lt hm
  rw [hs] at h₁
  omega

theorem length_members_lt {σ : Type} {fields : List (Field σ)} {value result : σ}
    {seen : List String} {first : Bool} {cs rest : List Char}
    (h : members fields value seen first cs = .ok (result, rest)) : rest.length < cs.length := by
  fun_induction members fields value seen first cs with
  | case1 => cases h
  | case2 value seen first cs more hs =>
    cases h
    have := length_skipSpace_le cs
    rw [hs, List.length_cons] at this
    omega
  | case3 => cases h
  | case4 => cases h
  | case5 value seen first cs c more hs _ item hp g seen' rest' hm ih =>
    have h₁ := length_skipSpace_le cs
    have h₂ := length_separator_le hp
    have h₃ := length_member_lt hm
    have := ih h
    rw [hs] at h₁
    omega

/-- Whether another value stands where a list of field values goes on, and the text from there; at the
closing bracket, none does, and the text is what follows it. -/
def nextElement (first : Bool) (cs : List Char) :
    Except DocumentError (Bool × List Char) :=
  match skipSpace cs with
  | [] => .error truncated
  | c :: rest =>
    if c = ']' then .ok (false, rest)
    else if first then .ok (true, c :: rest)
    else if c = ',' then
      match skipSpace rest with
      | [] => .error truncated
      | d :: more => if d = ']' then .error malformed else .ok (true, d :: more)
    else .error malformed

theorem length_nextElement_le {first : Bool} {cs rest : List Char} {another : Bool}
    (h : nextElement first cs = .ok (another, rest)) : rest.length ≤ cs.length := by
  have h₁ := length_skipSpace_le cs
  unfold nextElement at h
  split at h
  · cases h
  · next c more hs =>
    have h₂ := length_skipSpace_le more
    rw [hs, List.length_cons] at h₁
    split at h
    · cases h
      omega
    · split at h
      · cases h
        simpa using h₁
      · split at h
        · split at h
          · cases h
          · next hr =>
            rw [hr] at h₂
            split at h
            · cases h
            · cases h
              omega
        · cases h

/-- The closing bracket of a list in which every field has its value. -/
def listEnd (cs : List Char) : Except DocumentError (List Char) :=
  match skipSpace cs with
  | [] => .error truncated
  | c :: rest => if c = ']' then .ok rest else .error malformed

/-- A record after the field values at the head of a text, up to the closing bracket. -/
def elements {σ : Type} (value : σ) (first : Bool) (cs : List Char) :
    List (Field σ) → Except DocumentError (σ × List Char)
  | [] => (listEnd cs).map fun rest => (value, rest)
  | f :: fields =>
    match nextElement first cs with
    | .error e => .error e
    | .ok (false, rest) => .ok (value, rest)
    | .ok (true, rest) =>
      match f.change.read rest with
      | .error e => .error e
      | .ok (g, rest) => elements (g value) false rest fields

theorem length_elements_le {σ : Type} {fields : List (Field σ)} {value result : σ} {first : Bool}
    {cs rest : List Char} (h : elements value first cs fields = .ok (result, rest)) :
    rest.length ≤ cs.length := by
  induction fields generalizing value first cs with
  | nil =>
    have h₁ := length_skipSpace_le cs
    simp only [elements, Except.map] at h
    split at h
    · cases h
    · next hl =>
      cases h
      unfold listEnd at hl
      split at hl
      · cases hl
      · next hs =>
        rw [hs, List.length_cons] at h₁
        split at hl
        · cases hl
          omega
        · cases hl
  | cons f fields ih =>
    simp only [elements] at h
    split at h
    · cases h
    · next hn =>
      cases h
      exact length_nextElement_le hn
    · next hn =>
      have h₁ := length_nextElement_le hn
      split at h
      · cases h
      · next hv =>
        have := f.change.shorter hv
        have := ih h
        omega

/-- A record at the head of a text. -/
def readRecord {σ : Type} (start : σ) (fields : List (Field σ)) (cs : List Char) :
    Except DocumentError (σ × List Char) :=
  match skipSpace cs with
  | [] => .error truncated
  | c :: rest =>
    match opening? c with
    | some .record => members fields start [] true rest
    | some .list => elements start true rest fields
    | none => .error (otherType (c :: rest))

theorem length_readRecord_lt {σ : Type} {fields : List (Field σ)} {start result : σ}
    {cs rest : List Char} (h : readRecord start fields cs = .ok (result, rest)) :
    rest.length < cs.length := by
  have h₁ := length_skipSpace_le cs
  unfold readRecord at h
  split at h
  · cases h
  · next hs =>
    rw [hs, List.length_cons] at h₁
    split at h
    · have := length_members_lt h
      omega
    · have := length_elements_le h
      omega
    · cases h

def record {σ : Type} (start : σ) (fields : List (Field σ)) : ValueReader σ :=
  ⟨readRecord start fields, length_readRecord_lt⟩

/-- The value that a whole text spells, nothing but blanks after it. -/
def readAll {α : Type} (r : ValueReader α) (text : String) : Except DocumentError α :=
  match r.read text.toList with
  | .error e => .error e
  | .ok (a, rest) => if (skipSpace rest).isEmpty then .ok a else .error malformed

end HartMonitor.Document
