/-
# `HartMonitor.Document.Skip` — passing over any value

A value that nothing is kept of may be nested to any depth: the brackets that are open
around the current place are held in a list, innermost first.  What is passed over has
to be well-formed, up to the pairing of surrogate escapes in its strings.
-/
import HartMonitor.Document.Value

namespace HartMonitor.Document

open DocumentError

/-- A bracket that is open while a value is skipped. -/
inductive Bracket where
  | list
  | record
deriving DecidableEq, Repr

def Bracket.closing : Bracket → Char
  | list => ']'
  | record => '\x7d'

def colon (cs : List Char) : Except DocumentError (List Char) :=
  match skipSpace cs with
  | [] => .error truncated
  | c :: rest => if c = ':' then .ok rest else .error malformed

theorem length_colon_lt {cs rest : List Char} (h : colon cs = .ok rest) :
    rest.length < cs.length := by
  have hs := length_skipSpace_le cs
  unfold colon at h
  split at h
  · cases h
  · next hx =>
    split at h
    · cases h
      rw [hx] at hs
      simp only [List.length_cons] at hs
      omega
    · cases h

def memberName (strict : Bool) (cs : List Char) : Except DocumentError (List Char × List Char) :=
  match skipSpace cs with
  | [] => .error truncated
  | c :: rest => if c = '\x22' then quoted strict rest else .error malformed

theorem length_memberName_lt {strict : Bool} {cs name rest : List Char}
    (h : memberName strict cs = .ok (name, rest)) : rest.length < cs.length := by
  have hs := length_skipSpace_le cs
  unfold memberName at h
  split at h
  · cases h
  · next hx =>
    split at h
    · have := length_quoted_lt h
      rw [hx] at hs
      simp only [List.length_cons] at hs
      omega
    · cases h

def skipName (cs : List Char) : Except DocumentError (List Char) :=
  match memberName false cs with
  | .error e => .error e
  | .ok (_, rest) => colon rest

theorem length_skipName_lt {cs rest : List Char} (h : skipName cs = .ok rest) :
    rest.length < cs.length := by
  unfold skipName at h
  split at h
  · cases h
  · next hx =>
    have := length_memberName_lt hx
    have := length_colon_lt h
    omega

/-- What stands where a value in brackets goes on: the next value, after its name in a record. -/
def nextItem (b : Bracket) (cs : List Char) : Except DocumentError (List Char) :=
  match b with
  | .list => .ok cs
  | .record => skipName cs

theorem length_nextItem_le {b : Bracket} {cs rest : List Char} (h : nextItem b cs = .ok rest) :
    rest.length ≤ cs.length := by
  cases b with
  | list => cases h; exact Nat.le_refl _
  | record => exact Nat.le_of_lt (length_skipName_lt h)

/-- What follows a value that is neither a list nor a record. -/
def skipScalar : List Char → Except DocumentError (List Char)
  | [] => .error truncated
  | c :: rest =>
    if c = 'n' then spell ['u', 'l', 'l'] rest
    else if c = 't' then spell ['r', 'u', 'e'] rest
    else if c = 'f' then spell ['a', 'l', 's', 'e'] rest
    else if c = '\x22' then (quoted false rest).map Prod.snd
    else if startsNumber c then (number malformed (c :: rest)).map Prod.snd
    else .error malformed

theorem length_skipScalar_lt {cs rest : List Char} (h : skipScalar cs = .ok rest) :
    rest.length < cs.length := by
  cases cs with
  | nil => cases h
  | cons c more =>
    have spelled : ∀ {name : List Char}, spell name more = .ok rest →
        rest.length < (c :: more).length := by
      intro name hn
      have := length_spell_le hn
      simp only [List.length_cons]
      omega
    simp only [skipScalar] at h
    repeat' split at h
    · exact spelled h
    · exact spelled h
    · exact spelled h
    · simp only [Except.map] at h
      split at h
      · cases h
      · next hx =>
        cases h
        have := length_quoted_lt hx
        simp only [List.length_cons]
        omega
    · simp only [Except.map] at h
      split at h
      · cases h
      · next hx =>
        cases h
        exact length_number_lt hx
    · cases h

def opening? (c : Char) : Option Bracket :=
  if c = '[' then some .list
  else if c = '\x7b' then some .record
  else none

set_option linter.unusedVariables false in
mutual

/-- What follows the value at the head of a text and all the brackets that are open around it,
innermost first. -/
def skipValue (around : List Bracket) (cs : List Char) : Except DocumentError (List Char) :=
  match hs : skipSpace cs with
  | [] => .error truncated
  | c :: rest =>
    match opening? c with
    | some b =>
      match hr : skipSpace rest with
      | [] => .error truncated
      | d :: more =>
        if d = b.closing then skipClosed around more
        else
          match hn : nextItem b (d :: more) with
          | .error e => .error e
          | .ok item => skipValue (b :: around) item
    | none =>
      match hv : skipScalar (c :: rest) with
      | .error e => .error e
      | .ok rest => skipClosed around rest
termination_by cs.length
decreasing_by
  all_goals
    have h₁ := length_skipSpace_le cs
    rw [hs] at h₁
    simp only [List.length_cons] at h₁
  · have h₂ := length_skipSpace_le rest
    rw [hr] at h₂
    simp only [List.length_cons] at h₂
    omega
  · have h₂ := length_skipSpace_le rest
    have h₃ := length_nextItem_le hn
    rw [hr] at h₂
    omega
  · have h₂ := length_skipScalar_lt hv
    simp only [List.length_cons] at h₂
    omega

/-- What follows all the brackets that are open around a value whose end is behind. -/
def skipClosed (around : List Bracket) (cs : List Char) : Except DocumentError (List Char) :=
  match around with
  | [] => .ok cs
  | b :: outer =>
    match hs : skipSpace cs with
    | [] => .error truncated
    | c :: rest =>
      if c = b.closing then skipClosed outer rest
      else if c = ',' then
        match hn : nextItem b rest with
        | .error e => .error e
        | .ok item => skipValue (b :: outer) item
      else .error malformed
termination_by cs.length
decreasing_by
  all_goals
    have h₁ := length_skipSpace_le cs
    rw [hs] at h₁
    simp only [List.length_cons] at h₁
  · omega
  · have h₂ := length_nextItem_le hn
    omega

end

theorem length_skip_le (n : Nat) :
    (∀ around cs rest, cs.length ≤ n → skipValue around cs = .ok rest → rest.length < cs.length)
      ∧ (∀ around cs rest, cs.length ≤ n → skipClosed around cs = .ok rest →
          rest.length ≤ cs.length) := by
  induction n using Nat.strongRecOn with
  | ind n ih =>
    constructor
    · intro around cs rest hn h
      have h₁ := length_skipSpace_le cs
      rw [skipValue] at h
      split at h
      · cases h
      · next c more hs =>
        rw [hs, List.length_cons] at h₁
        split at h
        · have h₂ := length_skipSpace_le more
          split at h
          · cases h
          · next d more' hr =>
            rw [hr, List.length_cons] at h₂
            split at h
            · have := (ih more'.length (by omega)).2 _ _ _ (Nat.le_refl _) h
              omega
            · split at h
              · cases h
              · next item hi =>
                have h₃ := length_nextItem_le hi
                simp only [List.length_cons] at h₃
                have := (ih item.length (by omega)).1 _ _ _ (Nat.le_refl _) h
                omega
        · split at h
          · cases h
          · next rest' hv =>
            have h₂ := length_skipScalar_lt hv
            simp only [List.length_cons] at h₂
            have := (ih rest'.length (by omega)).2 _ _ _ (Nat.le_refl _) h
            omega
    · intro around cs rest hn h
      have h₁ := length_skipSpace_le cs
      rw [skipClosed.eq_def] at h
      split at h
      · cases h
        exact Nat.le_refl _
      · split at h
        · cases h
        · next c more hs =>
          rw [hs, List.length_cons] at h₁
          split at h
          · have := (ih more.length (by omega)).2 _ _ _ (Nat.le_refl _) h
            omega
          · split at h
            · split at h
              · cases h
              · next item hi =>
                have h₂ := length_nextItem_le hi
                have := (ih item.length (by omega)).1 _ _ _ (Nat.le_refl _) h
                omega
            · cases h

/-- Any value, of which nothing is kept. -/
def skip : ValueReader Unit where
  read cs := (skipValue [] cs).map fun rest => ((), rest)
  shorter {cs a rest} h := by
    simp only [Except.map] at h
    split at h
    · cases h
    · next hx =>
      cases h
      exact (length_skip_le cs.length).1 _ _ _ (Nat.le_refl _) hx

end HartMonitor.Document
