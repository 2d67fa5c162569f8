/-
# `HartMonitor.Proofs.Watch.History` — the changes of a slot over any number of sweeps

Between the allocation of a slot and its release a pool may be swept, and other slots may
be taken and released (`Kept`).  No change of the slot is told twice and none is left out:
the first one starts from the value given at the allocation, and each later one where the
one before it ended (`Chained`).
-/
import HartMonitor.Proofs.Watch.Callback

namespace HartMonitor

/-- Changes of an expression in a slot, each from where the one before it ended to another value. -/
inductive Chained (id : Nat) (text : String) : Word → List WatchEvent → Word → Prop
  | nil {v : Word} : Chained id text v [] v
  | cons {old new last : Word} {es : List WatchEvent} : new ≠ old → Chained id text new es last →
      Chained id text old (⟨id, text, old, new⟩ :: es) last

/-- A pool that is used without releasing slot `id`, and the changes that its sweeps tell.  All of
them complete. -/
inductive Kept (id : Nat) : WatchPool → List WatchEvent → WatchPool → Prop
  | start {p : WatchPool} : Kept id p [] p
  | check {p q q' : WatchPool} {es more : List WatchEvent} {call : Callback} :
      Kept id p es q → q.checkBy call = (q', .ok more) → Kept id p (es ++ more) q'
  | allocate {p q q' : WatchPool} {es : List WatchEvent} {text : String} {value : Word}
      {other : Nat} :
      Kept id p es q → q.allocate text value = .ok (q', other) → Kept id p es q'
  | free {p q q' : WatchPool} {es : List WatchEvent} {other : Nat} :
      Kept id p es q → other ≠ id → q.free other = .ok q' → Kept id p es q'
  | setEnabled {p q : WatchPool} {es : List WatchEvent} {on : Bool} :
      Kept id p es q → Kept id p es (q.setEnabled on)

variable {id : Nat} {text : String} {first last : Word}

theorem Chained.append {es es' : List WatchEvent} {v : Word} (h : Chained id text first es v)
    (h' : Chained id text v es' last) : Chained id text first (es ++ es') last := by
  induction h with
  | nil => exact h'
  | cons moved _ ih => exact .cons moved (ih h')

theorem Answers.length_eq {call : Callback} {ws : List Watchpoint} {values : List Word}
    (h : Answers call ws values) : ws.length = values.length := by
  induction h with
  | nil => rfl
  | cons _ _ ih => exact congrArg (· + 1) ih

theorem filter_changesTo_eq_nil {ws : List Watchpoint} {values : List Word}
    (others : ∀ w ∈ ws, w.id ≠ id) : (changesTo ws values).filter (·.id = id) = [] := by
  rw [List.filter_eq_nil_iff]
  intro e mem
  obtain ⟨⟨w, v⟩, pair, found⟩ := List.mem_filterMap.mp mem
  simp only at found
  split at found
  · cases found
  · cases found
    simpa using others w (List.of_mem_zip pair).1

/-- A sweep adds one link to the chain of a slot, or none. -/
theorem chained_changesTo {ws : List Watchpoint} : ∀ {values : List Word},
    ws.Pairwise (·.id < ·.id) → ws.length = values.length → ⟨id, text, first⟩ ∈ ws →
      ∃ last, Chained id text first ((changesTo ws values).filter (·.id = id)) last ∧
        ⟨id, text, last⟩ ∈ renew ws values := by
  induction ws with
  | nil => intro values _ _ mem; cases mem
  | cons w ws ih =>
      intro values increasing length mem
      cases values with
      | nil => cases length
      | cons v vs =>
          have length : ws.length = vs.length := Nat.succ.inj length
          obtain ⟨above, increasing⟩ := List.pairwise_cons.mp increasing
          rw [changesTo_cons]
          rcases List.mem_cons.mp mem with rfl | later
          · have others : (changesTo ws vs).filter (·.id = id) = [] :=
              filter_changesTo_eq_nil fun u mem => (above u mem).ne'
            refine ⟨v, ?_, List.mem_cons_self⟩
            split
            · next same =>
              rw [others, same]
              exact .nil
            · next moved =>
              rw [List.filter_cons_of_pos (by simp), others]
              exact .cons moved .nil
          · obtain ⟨last, chained, held⟩ := ih increasing length later
            refine ⟨last, ?_, List.mem_cons_of_mem _ held⟩
            split
            · exact chained
            · have other : w.id ≠ id := (above _ later).ne
              rwa [List.filter_cons_of_neg (by simpa using other)]

namespace WatchPool

variable {p q q' : WatchPool} {es : List WatchEvent}

theorem chained_checkBy {call : Callback} (ran : q.checkBy call = (q', .ok es))
    (live : ⟨id, text, first⟩ ∈ q.toList) :
    ∃ last, Chained id text first (es.filter (·.id = id)) last ∧ ⟨id, text, last⟩ ∈ q'.toList := by
  cases on : q.enabled with
  | false =>
      obtain ⟨-, idle⟩ := @checkBy_of_disabled call q on
      cases ran.symm.trans idle
      exact ⟨first, .nil, live⟩
  | true =>
      rcases answers_or_loses q.toList call with
        ⟨values, answers⟩ | ⟨before, w, behind, values, cause, listed, loses⟩
      · obtain ⟨-, outcome, renewed⟩ := checkBy_of_answers on answers
        rw [ran] at outcome renewed
        cases outcome
        rw [renewed.toList]
        exact chained_changesTo increasing_liveFrom answers.length_eq live
      · obtain ⟨-, outcome, -⟩ := checkBy_of_loses on listed loses
        rw [ran] at outcome
        cases outcome

/-- However a pool is used that keeps a slot, the changes of the slot are a chain. -/
theorem chained_of_kept (kept : Kept id p es q) (live : ⟨id, text, first⟩ ∈ p.toList) :
    ∃ last, Chained id text first (es.filter (·.id = id)) last ∧ ⟨id, text, last⟩ ∈ q.toList := by
  induction kept with
  | start => exact ⟨first, .nil, live⟩
  | check _ ran ih =>
      obtain ⟨v, chained, held⟩ := ih
      obtain ⟨last, more, held⟩ := chained_checkBy ran held
      rw [List.filter_append]
      exact ⟨last, chained.append more, held⟩
  | allocate _ taken ih =>
      obtain ⟨v, chained, held⟩ := ih
      exact ⟨v, chained, (mem_toList_of_allocate taken).mpr (.inr held)⟩
  | free _ other freed ih =>
      obtain ⟨v, chained, held⟩ := ih
      exact ⟨v, chained, (mem_toList_of_free freed).mpr ⟨held, other.symm⟩⟩
  | setEnabled _ ih => exact ih

/-- Sweeps tell every change once and in order, whoever is asked for the values. -/
theorem checks_tell_changes (p : WatchPool) (call : Callback) :
    (∀ eval, p.sweepBy (fun _ => eval) = p.sweep eval ∧ p.checkBy (fun _ => eval) = p.check eval) ∧
      (p.enabled = false → (p.sweepBy call).evaluated = [] ∧ p.checkBy call = (p, .ok [])) ∧
      (p.enabled = true →
        p.toList.Pairwise (·.id < ·.id) ∧
        ((∃ values, Answers call p.toList values) ∨
          ∃ before w behind values cause, p.toList = before ++ w :: behind ∧
            Loses call before values w cause) ∧
        (∀ values, Answers call p.toList values →
          (p.sweepBy call).evaluated = p.toList.map (·.expression) ∧
          (p.checkBy call).2 = .ok (changesTo p.toList values) ∧
          p.Renewed (p.checkBy call).1 (renew p.toList values) ∧
          ∀ again, Answers again (p.checkBy call).1.toList values →
            (p.checkBy call).1.checkBy again = ((p.checkBy call).1, .ok [])) ∧
        ∀ before w behind values cause, p.toList = before ++ w :: behind →
          Loses call before values w cause →
          (p.sweepBy call).evaluated = (before ++ [w]).map (·.expression) ∧
          (p.checkBy call).2 = .error (.lostValue w.id w.expression cause) ∧
          p.Renewed (p.checkBy call).1 (renew before values ++ w :: behind)) ∧
      ∀ text first p' id, p.allocate text first = .ok (p', id) → ∀ es q, Kept id p' es q →
        ∃ last, Chained id text first (es.filter (·.id = id)) last ∧
          ⟨id, text, last⟩ ∈ q.toList := by
  refine ⟨checkBy_const p, fun off => ?_, fun on => ⟨increasing_liveFrom,
    answers_or_loses p.toList call, fun values answers => ?_, ?_⟩, ?_⟩
  · obtain ⟨idle, same⟩ := @checkBy_of_disabled call p off
    exact ⟨congrArg Sweep.evaluated idle, same⟩
  · obtain ⟨asked, outcome, renewed⟩ := checkBy_of_answers on answers
    exact ⟨asked, outcome, renewed, fun again same => checkBy_again on answers same⟩
  · intro before w behind values cause listed loses
    exact checkBy_of_loses on listed loses
  · intro text first p' id taken es q kept
    exact chained_of_kept kept ((mem_toList_of_allocate taken).mpr (.inl rfl))

/-- Two slots with one text, whose value grows by one between them; then the second has none. -/
theorem checks_tell_changes_twins :
    let p : WatchPool := ⟨[some ⟨"$a0", 7⟩, some ⟨"$a0", 7⟩], 1, true⟩
    let off : WatchPool := p.setEnabled false
    let growing : Callback := fun asked _ => .ok (BitVec.ofNat 32 (7 + asked.length))
    let once : Callback := fun asked _ => if asked = [] then .ok 9 else .error .divisionByZero
    WatchPool.allocate ⟨[some ⟨"$a0", 7⟩, none], 0, true⟩ "$a0" 7 = .ok (p, 1) ∧
      off.checkBy growing = (off, .ok []) ∧
      (p.checkBy growing).2 = .ok [⟨1, "$a0", 7, 8⟩] ∧
      (p.checkBy once).2 = .error (.lostValue 1 "$a0" .divisionByZero) ∧
      ∃ last, Chained 1 "$a0" 7 [⟨1, "$a0", 7, 8⟩] last := by
  intro p off growing once
  have taken : WatchPool.allocate ⟨[some ⟨"$a0", 7⟩, none], 0, true⟩ "$a0" 7 = .ok (p, 1) := by
    decide +kernel
  have answers : Answers growing p.toList [7, 8] := .cons rfl (.cons rfl .nil)
  have loses : Loses once [⟨0, "$a0", 7⟩] [9] ⟨1, "$a0", 7⟩ .divisionByZero :=
    ⟨.cons rfl .nil, rfl⟩
  obtain ⟨-, idle, -, -⟩ := checks_tell_changes off growing
  obtain ⟨-, -, told, -⟩ := checks_tell_changes p growing
  obtain ⟨-, -, lost, -⟩ := checks_tell_changes p once
  obtain ⟨-, -, -, chain⟩ := checks_tell_changes ⟨[some ⟨"$a0", 7⟩, none], 0, true⟩ growing
  obtain ⟨-, -, complete, -⟩ := told rfl
  obtain ⟨-, -, -, broken⟩ := lost rfl
  obtain ⟨-, outcome, -⟩ := complete [7, 8] answers
  obtain ⟨-, failure, -⟩ := broken _ _ [] _ _ rfl loses
  have kept : Kept 1 p ([] ++ [⟨1, "$a0", 7, 8⟩]) (p.checkBy growing).1 :=
    .check .start (Prod.ext rfl outcome)
  obtain ⟨last, chained, -⟩ := chain "$a0" 7 p 1 taken _ _ kept
  exact ⟨taken, (idle rfl).2, outcome, failure, last, chained⟩

end WatchPool

end HartMonitor
