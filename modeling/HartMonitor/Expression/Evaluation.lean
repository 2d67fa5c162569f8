/-
# `HartMonitor.Expression.Evaluation` — the value of a list of tokens

A span is a run of consecutive tokens together with the position of its first; the
positions appear in errors.  The value of a span is found by cutting it:

    blanks at the ends             are dropped
    one token                      is an operand: number, register
    ( … ) around all of it         is dropped
    otherwise                      the loosest operator outside parentheses, the first of
                                   several, cuts the span in two

Spans grow shorter with every cut, so evaluation ends.  The left side is evaluated
before the right one, and both before the operator applies, also for `&&` and `||`.
All arithmetic is that of words.  Open parentheses are counted in 32 bits with a sign,
and with `2 ^ 31` of them the count wraps around.
-/
import HartMonitor.Expression.Lexer
import HartMonitor.Machine
import HartMonitor.Memory.Physical
import HartMonitor.Text.Numeral

namespace HartMonitor

/-- The value of an operator between two words. -/
def BinaryOp.apply (op : BinaryOp) (a b : Word) : Except ExpressionError Word :=
  match op with
  | add => .ok (a + b)
  | sub => .ok (a - b)
  | mul => .ok (a * b)
  | div => if b = 0 then .error .divisionByZero else .ok (a / b)
  | and => .ok (wordOfBool (a != 0 && b != 0))
  | or => .ok (wordOfBool (a != 0 || b != 0))
  | eq => .ok (wordOfBool (a == b))
  | neq => .ok (wordOfBool (a != b))

namespace Evaluation

/-! ## Operands -/

def dropBytes : Nat → List Char → List Char
  | 0, cs => cs
  | _ + 1, [] => []
  | n + 1, c :: rest => dropBytes (n + 1 - c.utf8Size) rest

def literal (base : Nat) (text : String) (digits : List Char) : Except ExpressionError Word :=
  match Text.numeral? base 32 digits with
  | some n => .ok (BitVec.ofNat 32 n)
  | none => .error (.invalidLiteral text)

/-- The name of a register without the mark in front of it. -/
def bareName (text : String) : String :=
  match text.toList with
  | '$' :: rest => String.ofList rest
  | _ => text

/-- The word in the register that a text names, with its mark or without it. -/
def registerValue (m : Machine) (text : String) : Except ExpressionError Word :=
  let bare := bareName text
  if bare = "pc" then .ok m.pc
  else
    match (m.regs.readNamed? text).or (m.regs.readNamed? bare) with
    | some w => .ok w
    | none => .error (.unknownRegister text)

/-- The value of a token that stands alone. -/
def operand (m : Machine) (t : Token) : Except ExpressionError Word :=
  match t.kind with
  | .decimal => literal 10 t.text t.text.toList
  | .hex => literal 16 t.text (dropBytes 2 t.text.toList)
  | .register => registerValue m t.text
  | _ => .error (.badOperand t.text)

/-- The byte at an address, if it is physical and in the window of memory. -/
def dereference (m : Machine) (addr : Word) : Except ExpressionError Word :=
  if Physical.contains addr then
    match m.memory.read addr 1 with
    | .ok w => .ok w
    | .error _ => .error (.outsideWindow addr)
  else .error (.outsideWindow addr)

/-! ## Parentheses and operators

Two scans count the parentheses that are open, in 32 bits with a sign: a count that is too large
wraps around. -/

/-- Whether some tokens close all parentheses exactly once, and none that was not opened; `depth` of
them are open before, and all of them were closed `closings` times. -/
def closesOnce (depth closings : Int32) : List Token → Bool
  | [] => closings == 1 && depth == 0
  | t :: rest =>
    let after :=
      match t.kind with
      | .leftParen => depth + 1
      | .rightParen => depth - 1
      | _ => depth
    if after < 0 then false
    else if 0 < depth && after == 0 then closesOnce after (closings + 1) rest
    else closesOnce after closings rest

/-- Whether one pair of parentheses encloses a whole span. -/
def enclosed (span : List Token) : Bool :=
  match span.head?, span.getLast? with
  | some front, some back =>
    front.kind == .leftParen && back.kind == .rightParen && closesOnce 0 0 span
  | _, _ => false

/-- The looser of the loosest operator so far and the next one, the earlier of two alike. -/
def looser (found : Option (Nat × Operator)) (next : Nat × Operator) : Option (Nat × Operator) :=
  if (found.map fun o => o.2.precedence).getD 0 < next.2.precedence then some next else found

/-- The loosest operator outside parentheses, with its place in the span.  The scan has come to
`place` with `depth` parentheses open, and `found` is the loosest operator so far. -/
def findPivot (start place : Nat) (depth : Int32) (found : Option (Nat × Operator)) :
    List Token → Except ExpressionError (Nat × Operator)
  | [] =>
    if depth ≠ 0 then .error (.unbalanced (start + place - 1))
    else
      match found with
      | some cut => .ok cut
      | none => .error (.noOperator start (start + place - 1))
  | t :: rest =>
    match t.kind with
    | .leftParen => findPivot start (place + 1) (depth + 1) found rest
    | .rightParen =>
      if depth - 1 < 0 then .error (.unbalanced (start + place))
      else findPivot start (place + 1) (depth - 1) found rest
    | kind =>
      if 0 < depth then findPivot start (place + 1) depth found rest
      else
        match kind.operator? with
        | some op => findPivot start (place + 1) depth (looser found (place, op)) rest
        | none => findPivot start (place + 1) depth found rest

/-- The operator that cuts a span, with its place in it. -/
def pivot (start : Nat) (span : List Token) : Except ExpressionError (Nat × Operator) :=
  findPivot start 0 0 none span

/-- What a scan finds is what it had found, or further on in the span. -/
theorem findPivot_lt {start place : Nat} {depth : Int32} {found : Option (Nat × Operator)}
    {span : List Token} {cut : Nat × Operator} (h : findPivot start place depth found span = .ok cut)
    (before : ∀ o ∈ found, o.1 < place) : cut.1 < place + span.length := by
  induction span generalizing place depth found with
  | nil =>
    simp only [findPivot] at h
    split at h
    · cases h
    · split at h
      · cases h
        exact before _ rfl
      · cases h
  | cons t rest ih =>
    have step : ∀ {depth found}, findPivot start (place + 1) depth found rest = .ok cut →
        (∀ o ∈ found, o.1 < place + 1) → cut.1 < place + (t :: rest).length := by
      intro depth found h before
      have := ih h before
      simp only [List.length_cons]
      omega
    have still : ∀ o ∈ found, o.1 < place + 1 := fun o mem => Nat.lt_succ_of_lt (before o mem)
    simp only [findPivot] at h
    split at h
    · exact step h still
    · split at h
      · cases h
      · exact step h still
    · split at h
      · exact step h still
      · split at h
        · refine step h fun o mem => ?_
          simp only [looser] at mem
          split at mem
          · cases mem
            exact Nat.lt_succ_self place
          · exact still o mem
        · exact step h still

theorem pivot_lt {start : Nat} {span : List Token} {place : Nat} {op : Operator}
    (h : pivot start span = .ok (place, op)) : place < span.length := by
  have inside := findPivot_lt h fun o mem => by cases mem
  rwa [Nat.zero_add] at inside

/-! ## The value of a span -/

def trimBlanks (span : List Token) : List Token :=
  ((span.dropWhile Token.isBlank).reverse.dropWhile Token.isBlank).reverse

def leadingBlanks (span : List Token) : Nat :=
  (span.takeWhile Token.isBlank).length

theorem length_trimBlanks_le (span : List Token) : (trimBlanks span).length ≤ span.length := by
  have h₁ := (List.dropWhile_sublist (l := span) Token.isBlank).length_le
  have h₂ := (List.dropWhile_sublist (l := (span.dropWhile Token.isBlank).reverse)
    Token.isBlank).length_le
  simp only [trimBlanks, List.length_reverse] at *
  omega

set_option linter.unusedVariables false in
/-- The value of a span whose first token has the position `start`. -/
def evalSpan (m : Machine) (start : Nat) (span : List Token) : Except ExpressionError Word :=
  match h : trimBlanks span with
  | [] => .error (.missingOperand (start + span.length))
  | [t] => operand m t
  | t :: u :: more =>
    let first := start + leadingBlanks span
    let inner := t :: u :: more
    if enclosed inner then evalSpan m (first + 1) (u :: more).dropLast
    else
      match hm : pivot first inner with
      | .error e => .error e
      | .ok (place, .deref) =>
        if place = 0 then do
          let addr ← evalSpan m (first + 1) (u :: more)
          dereference m addr
        else .error (.misplacedUnary (first + place))
      | .ok (place, .binary op) =>
        if place = 0 then .error (.missingOperand first)
        else do
          let a ← evalSpan m first (inner.take place)
          let b ← evalSpan m (first + place + 1) (inner.drop (place + 1))
          op.apply a b
termination_by span.length
decreasing_by
  all_goals
    have hl := length_trimBlanks_le span
    rw [h] at hl
    simp only [inner, List.length_cons, List.length_dropLast, List.length_take, List.length_drop]
      at *
  · omega
  · omega
  · have := pivot_lt hm
    simp only [List.length_cons] at this
    omega
  · omega

/-- The value of the tokens at the positions from `first` to `last`, both included. -/
def evalRange (m : Machine) (tokens : List Token) (first last : Nat) : Except ExpressionError Word :=
  if last < first then .error (.missingOperand first)
  else evalSpan m first ((tokens.drop first).take (last + 1 - first))

def evalTokens (m : Machine) (tokens : List Token) : Except ExpressionError Word :=
  if tokens.all Token.isBlank then .error .empty
  else evalSpan m 0 tokens

end Evaluation

def evaluate (m : Machine) (text : String) : Except ExpressionError Word := do
  let tokens ← tokenize text
  Evaluation.evalTokens m tokens

end HartMonitor
