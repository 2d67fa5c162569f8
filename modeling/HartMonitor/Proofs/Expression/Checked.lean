/-
# `HartMonitor.Proofs.Expression.Checked` — evaluation by position, every access checked

The evaluator works on lists and cuts them apart.  Here the same is done by position: the
text is read from a byte offset, the tokens stay in one list, and a range of them is the
two indices of its ends, from which one is taken or to which one is added.  Every operation
that is not defined everywhere is checked where it is done, and ends in a fault where it is
not:

    a token at an index            the index is in the list
    one less than an index         the index is not zero
    a piece of a text              it begins and ends between two characters
    counting parentheses           the counter has 32 bits
    a division                     the divisor is not zero
    an operator on two operands    it takes two

An error of the expression is not a fault: it is one of the results.
-/
import HartMonitor.Expression.Evaluation

namespace HartMonitor

/-- An operation that is not defined where it is done. -/
inductive Fault where
  | index (i : Nat)
  | underflow
  | slice (start stop : Nat)
  | overflow (count : Int)
  | divisor
  | operator (kind : TokenKind)
deriving DecidableEq, Repr

/-- An evaluation that may end in a fault, and otherwise has a value or an error. -/
abbrev Checked (α : Type) := ExceptT ExpressionError (Except Fault) α

namespace Checked

/-- The end in a fault. -/
def fault {α : Type} (f : Fault) : Checked α := ExceptT.mk (.error f)

/-- The end without one. -/
def safe {α : Type} (r : Except ExpressionError α) : Checked α := ExceptT.mk (.ok r)

/-! ## Checked operations -/

def tokenAt (tokens : List Token) (i : Nat) : Checked Token :=
  match tokens[i]? with
  | some t => pure t
  | none => fault (.index i)

def tokensIn (tokens : List Token) (first last : Nat) : Checked (List Token) :=
  if first ≤ last + 1 ∧ last < tokens.length then
    pure ((tokens.drop first).take (last + 1 - first))
  else fault (.index last)

def before : (i : Nat) → Checked { j : Nat // j + 1 = i }
  | 0 => fault .underflow
  | j + 1 => pure ⟨j, rfl⟩

def counter (count : Int) : Checked Int :=
  if -0x80000000 ≤ count ∧ count < 0x80000000 then pure count else fault (.overflow count)

def quotient (a b : Word) : Checked Word :=
  if b = 0 then fault .divisor else pure (a / b)

def utf8 (cs : List Char) : List UInt8 := cs.flatMap String.utf8EncodeChar

def bytesFrom (bytes : List UInt8) (start : Nat) : Checked (List UInt8) :=
  if start ≤ bytes.length then pure (bytes.drop start) else fault (.slice start bytes.length)

/-- The characters in the first `n` bytes, and those behind; `none` where the cut is inside a
character or behind the last one. -/
def cut? (n : Nat) : List Char → Option (List Char × List Char)
  | [] => if n = 0 then some ([], []) else none
  | c :: rest =>
    if n = 0 then some ([], c :: rest)
    else if n < c.utf8Size then none
    else (cut? (n - c.utf8Size) rest).map fun (front, back) => (c :: front, back)

/-- The piece of a text between two byte offsets. -/
def slice (text : String) (start stop : Nat) : Checked String :=
  match cut? start text.toList with
  | none => fault (.slice start stop)
  | some (_, rest) =>
    if stop < start then fault (.slice start stop)
    else
      match cut? (stop - start) rest with
      | none => fault (.slice start stop)
      | some (piece, _) => pure (String.ofList piece)

/-! ## Tokens -/

/-- The length in bytes of the lexeme of a shape at the head of some bytes, zero where there is
none. -/
def matched (bytes : List UInt8) : Shape → Checked Nat
  | .exactly text =>
    pure (if (utf8 text.toList).isPrefixOf bytes then (utf8 text.toList).length else 0)
  | .run lead cls =>
    if (utf8 lead.toList).isPrefixOf bytes then do
      let behind ← bytesFrom bytes (utf8 lead.toList).length
      match (behind.takeWhile fun b => cls.has (Char.ofUInt8 b)).length with
      | 0 => pure 0
      | n + 1 => pure ((utf8 lead.toList).length + (n + 1))
    else pure 0

/-- The first of some rules with a lexeme at the head of some bytes, and its length. -/
def firstRule (bytes : List UInt8) : List LexRule → Checked (Option (LexRule × Nat))
  | [] => pure none
  | rule :: more => do
    let len ← matched bytes rule.shape
    if 0 < len then pure (some (rule, len)) else firstRule bytes more

open Lexer in
/-- The tokens of a text, those before the offset `position` being there already. -/
def scan (text : String) (tokens : List Token) (previous : Option TokenKind) (position : Nat) :
    Checked (List Token) :=
  if position < (utf8 text.toList).length then do
    let rest ← bytesFrom (utf8 text.toList) position
    match ← firstRule rest rules with
    | none => throw (.noMatch text position)
    | some (rule, len) =>
      let lexeme ← slice text position (position + len)
      if rule.kind = .not then throw (.unsupported "!" position)
      else if maxTokens ≤ tokens.length then throw (.tooManyTokens maxTokens)
      else
        let kind := kindAfter previous rule.kind
        let token ← safe (Token.create kind (keptText kind lexeme.toList) position)
        scan text (tokens ++ [token]) (lookBack previous kind) (position + len)
  else pure tokens
termination_by Lexer.maxTokens - tokens.length
decreasing_by simp only [List.length_append, List.length_singleton]; omega

def tokenize (text : String) : Checked (List Token) := scan text [] none 0

/-! ## Values -/

open Evaluation

/-- The value of a token that stands alone. -/
def operand (m : Machine) (t : Token) : Checked Word :=
  match t.kind with
  | .decimal => safe (literal 10 t.text t.text.toList)
  | .hex => do
    let digits ← slice t.text 2 t.text.utf8ByteSize
    safe (literal 16 t.text digits.toList)
  | .register => safe (registerValue m t.text)
  | _ => throw (.badOperand t.text)

/-- The value of an operator between two words. -/
def apply (kind : TokenKind) (a b : Word) : Checked Word :=
  match kind.operator? with
  | some (.binary .div) => if b = 0 then throw .divisionByZero else quotient a b
  | some (.binary op) => safe (op.apply a b)
  | some .deref | none => fault (.operator kind)

/-- Whether some tokens close all parentheses exactly once, and none that was not opened; `depth` of
them are open before, and all of them were closed `closings` times. -/
def closesOnce (depth closings : Int) : List Token → Checked Bool
  | [] => pure (closings == 1 && depth == 0)
  | t :: rest => do
    let after ←
      match t.kind with
      | .leftParen => counter (depth + 1)
      | .rightParen => counter (depth - 1)
      | _ => pure depth
    if after < 0 then pure false
    else if 0 < depth && after == 0 then do
      let closings ← counter (closings + 1)
      closesOnce after closings rest
    else closesOnce after closings rest

/-- Whether one pair of parentheses encloses the tokens from one index to another. -/
def isGroup (tokens : List Token) (first last : Nat) : Checked Bool := do
  let front ← tokenAt tokens first
  if front.kind ≠ .leftParen then pure false
  else do
    let back ← tokenAt tokens last
    if back.kind ≠ .rightParen then pure false
    else do
      let range ← tokensIn tokens first last
      closesOnce 0 0 range

/-- An index between two others. -/
abbrev Between (first last : Nat) := { i : Nat // first ≤ i ∧ i ≤ last }

/-- The index of the operator that cuts a range, `found` and `best` being the one so far and its
precedence, and `depth` parentheses being open before the index `i`. -/
def master (tokens : List Token) (first last : Nat) (depth : Int) (best : Nat)
    (found : Option (Between first last)) (i : Nat) (inside : first ≤ i) :
    Checked (Between first last) :=
  if past : last < i then
    if depth ≠ 0 then throw (.unbalanced last)
    else
      match found with
      | some place => pure place
      | none => throw (.noOperator first last)
  else do
    let t ← tokenAt tokens i
    match t.kind with
    | .blank => master tokens first last depth best found (i + 1) (by omega)
    | .leftParen => do
      let depth ← counter (depth + 1)
      master tokens first last depth best found (i + 1) (by omega)
    | .rightParen => do
      let depth ← counter (depth - 1)
      if depth < 0 then throw (.unbalanced i)
      else master tokens first last depth best found (i + 1) (by omega)
    | kind =>
      if 0 < depth then master tokens first last depth best found (i + 1) (by omega)
      else if best < kind.precedence then
        master tokens first last depth kind.precedence (some ⟨i, by omega⟩) (i + 1) (by omega)
      else master tokens first last depth best found (i + 1) (by omega)
termination_by last + 1 - i

/-- The value of the tokens from one index to another. -/
def value (m : Machine) (tokens : List Token) (first last : Nat) : Checked Word :=
  if last < first then throw (.missingOperand first)
  else do
    let front ← tokenAt tokens first
    if front.kind = .blank then value m tokens (first + 1) last
    else do
      let back ← tokenAt tokens last
      if back.kind = .blank then do
        let ⟨last', _⟩ ← before last
        value m tokens first last'
      else if first = last then do
        let t ← tokenAt tokens first
        operand m t
      else if ← isGroup tokens first last then do
        let ⟨last', _⟩ ← before last
        value m tokens (first + 1) last'
      else do
        let ⟨place, _⟩ ← master tokens first last 0 0 none first (Nat.le_refl first)
        let t ← tokenAt tokens place
        if t.kind = .deref then
          if place ≠ first then throw (.misplacedUnary place)
          else do
            let addr ← value m tokens (first + 1) last
            safe (dereference m addr)
        else if place = first then throw (.missingOperand first)
        else do
          let ⟨left, _⟩ ← before place
          let a ← value m tokens first left
          let b ← value m tokens (place + 1) last
          apply t.kind a b
termination_by last + 1 - first

/-- The value of a list of tokens. -/
def valueOf (m : Machine) (tokens : List Token) : Checked Word :=
  if tokens.all Token.isBlank then throw .empty
  else do
    let ⟨last, _⟩ ← before tokens.length
    value m tokens 0 last

def evaluate (m : Machine) (text : String) : Checked Word := do
  let tokens ← tokenize text
  valueOf m tokens

end Checked

end HartMonitor
