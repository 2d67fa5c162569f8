/-
# `HartMonitor.Proofs.Expression.Grammar` — the language of expressions and its meaning

The language is given without any evaluator, by a grammar in seven levels:

    or     ::=  and    [ '||' or ]
    and    ::=  eq     [ '&&' and ]
    eq     ::=  sum    [ ( '==' | '!=' ) eq ]
    sum    ::=  prod   [ ( '+' | '-' ) sum ]
    prod   ::=  unary  [ ( '*' | '/' ) prod ]
    unary  ::=  deref unary  |  atom
    atom   ::=  decimal  |  hex  |  register  |  '(' or ')'

A binary operator has the tighter level on its left and its own level on its right, so
that operators of one level group to the right.  A derivation yields a `Phrase`, and a
phrase has a value: a natural number below `2 ^ 32`, found strictly from left to right.
Blanks are no part of the language; `significant` leaves them out.
-/
import HartMonitor.Expression.Lexer
import HartMonitor.Machine
import HartMonitor.Text.Numeral
import Mathlib.Data.Nat.Digits.Defs

namespace HartMonitor

/-! ## Phrases -/

/-- An expression as a tree.  Parentheses leave no trace in it. -/
inductive Phrase where
  | operand (t : Token)
  | deref (address : Phrase)
  | binary (op : BinaryOp) (left right : Phrase)
deriving DecidableEq, Repr

/-- The nonterminals of the grammar. -/
inductive Level where
  | or
  | and
  | eq
  | sum
  | prod
  | unary
  | atom
deriving DecidableEq, Repr

/-- The level that the left side of an operator of a level has. -/
def Level.tighter? : Level → Option Level
  | or => some and
  | and => some eq
  | eq => some sum
  | sum => some prod
  | prod => some unary
  | unary => some atom
  | atom => none

/-- The level of a binary operator. -/
def BinaryOp.level : BinaryOp → Level
  | .or => .or
  | .and => .and
  | .eq | .neq => .eq
  | .add | .sub => .sum
  | .mul | .div => .prod

def TokenKind.isOperand : TokenKind → Bool
  | decimal | hex | register => true
  | _ => false

/-- `Derives l ts e`: the tokens `ts` are a phrase `e` of level `l`. -/
inductive Derives : Level → List Token → Phrase → Prop
  /-- The optional part of a production left out. -/
  | alone {l l' : Level} {ts : List Token} {e : Phrase} : l.tighter? = some l' →
      Derives l' ts e → Derives l ts e
  /-- A production with its operator. -/
  | binary {l l' : Level} {op : BinaryOp} {t : Token} {left right : List Token}
      {a b : Phrase} : t.kind.operator? = some (.binary op) → op.level = l →
      l.tighter? = some l' → Derives l' left a → Derives l right b →
      Derives l (left ++ t :: right) (.binary op a b)
  | deref {t : Token} {ts : List Token} {a : Phrase} : t.kind = .deref →
      Derives .unary ts a → Derives .unary (t :: ts) (.deref a)
  | operand {t : Token} : t.kind.isOperand = true → Derives .atom [t] (.operand t)
  | group {l r : Token} {ts : List Token} {e : Phrase} : l.kind = .leftParen →
      r.kind = .rightParen → Derives .or ts e → Derives .atom (l :: (ts ++ [r])) e

def significant (tokens : List Token) : List Token :=
  tokens.filter fun t => !t.isBlank

/-! ## Values -/

/-- The number that digits spell in a base, the first one weighing most. -/
def spelledNumber (base : Nat) (digits : List Char) : Nat :=
  Nat.ofDigits base (digits.reverse.map fun c => (Text.digitValue? c).getD 0)

/-- A number that fits a word, or the cause that the literal spells none. -/
def literalNumber (text : String) (n : Nat) : Except ExpressionError Nat :=
  if n < 2 ^ 32 then .ok n else .error (.invalidLiteral text)

/-- The register that stands behind the mark in the text of a register token. -/
def markedRegister? (name : String) : Option RegisterNumber :=
  if name = "0" then some 0 else RegisterNumber.ofName? name

/-- The number that a register token stands for: `pc`, or the contents of a register. -/
def registerNumber (m : Machine) (text name : String) : Except ExpressionError Nat :=
  if name = "pc" then .ok m.pc.toNat
  else
    match markedRegister? name with
    | some r => .ok (m.regs.read r).toNat
    | none => .error (.unknownRegister text)

/-- The number that an operand stands for. -/
def operandNumber (m : Machine) (t : Token) : Except ExpressionError Nat :=
  match t.kind, t.text.toList with
  | .decimal, digits => literalNumber t.text (spelledNumber 10 digits)
  | .hex, '0' :: 'x' :: digits => literalNumber t.text (spelledNumber 16 digits)
  | .register, '$' :: name => registerNumber m t.text (String.ofList name)
  | _, _ => .error (.badOperand t.text)

/-- The one byte at an address that is physical and inside the window of memory. -/
def byteNumber (m : Machine) (addr : Nat) : Except ExpressionError Nat :=
  if 0x80000000 ≤ addr ∧ addr ≤ 0x87ffffff ∧ m.memory.base.toNat ≤ addr ∧
      addr < m.memory.base.toNat + m.memory.size then
    .ok (m.memory.byteAt (BitVec.ofNat 32 addr)).toNat
  else .error (.outsideWindow (BitVec.ofNat 32 addr))

/-- An operator on numbers below `2 ^ 32`. -/
def BinaryOp.number (op : BinaryOp) (a b : Nat) : Except ExpressionError Nat :=
  match op with
  | add => .ok ((a + b) % 2 ^ 32)
  | sub => .ok ((a + 2 ^ 32 - b) % 2 ^ 32)
  | mul => .ok (a * b % 2 ^ 32)
  | div => if b = 0 then .error .divisionByZero else .ok (a / b)
  | and => .ok (if a ≠ 0 ∧ b ≠ 0 then 1 else 0)
  | or => .ok (if a ≠ 0 ∨ b ≠ 0 then 1 else 0)
  | eq => .ok (if a = b then 1 else 0)
  | neq => .ok (if a ≠ b then 1 else 0)

/-- The value of a phrase in a machine state.  The left side comes before the right one, and
both come before the operator, whatever it is. -/
def Phrase.number (m : Machine) : Phrase → Except ExpressionError Nat
  | operand t => operandNumber m t
  | deref address => do
    let addr ← address.number m
    byteNumber m addr
  | binary op left right => do
    let a ← left.number m
    let b ← right.number m
    op.number a b

section Sequence
variable {α β ε : Type} {x : Except ε α} {f : α → Except ε β}

theorem exists_of_bind_eq_ok {b : β} (h : x >>= f = .ok b) : ∃ a, x = .ok a ∧ f a = .ok b := by
  cases x with
  | error e => cases h
  | ok a => exact ⟨a, rfl, h⟩

theorem cases_of_bind_eq_error {cause : ε} (h : x >>= f = .error cause) :
    x = .error cause ∨ ∃ a, x = .ok a ∧ f a = .error cause := by
  cases x with
  | error e => cases h; exact .inl rfl
  | ok a => exact .inr ⟨a, rfl, h⟩

end Sequence

def ExpressionError.IsEvaluation : ExpressionError → Prop
  | invalidLiteral _ | unknownRegister _ | outsideWindow _ | divisionByZero => True
  | _ => False

/-- The text of a literal or a register is one that the lexer cuts: digits, digits behind
`0x`, letters and digits behind `$`. -/
def Token.WellSpelled (t : Token) : Prop :=
  match t.kind with
  | .decimal => t.text.toList ≠ [] ∧ ∀ c ∈ t.text.toList, CharClass.decimalDigit.has c
  | .hex => ∃ digits, t.text.toList = '0' :: 'x' :: digits ∧ digits ≠ [] ∧
      ∀ c ∈ digits, CharClass.hexDigit.has c
  | .register => ∃ name, t.text.toList = '$' :: name ∧ name ≠ [] ∧
      ∀ c ∈ name, CharClass.alphanumeric.has c
  | _ => True

end HartMonitor
