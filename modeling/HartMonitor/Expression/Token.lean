/-
# `HartMonitor.Expression.Token` — the tokens of an expression

A token has a kind and the text it was read from; a run of blanks is a token too,
with no text.  Some kinds are operators:

    operator            precedence
    *  (dereference)    2
    *  /                3
    +  -                4
    == !=               7
    &&                  11
    ||                  12

The greater the number, the looser the operator binds.
-/
import HartMonitor.Expression.Error

namespace HartMonitor

/-- The kind of a token. -/
inductive TokenKind where
  | blank
  | decimal
  | hex
  | register
  | add
  | sub
  | mul
  | div
  | deref
  | and
  | or
  /-- Recognised by the lexer, and refused there. -/
  | not
  | eq
  | neq
  | leftParen
  | rightParen
deriving DecidableEq, Repr

/-- An operator between two operands. -/
inductive BinaryOp where
  | add
  | sub
  | mul
  | div
  | and
  | or
  | eq
  | neq
deriving DecidableEq, Repr

/-- An operator of an expression. -/
inductive Operator where
  /-- The byte at an address. -/
  | deref
  | binary (op : BinaryOp)
deriving DecidableEq, Repr

/-- How loosely an operator binds. -/
def Operator.precedence : Operator → Nat
  | deref => 2
  | binary .mul | binary .div => 3
  | binary .add | binary .sub => 4
  | binary .eq | binary .neq => 7
  | binary .and => 11
  | binary .or => 12

namespace TokenKind

/-- The operator that a kind of token stands for. -/
def operator? : TokenKind → Option Operator
  | add => some (.binary .add)
  | sub => some (.binary .sub)
  | mul => some (.binary .mul)
  | div => some (.binary .div)
  | deref => some .deref
  | and => some (.binary .and)
  | or => some (.binary .or)
  | eq => some (.binary .eq)
  | neq => some (.binary .neq)
  | _ => none

/-- The precedence of the operator that a kind stands for, zero for every other kind. -/
def precedence (k : TokenKind) : Nat :=
  (k.operator?.map Operator.precedence).getD 0

/-- Whether a token of this kind may be the last one of an operand. -/
def endsOperand : TokenKind → Bool
  | decimal | hex | register | rightParen => true
  | _ => false

end TokenKind

/-- The largest number of bytes in the text of a token. -/
def maxTokenBytes : Nat := 32

/-- A token of an expression. -/
structure Token where
  kind : TokenKind
  text : String
deriving DecidableEq, Repr

namespace Token

/-- A token, if its text is not too long; the position is reported otherwise. -/
def create (kind : TokenKind) (text : String) (position : Nat) : Except ExpressionError Token :=
  if maxTokenBytes < text.utf8ByteSize then .error (.tokenTooLong position text.utf8ByteSize)
  else .ok ⟨kind, text⟩

/-- Whether a token is a run of blanks. -/
def isBlank (t : Token) : Bool := t.kind == .blank

/-- The tokens of a list of kinds and texts, positioned by their place in it. -/
def createAll (texts : List (TokenKind × String)) : Except ExpressionError (List Token) :=
  texts.zipIdx.mapM fun ((kind, text), index) => create kind text index

end Token

end HartMonitor
