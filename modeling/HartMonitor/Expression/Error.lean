/-
# `HartMonitor.Expression.Error` — why an expression has no value

The causes fall to three stages: the lexer's (`noMatch` to `tooManyTokens`), the
shape of the token list (`empty` to `misplacedUnary`, with the positions of tokens)
and the evaluation in a machine state (`invalidLiteral` to `divisionByZero`).  Two of
them end a run: a token list that overflows, and a division by zero.
-/
import HartMonitor.Memory.Physical
import HartMonitor.Text.Hex

namespace HartMonitor

open Text

/-- The cause that keeps a text from having a value. -/
inductive ExpressionError where
  /-- No rule of the lexer matches at a byte position. -/
  | noMatch (text : String) (position : Nat)
  /-- An operator that is recognised and not supported. -/
  | unsupported (op : String) (position : Nat)
  /-- A token whose text has too many bytes. -/
  | tokenTooLong (position len : Nat)
  /-- More tokens than a list may have. -/
  | tooManyTokens (max : Nat)
  /-- Nothing but blanks. -/
  | empty
  /-- An operand is missing. -/
  | missingOperand (index : Nat)
  /-- A single token that is no operand. -/
  | badOperand (text : String)
  /-- Parentheses that do not pair. -/
  | unbalanced (index : Nat)
  /-- Several tokens and no operator among them. -/
  | noOperator (first last : Nat)
  /-- A unary operator with something before it. -/
  | misplacedUnary (index : Nat)
  /-- A number that is no word. -/
  | invalidLiteral (text : String)
  /-- A name that no register has. -/
  | unknownRegister (name : String)
  /-- A dereference outside the physical range or the window of memory. -/
  | outsideWindow (addr : Word)
  | divisionByZero
deriving DecidableEq, Repr

namespace ExpressionError

/-- Whether a run in which the expression was evaluated cannot go on. -/
def isFatal : ExpressionError → Bool
  | tooManyTokens _ | divisionByZero => true
  | _ => false

/-- The wording of a cause. -/
def message : ExpressionError → String
  | noMatch text position => "no match at position " ++ toString position ++ " in '" ++ text ++ "'"
  | unsupported op position =>
    "operator '" ++ op ++ "' at position " ++ toString position ++ " is not supported"
  | tokenTooLong position len =>
    "token at position " ++ toString position ++ " is " ++ toString len ++ " bytes long"
  | tooManyTokens max => "expression has more than " ++ toString max ++ " tokens"
  | empty => "empty expression"
  | missingOperand index => "missing operand near token " ++ toString index
  | badOperand text => "'" ++ text ++ "' is not an operand"
  | unbalanced index => "unbalanced parentheses near token " ++ toString index
  | noOperator first last =>
    "no operator between tokens " ++ toString first ++ " and " ++ toString last
  | misplacedUnary index => "unary operator at token " ++ toString index ++ " has a left operand"
  | invalidLiteral text => "literal '" ++ text ++ "' does not fit in 32 bits"
  | unknownRegister name => "unknown register '" ++ name ++ "'"
  | outsideWindow addr =>
    "cannot dereference " ++ address addr ++ ": outside [" ++ address Physical.base ++ ", "
      ++ address Physical.last ++ "]"
  | divisionByZero => "division by zero"

end ExpressionError

end HartMonitor
