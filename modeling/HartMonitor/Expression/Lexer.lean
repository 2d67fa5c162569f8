/-
# `HartMonitor.Expression.Lexer` — cutting a text into tokens

A rule describes lexemes by their shape: a fixed text, or a lead followed by a
nonempty run of characters of one class, as long as possible.  At every position the
first rule with a lexeme there decides.  All lexemes are ASCII, so a position counts
bytes and characters alike.

A star is a multiplication after the end of an operand and a dereference elsewhere.
Where several things are wrong at one position, the order is: no rule matches, the
operator is not supported, there are too many tokens, the token is too long.
-/
import HartMonitor.Expression.Token

namespace HartMonitor

/-- A class of ASCII characters. -/
inductive CharClass where
  | blank
  | decimalDigit
  | hexDigit
  | alphanumeric
deriving DecidableEq, Repr

/-- Whether a character is in a class. -/
def CharClass.has : CharClass → Char → Bool
  | blank, c => c == ' ' || c == '\t'
  | decimalDigit, c => c.isDigit
  | hexDigit, c => c.isDigit || ('a' ≤ c && c ≤ 'f') || ('A' ≤ c && c ≤ 'F')
  | alphanumeric, c => c.isAlphanum

/-- The shape of a lexeme. -/
inductive Shape where
  /-- Exactly this text. -/
  | exactly (text : String)
  /-- This lead, then as many characters of a class as there are, at least one. -/
  | run (lead : String) (cls : CharClass)
deriving DecidableEq, Repr

/-- The length of the lexeme of a shape at the head of a text, if there is one. -/
def Shape.lexemeLength? (cs : List Char) : Shape → Option Nat
  | exactly text => if text.toList.isPrefixOf cs then some text.length else none
  | run lead cls =>
    if lead.toList.isPrefixOf cs then
      match ((cs.drop lead.length).takeWhile cls.has).length with
      | 0 => none
      | n + 1 => some (lead.length + (n + 1))
    else none

/-- A rule of the lexer: the shape of its lexemes, that shape as a regular expression, and the kind
of token they give. -/
structure LexRule where
  regex : String
  kind : TokenKind
  shape : Shape
deriving DecidableEq, Repr

namespace Lexer

/-- The rules, the first with a lexeme deciding. -/
def rules : List LexRule := [
  ⟨"[ \\t]+",            .blank,      .run "" .blank⟩,
  ⟨"0x[0-9a-fA-F]+",     .hex,        .run "0x" .hexDigit⟩,
  ⟨"[0-9]+",             .decimal,    .run "" .decimalDigit⟩,
  ⟨"\\$[0-9a-zA-Z]+",    .register,   .run "$" .alphanumeric⟩,
  ⟨"==",                 .eq,         .exactly "=="⟩,
  ⟨"!=",                 .neq,        .exactly "!="⟩,
  ⟨"!",                  .not,        .exactly "!"⟩,
  ⟨"&&",                 .and,        .exactly "&&"⟩,
  ⟨"||",                 .or,         .exactly "||"⟩,
  ⟨"+",                  .add,        .exactly "+"⟩,
  ⟨"-",                  .sub,        .exactly "-"⟩,
  ⟨"/",                  .div,        .exactly "/"⟩,
  ⟨"*",                  .mul,        .exactly "*"⟩,
  ⟨"(",                  .leftParen,  .exactly "("⟩,
  ⟨")",                  .rightParen, .exactly ")"⟩]

def maxTokens : Nat := 32

/-- The first rule with a nonempty lexeme at the head of a text, and the length of that lexeme. -/
def lexeme? (cs : List Char) : Option (LexRule × Nat) :=
  rules.findSome? fun rule =>
    ((rule.shape.lexemeLength? cs).filter (0 < ·)).map fun len => (rule, len)

/-- The kind of a token by the rule that gave it and the kind of the token before it, runs of
blanks left out: a star that follows no operand is a dereference. -/
def kindAfter (previous : Option TokenKind) (kind : TokenKind) : TokenKind :=
  match kind with
  | .mul => if (previous.map TokenKind.endsOperand).getD false then .mul else .deref
  | k => k

/-- The text that a token keeps of its lexeme: all of it, or nothing for a run of blanks. -/
def keptText (kind : TokenKind) (lexeme : List Char) : String :=
  match kind with
  | .blank => ""
  | _ => String.ofList lexeme

/-- What a token leaves for the next one to look back to. -/
def lookBack (previous : Option TokenKind) (kind : TokenKind) : Option TokenKind :=
  match kind with
  | .blank => previous
  | k => some k

/-- The tokens of the rest `cs` of a text, of which `position` bytes are behind, with room for
`room` tokens. -/
def scan (text : String) (room : Nat) (previous : Option TokenKind) (position : Nat)
    (cs : List Char) : Except ExpressionError (List Token) :=
  if cs.isEmpty then .ok []
  else
    match lexeme? cs with
    | none => .error (.noMatch text position)
    | some (rule, len) =>
      if rule.kind = .not then .error (.unsupported "!" position)
      else
        match room with
        | 0 => .error (.tooManyTokens maxTokens)
        | room + 1 => do
          let kind := kindAfter previous rule.kind
          let token ← Token.create kind (keptText kind (cs.take len)) position
          let rest ← scan text room (lookBack previous kind) (position + len) (cs.drop len)
          return token :: rest

end Lexer

def tokenize (text : String) : Except ExpressionError (List Token) :=
  Lexer.scan text Lexer.maxTokens none 0 text.toList

end HartMonitor
