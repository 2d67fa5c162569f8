/-
# `HartMonitor.Instruction.Pattern` — words described bit by bit

A pattern is written as thirty-two symbols, the most significant bit first: `0` and
`1` for a fixed bit, `?` for a free one.  Blanks between symbols only separate
fields.  What is wrong with a text is a foreign character, wherever it stands, or
else a wrong number of symbols.
-/
import HartMonitor.Word

namespace HartMonitor

/-- What a pattern says about one bit. -/
inductive BitSymbol where
  | zero
  | one
  | free
deriving DecidableEq, Repr

/-- The symbol that a character stands for. -/
def BitSymbol.ofChar? : Char → Option BitSymbol
  | '0' => some zero
  | '1' => some one
  | '?' => some free
  | _ => none

/-- Why a text is not a pattern. -/
inductive PatternError where
  | foreignCharacter
  | wrongWidth
deriving DecidableEq, Repr

def PatternError.message : PatternError → String
  | foreignCharacter => "instruction pattern may only contain '0', '1', '?' and spaces"
  | wrongWidth => "instruction pattern must describe exactly 32 bits"

/-- The fixed bits of a word (`mask`) and their values (`expected`). -/
structure Pattern where
  mask : Word
  expected : Word
deriving DecidableEq, Repr

namespace Pattern

/-- Whether a word has the fixed bits of the pattern. -/
def Matches (p : Pattern) (inst : Word) : Prop :=
  inst &&& p.mask = p.expected

instance (p : Pattern) (inst : Word) : Decidable (p.Matches inst) :=
  inferInstanceAs (Decidable (_ = _))

def extend (p : Pattern) : BitSymbol → Pattern
  | .zero => ⟨p.mask <<< 1 ||| 1, p.expected <<< 1⟩
  | .one => ⟨p.mask <<< 1 ||| 1, p.expected <<< 1 ||| 1⟩
  | .free => ⟨p.mask <<< 1, p.expected <<< 1⟩

/-- The pattern of a row of symbols, the most significant bit first. -/
def ofSymbols (symbols : List BitSymbol) : Pattern :=
  symbols.foldl extend ⟨0, 0⟩

/-- The number of some symbols, counted in 32 bits: a count that is too large wraps around. -/
def width (symbols : List BitSymbol) : UInt32 :=
  symbols.foldl (fun count _ => count + 1) 0

/-- The symbols that some characters stand for, blanks left out. -/
def symbols? : List Char → Option (List BitSymbol)
  | [] => some []
  | c :: rest =>
    if c = ' ' then symbols? rest
    else (BitSymbol.ofChar? c).bind fun s => (symbols? rest).map (s :: ·)

def compile (text : String) : Except PatternError Pattern :=
  match symbols? text.toList with
  | none => .error .foreignCharacter
  | some symbols => if width symbols = 32 then .ok (ofSymbols symbols) else .error .wrongWidth

/-- The pattern that a well-formed text describes; a malformed one does not elaborate. -/
def ofText (text : String)
    (ok : (compile text).toOption.isSome = true := by decide +kernel) : Pattern :=
  (compile text).toOption.get ok

end Pattern

end HartMonitor
