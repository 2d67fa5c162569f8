/-
# `HartMonitor.Text.Blank` — blank characters, trimming and splitting

A character is blank when it has the Unicode property `White_Space`: twenty-five
code points, six of them in ASCII.  Command lines are trimmed and cut at blanks in
this sense; the lexer of expressions has a narrower notion of its own.
-/

namespace HartMonitor.Text

/-- The ranges of the property `White_Space`, first and last code point. -/
def blankRanges : List (Nat × Nat) :=
  [(0x09, 0x0d), (0x20, 0x20), (0x85, 0x85), (0xa0, 0xa0), (0x1680, 0x1680), (0x2000, 0x200a),
   (0x2028, 0x2029), (0x202f, 0x202f), (0x205f, 0x205f), (0x3000, 0x3000)]

/-- Whether a character has the property `White_Space`. -/
def isBlank (c : Char) : Bool :=
  blankRanges.any fun r => r.1 ≤ c.toNat && c.toNat ≤ r.2

/-- The characters of a text between its leading and its trailing blanks. -/
def trimChars (cs : List Char) : List Char :=
  ((cs.dropWhile isBlank).reverse.dropWhile isBlank).reverse

def trim (text : String) : String :=
  String.ofList (trimChars text.toList)

/-- The part before the first blank and the part after it; `none` where there is no blank. -/
def splitAtBlank? (text : String) : Option (String × String) :=
  match text.toList.span (fun c => !isBlank c) with
  | (_, []) => none
  | (front, _ :: back) => some (String.ofList front, String.ofList back)

def firstWord? (text : String) : Option String :=
  match (text.toList.dropWhile isBlank).takeWhile (fun c => !isBlank c) with
  | [] => none
  | word => some (String.ofList word)

end HartMonitor.Text
