/-
# Classes of characters

Which characters separate tokens, which make up names, and which count as
part of a word. The first two serve the tokens of an expression; the last
one and `isWhiteSpace` serve the reading of ordering directions.

Key definitions: `inBounds`, `isWhiteSpace`, `isBlank`, `isNameStart`,
`isNamePart`, `isPropertyName`, `isWordPart`.
Key theorems: `inBounds_of_lt`.
-/
import QueryExpr.Text.WordTable
import QueryExpr.Text.LetterTable

namespace QueryExpr.Text

/-- Whether `n` lies in the set whose members start and stop, in turn, at the
ascending `bounds`. -/
def inBounds : List Nat → Nat → Bool
  | [], _ => false
  | b :: bounds, n => if n < b then false else !inBounds bounds n

theorem inBounds_of_lt {b n : Nat} {bounds : List Nat} (h : n < b) :
    inBounds (b :: bounds) n = false := by
  simp [inBounds, h]

/-- White space of any script. -/
def isWhiteSpace (c : Char) : Bool := inBounds whiteSpaceBounds c.toNat

/-- What may stand between two tokens: white space and the byte order mark. -/
def isBlank (c : Char) : Bool := isWhiteSpace c || c == '\ufeff'

/-- A letter or a number of any script. -/
def isAlphanumeric (c : Char) : Bool := inBounds alphanumericBounds c.toNat

/-- A character of a direction word or of what such a word may be part of. -/
def isWordPart (c : Char) : Bool := isAlphanumeric c || c == '_'

/-- The property `XID_Start`. -/
def isXidStart (c : Char) : Bool := inBounds nameStartBounds c.toNat

/-- The property `XID_Continue`. -/
def isXidContinue (c : Char) : Bool := inBounds namePartBounds c.toNat

/-- A hexadecimal digit in either case. -/
def isHexDigit (c : Char) : Bool :=
  c.isDigit || ('a' ≤ c && c ≤ 'f') || ('A' ≤ c && c ≤ 'F')

/-- The first character of a name. -/
def isNameStart (c : Char) : Bool := c == '_' || c.isAlpha || (0x7f < c.toNat && isXidStart c)

/-- A later character of a name. -/
def isNamePart (c : Char) : Bool :=
  c == '_' || c.isAlphanum || (0x7f < c.toNat && isXidContinue c)

/-- The names that a property of a record may have. -/
def isPropertyName : List Char → Bool
  | [] => false
  | c :: cs => (c == '_' || isXidStart c) && cs.all isXidContinue

end QueryExpr.Text
