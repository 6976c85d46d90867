/-
# The token at the start of a text

One token is read from the front of a text. Its length is the number of
characters it is written with, its value what it stands for: the content of a
quoted literal, the spelling of a number or a word, and nothing for symbols.

Symbols take two characters where the two make a symbol. A quote inside a
quoted literal is written twice. A fraction needs a digit after its point, so
that a point may also follow a number; an exponent needs a digit after its
mark and sign.

Key definitions: `Lexeme`, `lexeme`, `symbol?`, `quotedBody?`, `number`.
-/
import QueryExpr.Failure
import QueryExpr.Token.Kind

namespace QueryExpr

/-- A token without its place: its kind, what it stands for, and the number of
characters it is written with. -/
structure Lexeme where
  kind : TokenKind
  value : List Char
  length : Nat
  deriving DecidableEq

namespace Lexeme

/-- The number of leading characters of a class. -/
def count (p : Char → Bool) (cs : List Char) : Nat := (cs.takeWhile p).length

/-- The symbol that starts with `c`, and its length, when `next` follows. -/
def symbol? (c : Char) (next : Option Char) : Option (TokenKind × Nat) :=
  match c with
  | '(' => some (.openParen, 1)
  | ')' => some (.closeParen, 1)
  | '\x7b' => some (.openBrace, 1)
  | '\x7d' => some (.closeBrace, 1)
  | '[' => some (.openBracket, 1)
  | ']' => some (.closeBracket, 1)
  | ',' => some (.comma, 1)
  | '.' => some (.dot, 1)
  | ':' => some (.colon, 1)
  | '+' => some (.plus, 1)
  | '-' => some (.minus, 1)
  | '*' => some (.asterisk, 1)
  | '/' => some (.slash, 1)
  | '%' => some (.percent, 1)
  | '?' => some (if next == some '?' then (.doubleQuestion, 2) else (.question, 1))
  | '!' => some (if next == some '=' then (.notEqual, 2) else (.exclamation, 1))
  | '=' => some (if next == some '=' then (.doubleEqual, 2) else (.equal, 1))
  | '>' => some (if next == some '=' then (.greaterEqual, 2) else (.greater, 1))
  | '<' =>
    some (if next == some '=' then (.lessEqual, 2)
      else if next == some '>' then (.lessGreater, 2) else (.less, 1))
  | '&' => if next == some '&' then some (.doubleAmpersand, 2) else none
  | '|' => if next == some '|' then some (.doubleBar, 2) else none
  | _ => none

/-- The content of a quoted literal behind its opening quote, and the number
of characters up to and with the closing quote. -/
def quotedBody? (quote : Char) : List Char → Option (List Char × Nat)
  | [] => none
  | c :: cs =>
    if c == quote then
      match cs with
      | [] => some ([], 1)
      | d :: ds =>
        if d == quote then (quotedBody? quote ds).map fun b => (quote :: b.1, b.2 + 2)
        else some ([], 1)
    else (quotedBody? quote cs).map fun b => (c :: b.1, b.2 + 1)

/-- A letter that can be part of an integer's suffix. -/
def isIntegerSuffix (c : Char) : Bool := c == 'u' || c == 'U' || c == 'l' || c == 'L'

/-- A letter that is a real number's suffix. -/
def isRealSuffix (c : Char) : Bool :=
  c == 'f' || c == 'F' || c == 'd' || c == 'D' || c == 'm' || c == 'M'

/-- The length of an integer's suffix: one letter, or two different ones. -/
def integerSuffixLength : List Char → Nat
  | a :: b :: _ =>
    if isIntegerSuffix a then
      if isIntegerSuffix b && a.toLower != b.toLower then 2 else 1
    else 0
  | [a] => if isIntegerSuffix a then 1 else 0
  | [] => 0

/-- The length of a fraction, its point included. -/
def fractionLength : List Char → Nat
  | '.' :: cs =>
    let digits := count Char.isDigit cs
    if digits == 0 then 0 else digits + 1
  | _ => 0

/-- The length of a sign. -/
def signLength : List Char → Nat
  | c :: _ => if c == '+' || c == '-' then 1 else 0
  | [] => 0

/-- The length of an exponent, its mark included. Without a digit it is a
fault, found behind the sign. -/
def exponentLength : List Char → Except Nat Nat
  | [] => .ok 0
  | c :: cs =>
    if c == 'e' || c == 'E' then
      let mark := 1 + signLength cs
      let digits := count Char.isDigit (cs.drop (signLength cs))
      if digits == 0 then .error mark else .ok (mark + digits)
    else .ok 0

/-- The length of a real number's suffix. -/
def realSuffixLength : List Char → Nat
  | c :: _ => if isRealSuffix c then 1 else 0
  | [] => 0

/-- The number at the start of `cs`, as a lexeme of `n` characters. -/
def spelled (kind : TokenKind) (cs : List Char) (n : Nat) : Lexeme := ⟨kind, cs.take n, n⟩

/-- The hexadecimal integer at the start of `cs`, which starts with the mark. -/
def hexadecimal (cs : List Char) : Except (Cause × Nat) Lexeme :=
  let digits := count Text.isHexDigit (cs.drop 2)
  if digits == 0 then .error (.hexDigitExpected, 2)
  else
    let n := 2 + digits
    .ok (spelled .integer cs (n + integerSuffixLength (cs.drop n)))

/-- The decimal number at the start of `cs`. -/
def decimal (cs : List Char) : Except (Cause × Nat) Lexeme :=
  let whole := count Char.isDigit cs
  let fraction := fractionLength (cs.drop whole)
  let n := whole + fraction
  match exponentLength (cs.drop n) with
  | .error fault => .error (.digitExpected, n + fault)
  | .ok exponent =>
    let m := n + exponent
    let suffix := realSuffixLength (cs.drop m)
    if 0 < suffix then .ok (spelled .real cs (m + suffix))
    else if 0 < fraction || 0 < exponent then .ok (spelled .real cs m)
    else .ok (spelled .integer cs (m + integerSuffixLength (cs.drop m)))

/-- The number at the start of `cs`, which starts with a digit. -/
def number (cs : List Char) : Except (Cause × Nat) Lexeme :=
  match cs with
  | '0' :: x :: _ => if x == 'x' || x == 'X' then hexadecimal cs else decimal cs
  | _ => decimal cs

/-- The word that starts with `c`: a keyword or an identifier. -/
def word (c : Char) (cs : List Char) : Lexeme :=
  let text := c :: cs.takeWhile Text.isNamePart
  ⟨(TokenKind.keyword? text).getD .identifier, text, text.length⟩

end Lexeme

/-- The token that starts with `c` and goes on into `cs`. A fault is its cause
and the number of characters it covers. -/
def lexeme (c : Char) (cs : List Char) : Except (Cause × Nat) Lexeme :=
  match Lexeme.symbol? c cs.head? with
  | some (kind, n) => .ok ⟨kind, [], n⟩
  | none =>
    if c == '"' || c == '\'' then
      match Lexeme.quotedBody? c cs with
      | some (value, n) => .ok ⟨if c == '"' then .string else .char, value, n + 1⟩
      | none => .error (.unterminatedLiteral, cs.length + 1)
    else if c.isDigit then Lexeme.number (c :: cs)
    else if Text.isNameStart c then .ok (Lexeme.word c cs)
    else .error (.invalidCharacter (String.singleton c), 1)

end QueryExpr
