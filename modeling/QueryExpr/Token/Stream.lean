/-
# The tokens of a text

A text, or a stretch of it, is read as a list of tokens with nothing but
blanks between them. Reading ends at the end of the stretch, or at the first
fault. A `Scanner` reads the same tokens one at a time, and can go on behind
a fault.

Key definitions: `Token`, `Tokens`, `readTokens`, `tokens`, `tokensIn`,
`Scanner`, `Scanner.scan`.
Key theorems: `readTokens_nil`, `Scanner.ofRange_position`.
-/
import QueryExpr.Token.Lexeme

namespace QueryExpr

/-- A token: its kind, where it is, what it stands for, and how it is written. -/
structure Token where
  kind : TokenKind
  span : Span
  value : String
  written : String
  deriving DecidableEq, Inhabited

namespace Token

/-- The position behind the token. -/
def stop (t : Token) : Nat := t.span.stop

/-- The token that ends a text at `position`. -/
def endAt (position : Nat) : Token := ⟨.endOfText, .empty position, "", ""⟩

/-- The token that a lexeme at the front of `cs` is, at `position`. -/
def ofLexeme (position : Nat) (cs : List Char) (l : Lexeme) : Token :=
  ⟨l.kind, ⟨position, l.length⟩, String.ofList l.value, String.ofList (cs.take l.length)⟩

/-- The token moved `distance` characters to the right. -/
def shift (distance : Nat) (t : Token) : Token := { t with span := t.span.shift distance }

end Token

/-- The tokens of a text, and how they end: at a position, or with a fault. -/
structure Tokens where
  list : List Token
  ending : Except Failure Nat

/-- Reads the tokens of the rest of a text from `position` on. The first
`skip` characters belong to a token already read. -/
def readTokens (position : Nat) : Nat → List Char → Tokens
  | _, [] => ⟨[], .ok position⟩
  | skip + 1, _ :: cs => readTokens (position + 1) skip cs
  | 0, c :: cs =>
    if Text.isBlank c then readTokens (position + 1) 0 cs
    else
      match lexeme c cs with
      | .error (cause, n) => ⟨[], .error ⟨cause, ⟨position, n⟩⟩⟩
      | .ok l =>
        let rest := readTokens (position + 1) (l.length - 1) cs
        ⟨Token.ofLexeme position (c :: cs) l :: rest.list, rest.ending⟩

theorem readTokens_nil (position skip : Nat) :
    readTokens position skip [] = ⟨[], .ok position⟩ := by
  cases skip <;> rfl

/-- The tokens of a whole text. -/
def tokens (text : List Char) : Tokens := readTokens 0 0 text

/-- The characters of `text` from `start` up to `stop`; positions behind the
end count as the end, and a start behind the stop as the stop. -/
def stretch (text : List Char) (start stop : Nat) : List Char :=
  (text.take stop).drop start

/-- The position that `start` counts as in the stretch of `text` up to `stop`. -/
def stretchStart (text : List Char) (start stop : Nat) : Nat :=
  min start (min stop text.length)

/-- The tokens of a stretch of a text, at their places in the whole. -/
def tokensIn (text : List Char) (start stop : Nat) : Tokens :=
  readTokens (stretchStart text start stop) 0 (stretch text start stop)

/-- A reader of tokens: the characters still to read, their position, and the
current token. -/
structure Scanner where
  rest : List Char
  position : Nat
  current : Token

namespace Scanner

/-- A reader of the stretch of `text` from `start` up to `stop`. -/
def ofRange (text : List Char) (start stop : Nat) : Scanner :=
  let first := stretchStart text start stop
  ⟨stretch text start stop, first, ⟨.unknown, .empty first, "", ""⟩⟩

/-- A reader of a whole text. -/
def ofText (text : List Char) : Scanner := ofRange text 0 text.length

theorem ofRange_position (text : List Char) (start stop : Nat) :
    (ofRange text start stop).position = min start (min stop text.length) := rfl

/-- The reader behind the first `n` of the characters `cs`, which start at
`first` and are its current token. -/
def behind (kind : TokenKind) (first : Nat) (cs : List Char) (value : String) (n : Nat) : Scanner :=
  ⟨cs.drop n, first + n, ⟨kind, ⟨first, n⟩, value, String.ofList (cs.take n)⟩⟩

/-- Reads the next token. A fault leaves the kind of the current token as it
was, and its place is that of the fault. -/
def scan (s : Scanner) : Except Failure TokenKind × Scanner :=
  let cs := s.rest.dropWhile Text.isBlank
  let first := s.position + (s.rest.length - cs.length)
  match cs with
  | [] => (.ok .endOfText, behind .endOfText first [] "" 0)
  | c :: tail =>
    match lexeme c tail with
    | .error (cause, n) =>
      (.error ⟨cause, ⟨first, n⟩⟩, behind s.current.kind first cs "" n)
    | .ok l => (.ok l.kind, behind l.kind first cs (String.ofList l.value) l.length)

end Scanner
end QueryExpr
