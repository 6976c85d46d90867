/-
# Kinds of tokens

The kinds of tokens an expression is made of, the classes they fall into, and
the words and symbols they are written with. Keywords are written in any
case, and count as names after a dot and in projections.

Key definitions: `TokenKind`, `TokenKind.name`, `TokenKind.keyword?`,
`TokenKind.class`, `TokenKind.isNameLike`, `TokenKind.symbolText?`.
Key theorems: `TokenKind.keyword?_isKeyword`.
-/

namespace QueryExpr

/-- The kind of a token. -/
inductive TokenKind
  /-- The kind before the first token is read. -/
  | unknown
  | endOfText
  | integer
  | real
  | string
  | char
  | identifier
  | openBrace
  | closeBrace
  | openParen
  | closeParen
  | openBracket
  | closeBracket
  | dot
  | comma
  | question
  | colon
  | less
  | greater
  | lessEqual
  | greaterEqual
  | equal
  | doubleEqual
  | notEqual
  | lessGreater
  | plus
  | minus
  | asterisk
  | slash
  | percent
  | exclamation
  | doubleAmpersand
  | doubleBar
  | doubleQuestion
  | andWord
  | asWord
  | falseWord
  | iifWord
  | inWord
  | itWord
  | newWord
  | notWord
  | nullWord
  | orWord
  | trueWord
  deriving DecidableEq, Repr, Inhabited

/-- The coarse classes of tokens. -/
inductive TokenClass
  | identifier
  | integer
  | real
  | string
  | char
  | operator
  | punctuation
  | finish
  deriving DecidableEq, Repr

namespace TokenKind

/-- The canonical spelling of a keyword. -/
def keywordText? : TokenKind → Option String
  | .andWord => some "and"
  | .asWord => some "as"
  | .falseWord => some "false"
  | .iifWord => some "iif"
  | .inWord => some "in"
  | .itWord => some "it"
  | .newWord => some "new"
  | .notWord => some "not"
  | .nullWord => some "null"
  | .orWord => some "or"
  | .trueWord => some "true"
  | _ => none

/-- The spelling of brackets and separators. -/
def punctuationText? : TokenKind → Option String
  | .openBrace => some "\x7b"
  | .closeBrace => some "\x7d"
  | .openParen => some "("
  | .closeParen => some ")"
  | .openBracket => some "["
  | .closeBracket => some "]"
  | .dot => some "."
  | .comma => some ","
  | .question => some "?"
  | .colon => some ":"
  | _ => none

/-- The spelling of an operator. -/
def operatorText? : TokenKind → Option String
  | .less => some "<"
  | .greater => some ">"
  | .lessEqual => some "<="
  | .greaterEqual => some ">="
  | .equal => some "="
  | .doubleEqual => some "=="
  | .notEqual => some "!="
  | .lessGreater => some "<>"
  | .plus => some "+"
  | .minus => some "-"
  | .asterisk => some "*"
  | .slash => some "/"
  | .percent => some "%"
  | .exclamation => some "!"
  | .doubleAmpersand => some "&&"
  | .doubleBar => some "||"
  | .doubleQuestion => some "??"
  | _ => none

/-- The spelling of a token that is written with symbols. -/
def symbolText? (k : TokenKind) : Option String := k.punctuationText?.or k.operatorText?

/-- Whether the token is a keyword. -/
def isKeyword (k : TokenKind) : Bool := k.keywordText?.isSome

/-- Whether the token is a bracket or a separator. -/
def isPunctuation (k : TokenKind) : Bool := k.punctuationText?.isSome

/-- Whether the token is an operator written with symbols. -/
def isOperator (k : TokenKind) : Bool := k.operatorText?.isSome

/-- Whether the token is a literal with a content of its own. -/
def isLiteral : TokenKind → Bool
  | .integer | .real | .string | .char => true
  | _ => false

/-- Whether the token can name a member or a projected property. -/
def isNameLike (k : TokenKind) : Bool := k == .identifier || k.isKeyword

/-- The class of a token. -/
def «class» : TokenKind → TokenClass
  | .integer => .integer
  | .real => .real
  | .string => .string
  | .char => .char
  | .endOfText => .finish
  | k => if k.isNameLike then .identifier else if k.isOperator then .operator else .punctuation

/-- The keyword that a word spells, in any case. -/
def keyword? (word : List Char) : Option TokenKind :=
  match String.ofList (word.map Char.toLower) with
  | "and" => some .andWord
  | "as" => some .asWord
  | "false" => some .falseWord
  | "iif" => some .iifWord
  | "in" => some .inWord
  | "it" => some .itWord
  | "new" => some .newWord
  | "not" => some .notWord
  | "null" => some .nullWord
  | "or" => some .orWord
  | "true" => some .trueWord
  | _ => none

theorem keyword?_isKeyword {word : List Char} {k : TokenKind} (h : keyword? word = some k) :
    k.isKeyword = true := by
  unfold keyword? at h
  split at h <;> simp_all <;> subst h <;> rfl

/-- The name of the kind in a listing of tokens. -/
def name : TokenKind → String
  | .unknown => "Unknown"
  | .endOfText => "EndOfFileToken"
  | .integer => "IntegerLiteral"
  | .real => "RealLiteral"
  | .string => "StringLiteral"
  | .char => "CharLiteral"
  | .identifier => "Identifier"
  | .openBrace => "OpenBraceToken"
  | .closeBrace => "CloseBraceToken"
  | .openParen => "OpenParenToken"
  | .closeParen => "CloseParenToken"
  | .openBracket => "OpenBracketToken"
  | .closeBracket => "CloseBracketToken"
  | .dot => "DotToken"
  | .comma => "CommaToken"
  | .question => "QuestionToken"
  | .colon => "ColonToken"
  | .less => "LessThanToken"
  | .greater => "GreaterThanToken"
  | .lessEqual => "LessThanEqualsToken"
  | .greaterEqual => "GreaterThanEqualsToken"
  | .equal => "EqualsToken"
  | .doubleEqual => "EqualsEqualsToken"
  | .notEqual => "ExclamationEqualsToken"
  | .lessGreater => "LessThanGreaterThanToken"
  | .plus => "PlusToken"
  | .minus => "MinusToken"
  | .asterisk => "AsteriskToken"
  | .slash => "SlashToken"
  | .percent => "PercentToken"
  | .exclamation => "ExclamationToken"
  | .doubleAmpersand => "AmpersandAmpersandToken"
  | .doubleBar => "BarBarToken"
  | .doubleQuestion => "QuestionQuestionToken"
  | .andWord => "AndKeyword"
  | .asWord => "AsKeyword"
  | .falseWord => "FalseKeyword"
  | .iifWord => "IifKeyword"
  | .inWord => "InKeyword"
  | .itWord => "ItKeyword"
  | .newWord => "NewKeyword"
  | .notWord => "NotKeyword"
  | .nullWord => "NullKeyword"
  | .orWord => "OrKeyword"
  | .trueWord => "TrueKeyword"

/-- The token as it is named in messages. -/
def display (k : TokenKind) : String :=
  match k.symbolText?.or k.keywordText? with
  | some text => text
  | none =>
    match k with
    | .endOfText => "end of expression"
    | .identifier => "identifier"
    | _ => k.name

end TokenKind
end QueryExpr
