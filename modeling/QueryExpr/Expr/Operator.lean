/-
# Operators

The operators of expressions, the tokens that spell them, and how strongly
they bind. A word or a second spelling of an operator stands for the same
operator. All binary operators take their operands from the left but `??`,
which takes them from the right.

Key definitions: `Level`, `level?`, `rightBound`, `canonical`, `BinaryOp`,
`BinaryOp.ofToken?`, `BinaryOp.symbol`, `UnaryOp`.
-/
import QueryExpr.Token.Kind

namespace QueryExpr

/-- How strongly an operator binds, from the weakest on. -/
inductive Level
  | lowest
  | conditional
  | coalescing
  | disjunction
  | conjunction
  | equality
  | relational
  | additive
  | multiplicative
  | unary
  | primary
  deriving DecidableEq, Repr

namespace Level

/-- The place of the level in the order of strength. -/
def rank : Level → Nat
  | .lowest => 0
  | .conditional => 1
  | .coalescing => 2
  | .disjunction => 3
  | .conjunction => 4
  | .equality => 5
  | .relational => 6
  | .additive => 7
  | .multiplicative => 8
  | .unary => 9
  | .primary => 10

/-- The name of the level. -/
def name : Level → String
  | .lowest => "Lowest"
  | .conditional => "Conditional"
  | .coalescing => "NullCoalescing"
  | .disjunction => "LogicalOr"
  | .conjunction => "LogicalAnd"
  | .equality => "Equality"
  | .relational => "Relational"
  | .additive => "Additive"
  | .multiplicative => "Multiplicative"
  | .unary => "Unary"
  | .primary => "Primary"

end Level

namespace TokenKind

/-- The level of the binary operator that a token spells. -/
def level? : TokenKind → Option Level
  | .doubleQuestion => some .coalescing
  | .doubleBar | .orWord => some .disjunction
  | .doubleAmpersand | .andWord => some .conjunction
  | .doubleEqual | .equal | .notEqual | .lessGreater => some .equality
  | .less | .greater | .lessEqual | .greaterEqual | .inWord => some .relational
  | .plus | .minus => some .additive
  | .asterisk | .slash | .percent => some .multiplicative
  | _ => none

/-- The level that the operators inside a right operand have to pass. -/
def rightBound (k : TokenKind) (level : Level) : Level :=
  if k == .doubleQuestion then .conditional else level

/-- The first spelling of an operator that has several. -/
def canonical : TokenKind → TokenKind
  | .andWord => .doubleAmpersand
  | .orWord => .doubleBar
  | .equal => .doubleEqual
  | .lessGreater => .notEqual
  | k => k

end TokenKind

/-- The binary operators. -/
inductive BinaryOp
  | coalesce
  | or
  | and
  | equal
  | notEqual
  | less
  | lessEqual
  | greater
  | greaterEqual
  | add
  | subtract
  | multiply
  | divide
  | modulo
  deriving DecidableEq, Repr

namespace BinaryOp

/-- The operator that a token spells; `in` is none, for what follows it is not
always an operand. -/
def ofToken? (k : TokenKind) : Option BinaryOp :=
  match k.canonical with
  | .doubleQuestion => some .coalesce
  | .doubleBar => some .or
  | .doubleAmpersand => some .and
  | .doubleEqual => some .equal
  | .notEqual => some .notEqual
  | .less => some .less
  | .lessEqual => some .lessEqual
  | .greater => some .greater
  | .greaterEqual => some .greaterEqual
  | .plus => some .add
  | .minus => some .subtract
  | .asterisk => some .multiply
  | .slash => some .divide
  | .percent => some .modulo
  | _ => none

/-- The first spelling of the operator. -/
def symbol : BinaryOp → String
  | .coalesce => "??"
  | .or => "||"
  | .and => "&&"
  | .equal => "=="
  | .notEqual => "!="
  | .less => "<"
  | .lessEqual => "<="
  | .greater => ">"
  | .greaterEqual => ">="
  | .add => "+"
  | .subtract => "-"
  | .multiply => "*"
  | .divide => "/"
  | .modulo => "%"

end BinaryOp

/-- The unary operators. -/
inductive UnaryOp
  | negate
  | not
  deriving DecidableEq, Repr

namespace UnaryOp

/-- The operator that a token spells. -/
def ofToken? : TokenKind → Option UnaryOp
  | .minus => some .negate
  | .exclamation | .notWord => some .not
  | _ => none

/-- The first spelling of the operator. -/
def symbol : UnaryOp → String
  | .negate => "-"
  | .not => "!"

end UnaryOp
end QueryExpr
