/-
# Reading expressions

An expression is read from the tokens of a text by one step per form. Binary
operators are read by climbing: a loop takes operators as long as they bind
more strongly than a bound, and reads each right operand with a bound of its
own. What stands between brackets or behind a question mark is an expression
again; the steps take the reader of such an expression as an argument, and
`expression` ties the knot.

Every form that lets the tree grow deeper counts against a limit: a
conditional and a unary operator once, a binary operator once for the chain
and once for its right operand, a suffix once for the chain.

The numbers named `fuel` bound the loops by the number of tokens left; with
no token left there is nothing more to take.

Key definitions: `Grammar`, `Reader.primary`, `Reader.suffixes`,
`Reader.unary`, `Reader.climb`, `Reader.conditional`, `Reader.expression`,
`Expr.parse`, `Expr.parseIn`.
Key theorems: `Reader.expression_succ`.
-/
import QueryExpr.Expr
import QueryExpr.Expr.Cursor
import QueryExpr.Number.Reading

namespace QueryExpr

/-- What reading depends on: the limit of the nesting, and the names that are
declared as parameters and so are no type names. -/
structure Grammar where
  limit : Nat
  declared : String → Bool

namespace Grammar

/-- The type that a name stands for, unless a parameter has the name. -/
def typeOf? (g : Grammar) (name : String) : Option KnownType :=
  if g.declared name then none else KnownType.ofName? name

end Grammar

namespace Reader

/-- The current token as a name. -/
def name : Reader Name := do
  let t ← current
  return ⟨t.value, t.span⟩

/-- Reads expressions with commas between them, and the closing token. -/
def itemsUpTo {α : Type} (close : TokenKind) (item : Reader α) : (fuel : Nat) → Reader (List α)
  | 0 => do
    let x ← item
    expect close
    return [x]
  | fuel + 1 => do
    let x ← item
    if (← kind) == .comma then
      advance
      let xs ← itemsUpTo close item fuel
      return x :: xs
    else
      expect close
      return [x]

/-- Reads a possibly empty list behind its opening token. -/
def listUpTo {α : Type} (close : TokenKind) (item : Reader α) (fuel : Nat) : Reader (List α) := do
  if (← kind) == close then
    advance
    return []
  else itemsUpTo close item fuel

/-! ### Literals -/

/-- The letters of an integer's suffix. -/
def integerSuffix (letters : List Char) : IntegerSuffix :=
  match letters.map Char.toUpper with
  | ['U'] => .unsigned
  | ['L'] => .long
  | ['U', 'L'] | ['L', 'U'] => .unsignedLong
  | _ => .none

/-- The number that an integer literal is written for, and its suffix. -/
def integerOf (text : List Char) : Nat × IntegerSuffix :=
  let suffix := (text.reverse.takeWhile Lexeme.isIntegerSuffix).reverse
  let digits := text.take (text.length - suffix.length)
  let magnitude :=
    match digits with
    | '0' :: x :: hex => if x == 'x' || x == 'X' then naturalOf 16 hex else naturalOf 10 digits
    | _ => naturalOf 10 digits
  (magnitude, integerSuffix suffix)

/-- The text of a real literal without its suffix, and the suffix. -/
def realOf (text : List Char) : List Char × RealSuffix :=
  match text.getLast? with
  | some c =>
    if c == 'f' || c == 'F' then (text.dropLast, .single)
    else if c == 'd' || c == 'D' then (text.dropLast, .double)
    else if c == 'm' || c == 'M' then (text.dropLast, .decimal)
    else (text, .none)
  | none => (text, .none)

/-- The number that a literal token stands for, behind a minus sign if
`negative` holds. -/
def numberOf (t : Token) (negative : Bool) : Except Cause Literal :=
  if t.kind == .integer then
    let (magnitude, suffix) := integerOf t.value.toList
    if IntType.holds .uint64 magnitude then .ok (.integer magnitude negative suffix)
    else .error (.integerLiteral t.value)
  else
    let (text, suffix) := realOf t.value.toList
    match doubleOfText? text with
    | some v => .ok (.real (if negative then -v else v) suffix)
    | none => .error (.realLiteral t.value)

/-- Reads a number. `minus` is the position of a minus sign that belongs to
it. -/
def number (minus : Option Nat) : Reader Expr := do
  let t ← current
  let span := Span.ofBounds (minus.getD t.span.start) t.stop
  match numberOf t minus.isSome with
  | .error cause => fail cause span
  | .ok value =>
    advance
    return .literal value (if minus.isSome then "-" ++ t.value else t.value) span

/-- Reads a token that is a literal by itself. -/
def literal (value : Literal) : Reader Expr := do
  let t ← current
  advance
  return .literal value t.written t.span

/-- Reads a character literal. -/
def character : Reader Expr := do
  let t ← current
  match t.value.toList with
  | [c] => literal (.char c)
  | _ => fail .characterCount t.span

/-! ### Names, calls and constructions -/

/-- Reads what starts with a bare name: a call, a conversion, a type name or
the name itself. -/
def named (g : Grammar) (expr : Reader Expr) (fuel : Nat) : Reader Expr := do
  let n ← name
  advance
  let called := (← kind) == .openParen
  match g.typeOf? n.text with
  | some known =>
    if called then
      advance
      let arguments ← listUpTo .closeParen expr fuel
      return .conversion ⟨n, known⟩ arguments (← spanFrom n.span.start)
    else return .typeName ⟨n, known⟩
  | none =>
    if called then
      advance
      let arguments ← listUpTo .closeParen expr fuel
      return .call n arguments (← spanFrom n.span.start)
    else return .name n

/-- Reads the arguments behind the word `iif`. -/
def iif (expr : Reader Expr) (fuel : Nat) : Reader Expr := do
  let t ← current
  advance
  expect .openParen
  let arguments ← listUpTo .closeParen expr fuel
  return .call ⟨"iif", t.span⟩ arguments (← spanFrom t.span.start)

/-- Reads one entry of a projection: `Name: value`, `value as Name`, or a
value that has a name of its own. -/
def projection (expr : Reader Expr) : Reader (Name × Expr) := do
  if (← kind).isNameLike && (← get).next? == some .colon then
    let n ← name
    advance
    advance
    let e ← expr
    return (n, e)
  else
    let e ← expr
    if (← kind) == .asWord then
      advance
      if !(← kind).isNameLike then fail .nameExpected (← current).span
      let n ← name
      advance
      return (n, e)
    else
      match e.propertyName? with
      | some text => return (⟨text, e.span⟩, e)
      | none => fail .asClauseMissing e.span

/-- Reads the entries of a projection that started at `start`. -/
def newRecord (expr : Reader Expr) (fuel start : Nat) (close : TokenKind) : Reader Expr := do
  let entries ← listUpTo close (projection expr) fuel
  return .newRecord (entries.map (·.1)) (entries.map (·.2)) (← spanFrom start)

/-- Reads the elements of an array that started at `start`. -/
def newArray (expr : Reader Expr) (fuel start : Nat) (type : Option TypeName) : Reader Expr := do
  expect .openBrace
  let elements ← listUpTo .closeBrace expr fuel
  return .newArray type elements (← spanFrom start)

/-- Reads what follows the word `new`: a projection or an array. -/
def construction (expr : Reader Expr) (fuel : Nat) : Reader Expr := do
  let start := (← current).span.start
  advance
  let t ← current
  match t.kind with
  | .openBrace =>
    advance
    newRecord expr fuel start .closeBrace
  | .openParen =>
    advance
    newRecord expr fuel start .closeParen
  | .openBracket =>
    advance
    expect .closeBracket
    newArray expr fuel start none
  | .identifier =>
    match KnownType.ofName? t.value with
    | some (.prim p) =>
      advance
      if (← kind) == .openBracket then
        advance
        expect .closeBracket
      newArray expr fuel start (some ⟨⟨t.value, t.span⟩, .prim p⟩)
    | _ => fail (.expected "\x7b") t.span
  | _ => fail (.expected "\x7b") t.span

/-! ### From primary expressions to conditionals -/

/-- Reads an expression without operators and suffixes. -/
def primary (g : Grammar) (expr : Reader Expr) (fuel : Nat) : Reader Expr := do
  let t ← current
  match t.kind with
  | .integer | .real => number none
  | .string => literal (.string t.value)
  | .char => character
  | .trueWord => literal (.boolean true)
  | .falseWord => literal (.boolean false)
  | .nullWord => literal .null
  | .itWord =>
    advance
    return .name ⟨"it", t.span⟩
  | .iifWord => iif expr fuel
  | .newWord => construction expr fuel
  | .openParen =>
    advance
    let e ← expr
    expect .closeParen
    return e
  | .identifier => named g expr fuel
  | _ => unexpected

/-- Reads a member access or a method call behind a point. -/
def memberSuffix (expr : Reader Expr) (fuel : Nat) (target : Expr) : Reader Expr := do
  advance
  if !(← kind).isNameLike then fail .nameExpected (← current).span
  let n ← name
  advance
  if (← kind) == .openParen then
    advance
    let arguments ← listUpTo .closeParen expr fuel
    return .callOn target n arguments (← spanFrom target.span.start)
  else return .member target n (.ofBounds target.span.start n.span.stop)

/-- Reads the arguments of an indexer behind its bracket. -/
def indexSuffix (expr : Reader Expr) (fuel : Nat) (target : Expr) : Reader Expr := do
  let bracket := (← current).span
  advance
  let arguments ← listUpTo .closeBracket expr fuel
  if arguments.isEmpty then fail .expressionExpected bracket
  return .index target arguments (← spanFrom target.span.start)

/-- Reads the suffixes behind an expression, one link of a chain each. -/
def suffixChain (g : Grammar) (expr : Reader Expr) : (fuel : Nat) → Expr → Reader Expr
  | 0, target => return target
  | fuel + 1, target => do
    match ← kind with
    | .dot =>
      charge g.limit
      suffixChain g expr fuel (← memberSuffix expr fuel target)
    | .openBracket =>
      charge g.limit
      suffixChain g expr fuel (← indexSuffix expr fuel target)
    | .openParen => fail .notInvocable (← current).span
    | _ => return target

/-- Reads the suffixes behind an expression. -/
def suffixes (g : Grammar) (expr : Reader Expr) (fuel : Nat) (target : Expr) : Reader Expr :=
  charging (suffixChain g expr fuel target)

/-- Reads unary operators and their operand. A minus sign before a number
becomes part of it. -/
def unary (g : Grammar) (expr : Reader Expr) : (fuel : Nat) → Reader Expr
  | 0 => do suffixes g expr 0 (← primary g expr 0)
  | fuel + 1 => do
    let t ← current
    match UnaryOp.ofToken? t.kind with
    | none => suffixes g expr fuel (← primary g expr fuel)
    | some op =>
      let next := (← get).next?
      if op == .negate && (next == some .integer || next == some .real) then
        advance
        suffixes g expr fuel (← number (some t.span.start))
      else
        advance
        let operand ← within g.limit (unary g expr fuel)
        return .unary op operand (.ofBounds t.span.start operand.span.stop)

mutual
/-- Reads operands and the binary operators between them that bind more
strongly than `bound`. -/
def climb (g : Grammar) (expr : Reader Expr) : (fuel : Nat) → (bound : Level) → Reader Expr
  | 0, _ => unary g expr 0
  | fuel + 1, bound => charging do
    let left ← unary g expr (fuel + 1)
    climbChain g expr fuel bound left

/-- Reads on behind a left operand, one operator a link. -/
def climbChain (g : Grammar) (expr : Reader Expr) :
    (fuel : Nat) → (bound : Level) → Expr → Reader Expr
  | 0, _, left => return left
  | fuel + 1, bound, left => do
    let t ← current
    match t.kind.level? with
    | none => return left
    | some level =>
      if level.rank ≤ bound.rank then return left
      else
        advance
        charge g.limit
        match BinaryOp.ofToken? t.kind with
        | some op =>
          let right ← within g.limit (climb g expr fuel (t.kind.rightBound level))
          let whole := Expr.binary op left right (left.span.union right.span)
          climbChain g expr fuel bound whole
        | none =>
          if (← kind) == .openParen then
            advance
            let candidates ← listUpTo .closeParen expr fuel
            let whole := Expr.inList left candidates (← spanFrom left.span.start)
            climbChain g expr fuel bound whole
          else
            let source ← climb g expr fuel .relational
            let whole := Expr.inSource left source (← spanFrom left.span.start)
            climbChain g expr fuel bound whole
end

/-- Reads an expression that may be a conditional; `branch` reads what stands
between the question mark and the colon, and behind the colon. -/
def conditional (g : Grammar) (branch : Reader Expr) (fuel : Nat) : Reader Expr :=
  within g.limit do
    let condition ← climb g branch fuel .lowest
    if (← kind) == .question then
      advance
      let whenTrue ← branch
      expect .colon
      let whenFalse ← branch
      return .conditional condition whenTrue whenFalse (condition.span.union whenFalse.span)
    else return condition

/-- Reads an expression from at most `fuel - 1` tokens. -/
def expression (g : Grammar) : (fuel : Nat) → Reader Expr
  | 0 => unexpected
  | fuel + 1 => conditional g (expression g fuel) fuel

theorem expression_succ (g : Grammar) (fuel : Nat) :
    expression g (fuel + 1) = conditional g (expression g fuel) fuel := rfl

/-- Reads an expression up to the end of the text. -/
def whole (g : Grammar) (fuel : Nat) : Reader Expr := do
  meetFault
  let e ← expression g fuel
  if (← kind) != .endOfText then unexpected
  return e

end Reader

namespace Expr

/-- The expression that the tokens of a text from `start` on spell. -/
def ofTokens (g : Grammar) (start : Nat) (ts : Tokens) : Except Failure Expr :=
  (Reader.whole g (ts.list.length + 1) (Cursor.atStart start ts)).1

/-- The expression that a text spells. -/
def parse (g : Grammar) (text : List Char) : Except Failure Expr := ofTokens g 0 (tokens text)

/-- The expression that a stretch of a text spells, at its place in the whole. -/
def parseIn (g : Grammar) (text : List Char) (start stop : Nat) : Except Failure Expr :=
  ofTokens g (stretchStart text start stop) (tokensIn text start stop)

end Expr
end QueryExpr
