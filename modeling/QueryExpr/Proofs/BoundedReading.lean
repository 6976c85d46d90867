/-
# Reading with bounds of one's own

The parser makes the span of a node from two positions. Here is the parser once
more with that as a step of its own, so that it can be told which positions it
is done for: a step that fails if the second position is before the first one
makes the parser fail if it ever asks for such a span.

The steps that make no span are shared with the parser. Tokens and faults have a
position and a length, so that their spans are in order to begin with.

Key definitions: `Reader.expressionBy`, `Reader.wholeBy`, `Expr.ofTokensBy`,
`Expr.parseInBy`, `Reader.orderedBounds`.
-/
import QueryExpr.Expr.Parse

namespace QueryExpr

namespace Reader

section
variable (bounds : Nat → Nat → Reader Span)

/-- The span from `start` up to the last token passed. -/
def spanFromBy (start : Nat) : Reader Span := do bounds start (← get).lastStop

/-- The smallest span that reaches over both. -/
def unionBy (a b : Span) : Reader Span := bounds (min a.start b.start) (max a.stop b.stop)

/-- Reads a number. -/
def numberBy (minus : Option Nat) : Reader Expr := do
  let t ← current
  let span ← bounds (minus.getD t.span.start) t.stop
  match numberOf t minus.isSome with
  | .error cause => fail cause span
  | .ok value =>
    advance
    return .literal value (if minus.isSome then "-" ++ t.value else t.value) span

/-! ### Names, calls and constructions -/

/-- Reads what starts with a bare name. -/
def namedBy (g : Grammar) (expr : Reader Expr) (fuel : Nat) : Reader Expr := do
  let n ← name
  advance
  let called := (← kind) == .openParen
  match g.typeOf? n.text with
  | some known =>
    if called then
      advance
      let arguments ← listUpTo .closeParen expr fuel
      return .conversion ⟨n, known⟩ arguments (← spanFromBy bounds n.span.start)
    else return .typeName ⟨n, known⟩
  | none =>
    if called then
      advance
      let arguments ← listUpTo .closeParen expr fuel
      return .call n arguments (← spanFromBy bounds n.span.start)
    else return .name n

/-- Reads the arguments behind the word `iif`. -/
def iifBy (expr : Reader Expr) (fuel : Nat) : Reader Expr := do
  let t ← current
  advance
  expect .openParen
  let arguments ← listUpTo .closeParen expr fuel
  return .call ⟨"iif", t.span⟩ arguments (← spanFromBy bounds t.span.start)

/-- Reads the entries of a projection. -/
def newRecordBy (expr : Reader Expr) (fuel start : Nat) (close : TokenKind) : Reader Expr := do
  let entries ← listUpTo close (projection expr) fuel
  return .newRecord (entries.map (·.1)) (entries.map (·.2)) (← spanFromBy bounds start)

/-- Reads the elements of an array. -/
def newArrayBy (expr : Reader Expr) (fuel start : Nat) (type : Option TypeName) : Reader Expr := do
  expect .openBrace
  let elements ← listUpTo .closeBrace expr fuel
  return .newArray type elements (← spanFromBy bounds start)

/-- Reads what follows the word `new`. -/
def constructionBy (expr : Reader Expr) (fuel : Nat) : Reader Expr := do
  let start := (← current).span.start
  advance
  let t ← current
  match t.kind with
  | .openBrace =>
    advance
    newRecordBy bounds expr fuel start .closeBrace
  | .openParen =>
    advance
    newRecordBy bounds expr fuel start .closeParen
  | .openBracket =>
    advance
    expect .closeBracket
    newArrayBy bounds expr fuel start none
  | .identifier =>
    match KnownType.ofName? t.value with
    | some (.prim p) =>
      advance
      if (← kind) == .openBracket then
        advance
        expect .closeBracket
      newArrayBy bounds expr fuel start (some ⟨⟨t.value, t.span⟩, .prim p⟩)
    | _ => fail (.expected "\x7b") t.span
  | _ => fail (.expected "\x7b") t.span

/-! ### From primary expressions to conditionals -/

/-- Reads an expression without operators and suffixes. -/
def primaryBy (g : Grammar) (expr : Reader Expr) (fuel : Nat) : Reader Expr := do
  let t ← current
  match t.kind with
  | .integer | .real => numberBy bounds none
  | .string => literal (.string t.value)
  | .char => character
  | .trueWord => literal (.boolean true)
  | .falseWord => literal (.boolean false)
  | .nullWord => literal .null
  | .itWord =>
    advance
    return .name ⟨"it", t.span⟩
  | .iifWord => iifBy bounds expr fuel
  | .newWord => constructionBy bounds expr fuel
  | .openParen =>
    advance
    let e ← expr
    expect .closeParen
    return e
  | .identifier => namedBy bounds g expr fuel
  | _ => unexpected

/-- Reads a member access or a method call behind a point. -/
def memberSuffixBy (expr : Reader Expr) (fuel : Nat) (target : Expr) : Reader Expr := do
  advance
  if !(← kind).isNameLike then fail .nameExpected (← current).span
  let n ← name
  advance
  if (← kind) == .openParen then
    advance
    let arguments ← listUpTo .closeParen expr fuel
    return .callOn target n arguments (← spanFromBy bounds target.span.start)
  else return .member target n (← bounds target.span.start n.span.stop)

/-- Reads the arguments of an indexer behind its bracket. -/
def indexSuffixBy (expr : Reader Expr) (fuel : Nat) (target : Expr) : Reader Expr := do
  let bracket := (← current).span
  advance
  let arguments ← listUpTo .closeBracket expr fuel
  if arguments.isEmpty then fail .expressionExpected bracket
  return .index target arguments (← spanFromBy bounds target.span.start)

/-- Reads the suffixes behind an expression, one link of a chain each. -/
def suffixChainBy (g : Grammar) (expr : Reader Expr) : (fuel : Nat) → Expr → Reader Expr
  | 0, target => return target
  | fuel + 1, target => do
    match ← kind with
    | .dot =>
      charge g.limit
      suffixChainBy g expr fuel (← memberSuffixBy bounds expr fuel target)
    | .openBracket =>
      charge g.limit
      suffixChainBy g expr fuel (← indexSuffixBy bounds expr fuel target)
    | .openParen => fail .notInvocable (← current).span
    | _ => return target

/-- Reads the suffixes behind an expression. -/
def suffixesBy (g : Grammar) (expr : Reader Expr) (fuel : Nat) (target : Expr) : Reader Expr :=
  charging (suffixChainBy bounds g expr fuel target)

/-- Reads unary operators and their operand. -/
def unaryBy (g : Grammar) (expr : Reader Expr) : (fuel : Nat) → Reader Expr
  | 0 => do suffixesBy bounds g expr 0 (← primaryBy bounds g expr 0)
  | fuel + 1 => do
    let t ← current
    match UnaryOp.ofToken? t.kind with
    | none => suffixesBy bounds g expr fuel (← primaryBy bounds g expr fuel)
    | some op =>
      let next := (← get).next?
      if op == .negate && (next == some .integer || next == some .real) then
        advance
        suffixesBy bounds g expr fuel (← numberBy bounds (some t.span.start))
      else
        advance
        let operand ← within g.limit (unaryBy g expr fuel)
        return .unary op operand (← bounds t.span.start operand.span.stop)

mutual
/-- Reads operands and the binary operators between them that bind more
strongly than `bound`. -/
def climbBy (g : Grammar) (expr : Reader Expr) : (fuel : Nat) → (bound : Level) → Reader Expr
  | 0, _ => unaryBy bounds g expr 0
  | fuel + 1, bound => charging do
    let left ← unaryBy bounds g expr (fuel + 1)
    climbChainBy g expr fuel bound left

/-- Reads on behind a left operand, one operator a link. -/
def climbChainBy (g : Grammar) (expr : Reader Expr) :
    (fuel : Nat) → (bound : Level) → Expr → Reader Expr
  | 0, _, left => return left
  | fuel + 1, bound, left => do
    let t ← current
    match t.kind.level? with
    | none => return left
    | some level =>
      if level.rank ≤ bound.rank then return left
      else
        advance
        charge g.limit
        match BinaryOp.ofToken? t.kind with
        | some op =>
          let right ← within g.limit (climbBy g expr fuel (t.kind.rightBound level))
          let whole := Expr.binary op left right (← unionBy bounds left.span right.span)
          climbChainBy g expr fuel bound whole
        | none =>
          if (← kind) == .openParen then
            advance
            let candidates ← listUpTo .closeParen expr fuel
            let whole := Expr.inList left candidates (← spanFromBy bounds left.span.start)
            climbChainBy g expr fuel bound whole
          else
            let source ← climbBy g expr fuel .relational
            let whole := Expr.inSource left source (← spanFromBy bounds left.span.start)
            climbChainBy g expr fuel bound whole
end

/-- Reads an expression that may be a conditional. -/
def conditionalBy (g : Grammar) (branch : Reader Expr) (fuel : Nat) : Reader Expr :=
  within g.limit do
    let condition ← climbBy bounds g branch fuel .lowest
    if (← kind) == .question then
      advance
      let whenTrue ← branch
      expect .colon
      let whenFalse ← branch
      return .conditional condition whenTrue whenFalse
        (← unionBy bounds condition.span whenFalse.span)
    else return condition

/-- Reads an expression from at most `fuel - 1` tokens. -/
def expressionBy (g : Grammar) : (fuel : Nat) → Reader Expr
  | 0 => unexpected
  | fuel + 1 => conditionalBy bounds g (expressionBy g fuel) fuel

/-- Reads an expression up to the end of the text. -/
def wholeBy (g : Grammar) (fuel : Nat) : Reader Expr := do
  meetFault
  let e ← expressionBy bounds g fuel
  if (← kind) != .endOfText then unexpected
  return e

end

/-- The span between two positions in order; for others there is none, and
reading fails. -/
def orderedBounds (a b : Nat) : Reader Span :=
  if a ≤ b then pure (.ofBounds a b) else fail (.expected "bounds in order") ⟨a, 0⟩

end Reader

namespace Expr

/-- The expression that the tokens of a text from `start` on spell. -/
def ofTokensBy (bounds : Nat → Nat → Reader Span) (g : Grammar) (start : Nat) (ts : Tokens) :
    Except Failure Expr :=
  (Reader.wholeBy bounds g (ts.list.length + 1) (Cursor.atStart start ts)).1

/-- The expression that a stretch of a text spells, at its place in the whole. -/
def parseInBy (bounds : Nat → Nat → Reader Span) (g : Grammar) (text : List Char)
    (start stop : Nat) : Except Failure Expr :=
  ofTokensBy bounds g (stretchStart text start stop) (tokensIn text start stop)

end Expr
end QueryExpr
