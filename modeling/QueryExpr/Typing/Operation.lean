/-
# Checking operators and constructions

The operands of an operator are brought to the type the operator works in:
numbers to their promotion, alternatives to a common type, candidates of a
membership to one type with the operand. A literal has the first type that
holds it.

Key definitions: `Literal.integer?`, `Check.literal`, `Check.unary`,
`Check.binary`, `Check.coalesce`, `Check.conditional`, `Check.inList`,
`Check.inSource`, `Check.newRecord`, `Check.newArray`, `Check.conversion`.
-/
import QueryExpr.Expr
import QueryExpr.Typing.Sequence

namespace QueryExpr

/-- The types that an integer literal may have, in order. -/
def IntegerSuffix.types (negative : Bool) : IntegerSuffix → List IntType
  | .none => if negative then [.int32, .int64] else [.int32, .uint32, .int64, .uint64]
  | .unsigned => if negative then [] else [.uint32, .uint64]
  | .long => if negative then [.int64] else [.int64, .uint64]
  | .unsignedLong => if negative then [] else [.uint64]

/-- The constant that an integer literal stands for: its number in the first
of its types that holds it. -/
def Literal.integer? (magnitude : Nat) (negative : Bool) (suffix : IntegerSuffix) :
    Option Scalar :=
  let n : Int := if negative then -magnitude else magnitude
  ((suffix.types negative).find? (·.holds n)).map fun t => .int (.wrap t n)

/-- The constant that a real literal stands for, unless its type cannot hold
it. -/
def Literal.real? (value : Float) (suffix : RealSuffix) : Option Scalar :=
  match suffix with
  | .single =>
    let v := Binary.narrow value
    match Binary.partsOfSingle v with
    | .finite _ _ _ => some (.single v)
    | _ => none
  | .decimal => some (.decimal value)
  | .none | .double => some (.double value)

namespace Check

/-- Checks a literal. -/
def literal (value : Literal) (written : String) (span : Span) : Check Term :=
  match value with
  | .integer magnitude negative suffix =>
    match Literal.integer? magnitude negative suffix with
    | some c => pure (.ofScalar c span)
    | none => fail (.integerLiteral written) span
  | .real v suffix =>
    match Literal.real? v suffix with
    | some c => pure (.ofScalar c span)
    | none => fail (.realLiteral written) span
  | .string s => pure (.ofScalar (.string s) span)
  | .char c => pure (.ofScalar (.char c) span)
  | .boolean b => pure (.ofScalar (.boolean b) span)
  | .null => pure (.ofScalar .null span)

/-- Checks a unary operator. -/
def unary (op : UnaryOp) (operand : Term) (span : Span) : Check Term :=
  let type :=
    match op with
    | .negate => operand.type.negation?
    | .not => if operand.type.isBoolean then some operand.type else none
  match type with
  | some t => pure (.unary op (operand.convertTo t) t span)
  | none => fail (.operandType op.symbol operand.type.display) span

/-- Checks the operator `??`. -/
def coalesce (left right : Term) (span : Span) : Check Term :=
  if left.type.isNull then
    let t := right.type
    pure (.coalesce (left.convertTo t) (right.convertTo t) t span)
  else if !left.type.acceptsNull then fail (.nullableExpected left.type.display) left.span
  else if right.isAssignable left.type.nonNullable then
    let t := left.type.nonNullable
    pure (.coalesce left (right.convertTo t) t span)
  else if right.isAssignable left.type then
    pure (.coalesce left (right.convertTo left.type) left.type span)
  else
    fail (.operandTypes BinaryOp.coalesce.symbol left.type.display right.type.display) span

/-- The type that the operands of an operator are brought to, and the type of
the result. -/
def operationTypes? (op : Operation) (left right : Term) : Option (Ty × Ty) :=
  match op with
  | .andAlso | .orElse =>
    if left.type.isBoolean && right.type.isBoolean then
      let t := Ty.lift .boolean (left.type.isNullable || right.type.isNullable)
      some (t, t)
    else none
  | .equal | .notEqual => (Ty.equality? left right).map fun t => (t, .boolean)
  | .less | .lessEqual | .greater | .greaterEqual =>
    match Ty.promote? left.type right.type false with
    | some t => some (t, .boolean)
    | none => if left.type.isString && right.type.isString then some (.string, .boolean) else none
  | _ => (Ty.promote? left.type right.type true).map fun t => (t, t)

/-- Checks a binary operator. -/
def binary (o : Options) (op : BinaryOp) (left right : Term) (span : Span) : Check Term :=
  match Operation.ofBinaryOp? op with
  | none => coalesce left right span
  | some operation =>
    if operation == .add && o.stringConcatenation && (left.type.isString || right.type.isString)
    then pure (.binary .concat left right .string span)
    else
      match operationTypes? operation left right with
      | some (operand, result) =>
        pure (.binary operation (left.convertTo operand) (right.convertTo operand) result span)
      | none => fail (.operandTypes op.symbol left.type.display right.type.display) span

/-- Checks a conditional. -/
def conditional (condition whenTrue whenFalse : Check Term) (span : Span) : Check Term := do
  let c ← value condition
  if !(c.type == .boolean) then fail (.booleanExpected c.type.display) c.span
  let a ← value whenTrue
  let b ← value whenFalse
  match (Ty.unify? a.type b).or (Ty.unify? b.type a) with
  | some t => return .conditional c (a.convertTo t) (b.convertTo t) t span
  | none => fail (.noCommonType a.type.display b.type.display) span

/-- Checks the candidates of a membership, and brings their types to one with
`common`. -/
def candidates (operand : Term) (span : Span) : Ty → List (Check Term) → Check (Ty × List Term)
  | common, [] => return (common, [])
  | common, c :: cs => do
    let e ← value c
    match Ty.unify? common e with
    | some t =>
      let (t, es) ← candidates operand span t cs
      return (t, e :: es)
    | none => fail (.operandTypes "in" operand.type.display e.type.display) span

/-- Checks the membership in a list. -/
def inList (operand : Check Term) (items : List (Check Term)) (span : Span) : Check Term := do
  let e ← value operand
  let (t, es) ← candidates e span e.type items
  return .inList (e.convertTo t) (es.map (·.convertTo t)) .boolean span

/-- Checks the membership in a sequence. -/
def inSource (operand source : Check Term) (span : Span) : Check Term := do
  let e ← value operand
  let s ← value source
  match s.type.element? with
  | some t =>
    if e.isAssignable t then return .inSequence (e.convertTo t) s .boolean span
    else fail (.operandTypes "in" e.type.display s.type.display) span
  | none => fail (.operandTypes "in" e.type.display s.type.display) span

/-- Checks a projection into a record. -/
def newRecord (names : List Name) (items : List (Check Term)) (span : Span) : Check Term := do
  let es := (← values items).map fun e => if e.type.isNull then e.convertTo .object else e
  let r ← request (List.zipWith (fun n e => (n.text, e.type)) names es) span
  return .newRecord es r.type span

/-- Checks elements, each against the type of the array. -/
def convertedAll (type : Ty) : List Term → Check (List Term)
  | [] => return []
  | e :: es => do
    let e ← converted e type
    let es ← convertedAll type es
    return e :: es

/-- Checks an array. -/
def newArray (type : Option TypeName) (items : List (Check Term)) (span : Span) : Check Term := do
  let es ← values items
  let t ← match type with
    | some ⟨_, .prim p⟩ => pure (Ty.prim p)
    | some ⟨n, .math⟩ => fail (.unknownName n.text) n.span
    | none => ofExcept (Ty.best es)
  return .newArray (← convertedAll t es) (.array t) span

/-- Checks a conversion to a predefined type. -/
def conversion (type : KnownType) (arguments : List (Check Term)) (span : Span) : Check Term :=
  match type, arguments with
  | .math, _ => fail (.noMethod type.name type.name) span
  | .prim p, [argument] => do
    let e ← value argument
    if Ty.convertsExplicitly e.type (.prim p) || e.isAssignable (.prim p) then
      return (e.convertTo (.prim p)).withSpan span
    else fail (.noConversion e.type.display (Ty.prim p).display) span
  | .prim _, _ => fail (.conversionArguments type.name) span

end Check
end QueryExpr
