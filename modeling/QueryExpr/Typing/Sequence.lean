/-
# Checking aggregates

An aggregate is a function on a sequence: it asks whether elements pass a
test, selects or orders them, or brings them to one value. Its argument, if
it has one, is a body over the element or a value of the enclosing scope.
Sums and averages are taken in a type that the values are converted to.

Key definitions: `Ty.accumulator?`, `Aggregate.result?`, `Check.aggregate`.
-/
import QueryExpr.Typing.Assignment
import QueryExpr.Typing.Context

namespace QueryExpr

/-- The type that values are summed up in. -/
def Ty.accumulator? (t : Ty) : Option Ty :=
  let sum : Option Prim :=
    match t.primitive? with
    | some (.int .sbyte) | some (.int .byte) | some (.int .int16) | some (.int .uint16)
    | some (.int .int32) => some (.int .int32)
    | some (.int .uint32) | some (.int .int64) => some (.int .int64)
    | some (.int .uint64) | some .single => some .single
    | some .double => some .double
    | some .decimal => some .decimal
    | _ => none
  sum.map (Ty.lift · t.isNullable)

namespace Aggregate

/-- The type of a numeric aggregate over values of the type. -/
def result? (op : Aggregate) (value : Ty) : Option Ty :=
  match op with
  | .sum => value.accumulator?
  | .average =>
    value.accumulator?.map fun t =>
      if t.isIntegral then Ty.lift .double value.isNullable else t
  | .min | .max => if value.primitive?.any Prim.isOrderable then some value else none
  | _ => none

/-- The type that the values of a selector are converted to. -/
def input? (op : Aggregate) (value : Ty) : Option Ty :=
  match op with
  | .sum | .average => value.accumulator?
  | _ => none

end Aggregate

namespace Check

/-- A term that may stand where the type is wanted, converted to it. -/
def converted (e : Term) (target : Ty) : Check Term :=
  match e.coerce? target with
  | some e => pure e
  | none => fail (.noConversion e.type.display target.display) e.span

/-- Checks the body of an aggregate. -/
def body (element : Ty) (check : Check Term) : Check Term := withElement element (value check)

/-- Checks the body of an aggregate that has to be a truth value. -/
def predicate (element : Ty) (check : Check Term) : Check Term := do
  let e ← body element check
  if !(e.type == .boolean) then fail (.booleanExpected e.type.display) e.span
  return e

/-- Checks an aggregate over a source with elements of the given type. -/
def aggregate (source : Term) (element : Ty) (op : Aggregate) (arguments : List (Check Term))
    (span : Span) : Check Term := do
  let mismatch {α : Type} : Check α := fail (.noAggregate op.name source.type.display) span
  let require (t : Option Ty) : Check Ty :=
    match t with
    | some t => pure t
    | none => mismatch
  match op, arguments with
  | .any, [] => return .aggregate op source .boolean span
  | .count, [] => return .aggregate op source .int32 span
  | .first, [] | .firstOrDefault, [] => return .aggregate op source element span
  | .any, [test] | .all, [test] =>
    return .aggregateBy op source (← predicate element test) .boolean span
  | .count, [test] => return .aggregateBy op source (← predicate element test) .int32 span
  | .where, [test] =>
    return .aggregateBy op source (← predicate element test) (.sequence element) span
  | .first, [test] | .firstOrDefault, [test] =>
    return .aggregateBy op source (← predicate element test) element span
  | .select, [selector] =>
    let e ← body element selector
    return .aggregateBy op source e (.sequence e.type) span
  | .orderBy, [selector] | .orderByDescending, [selector] =>
    return .aggregateBy op source (← body element selector) (.sequence element) span
  | .sum, [] | .average, [] | .min, [] | .max, [] =>
    return .aggregate op source (← require (op.result? element)) span
  | .sum, [selector] | .average, [selector] | .min, [selector] | .max, [selector] =>
    let e ← body element selector
    let type ← require (op.result? e.type)
    let e :=
      match op.input? e.type with
      | some input => e.convertTo input
      | none => e
    return .aggregateBy op source e type span
  | .take, [count] | .skip, [count] =>
    let n ← converted (← value count) .int32
    return .aggregateWith op source n (.sequence element) span
  | .contains, [item] =>
    let e ← converted (← value item) element
    return .aggregateWith op source e .boolean span
  | _, _ => mismatch

end Check
end QueryExpr
