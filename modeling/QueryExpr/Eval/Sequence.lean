/-
# Aggregates on values

What the functions on sequences come to. A body is evaluated for one element
after the other, each as `it`; those that look for an element stop at the
first. A condition has to be true or false. `Sum`, `Average`, `Min` and `Max`
pass over null.

Key definitions: `Eval.test`, `Eval.findFirst`, `Eval.select`, `Eval.sum`,
`Eval.average`, `Eval.extreme`, `Eval.aggregate`.
Key theorems: `Eval.take_append_skip`.
-/
import QueryExpr.Eval.Arithmetic
import QueryExpr.Eval.Context
import QueryExpr.Ordering.Stable

namespace QueryExpr

/-- The value that stands for no element of a type. -/
def Value.default (type : Ty) : Value :=
  match type with
  | .prim .boolean => .boolean false
  | .prim p =>
    match Scalar.ofInteger? p 0 with
    | some s => .scalar s
    | none => .null
  | _ => .null

namespace Eval

/-- Whether a condition holds for an element. -/
def test (condition : Eval Value) (element : Value) : Eval Bool := do
  let v ← withElement element condition
  match v.boolean? with
  | some b => return b
  | none => throw (.typeMismatch "Boolean" v.typeName)

/-- Whether a condition holds for an element; no condition holds for all. -/
def accepts (condition : Option (Eval Value)) (element : Value) : Eval Bool :=
  match condition with
  | some e => test e element
  | none => return true

/-- The first element for which a condition holds. -/
def findFirst (condition : Option (Eval Value)) : List Value → Eval (Option Value)
  | [] => return none
  | v :: vs => do
    if ← accepts condition v then return some v
    findFirst condition vs

/-- Whether a condition holds for all elements. -/
def holdsForAll (condition : Option (Eval Value)) : List Value → Eval Bool
  | [] => return true
  | v :: vs => do
    if ← accepts condition v then holdsForAll condition vs
    else return false

/-- The number of elements for which a condition holds. -/
def count (condition : Option (Eval Value)) : List Value → Eval Nat
  | [] => return 0
  | v :: vs => do
    let b ← accepts condition v
    let n ← count condition vs
    return if b then n + 1 else n

/-- The elements for which a condition holds. -/
def filter (condition : Option (Eval Value)) : List Value → Eval (List Value)
  | [] => return []
  | v :: vs => do
    let b ← accepts condition v
    let kept ← filter condition vs
    return if b then v :: kept else kept

/-- What a body comes to for each element; without a body the elements. -/
def select (body : Option (Eval Value)) (elements : List Value) : Eval (List Value) :=
  match body with
  | none => return elements
  | some e =>
    match elements with
    | [] => return []
    | v :: vs => do
      let w ← withElement v e
      let ws ← select (some e) vs
      return w :: ws
termination_by structural elements

/-- The values that are not null. -/
def present (values : List Value) : List Value := values.filter fun v => !v.isNull

/-- Adds values to a total, each as one of the given type. -/
def addTo (type : Ty) (total : Value) : List Value → Except EvalError Value
  | [] => .ok total
  | v :: vs => do
    let w ← v.convert type
    let total ← Operation.add.apply total w
    addTo type total vs

/-- The sum of values in the given type. -/
def sum (type : Ty) (values : List Value) : Except EvalError Value := do
  let zero ← (Value.int32 0).convert type.nonNullable
  addTo type.nonNullable zero (present values)

/-- The average of values in the given type. Of no values there is none. -/
def average (type : Ty) (values : List Value) : Except EvalError Value := do
  let total ← sum type values
  let n := (present values).length
  if n == 0 then
    if type.isNullable then .ok .null else .error .emptySequence
  else
    let divisor ← (Value.scalar (.int (.wrap .int64 n))).convert type.nonNullable
    Operation.divide.apply total divisor

/-- The first of the values that none of the others precedes in the given
order. -/
def outermost (o : Ordering) : Value → List Value → Value
  | best, [] => best
  | best, v :: vs =>
    if (v.compare? best).getD .eq == o then outermost o v vs else outermost o best vs

/-- The least or the greatest value. Of no values there is none. -/
def extreme (o : Ordering) (type : Ty) (values : List Value) : Except EvalError Value :=
  match present values with
  | v :: vs => .ok (outermost o v vs)
  | [] => if type.acceptsNull then .ok .null else .error .emptySequence

/-- The elements in the order of their keys. -/
def sortedBy (compare : Value → Value → Ordering) (keys elements : List Value) : List Value :=
  (Ordering.stableSort (fun a b => compare a.1 b.1) (keys.zip elements)).map (·.2)

/-- How many elements an argument asks for. -/
def amount (argument : Option Value) : Nat := ((argument.bind Value.integer?).getD 0).toNat

/-- What is taken and what is skipped are the whole, for every argument. -/
theorem take_append_skip (argument : Option Value) (elements : List Value) :
    elements.take (amount argument) ++ elements.drop (amount argument) = elements :=
  List.take_append_drop _ _

/-- Applies an aggregate to the elements of its source. The `body` is evaluated
for elements, the `argument` is a value; the result has the given type. -/
def aggregate (op : Aggregate) (elements : List Value) (body : Option (Eval Value))
    (argument : Option Value) (type : Ty) : Eval Value :=
  match op with
  | .any => do return .boolean (← findFirst body elements).isSome
  | .all => do return .boolean (← holdsForAll body elements)
  | .count => do return .int32 (← count body elements)
  | .sum => do ofExcept (sum type (← select body elements))
  | .average => do ofExcept (average type (← select body elements))
  | .min => do ofExcept (extreme .lt type (← select body elements))
  | .max => do ofExcept (extreme .gt type (← select body elements))
  | .where => do newList (← filter body elements)
  | .select => do newList (← select body elements)
  | .orderBy => do newList (sortedBy Value.compareKeys (← select body elements) elements)
  | .orderByDescending => do
    let keys ← select body elements
    newList (sortedBy (fun a b => (a.compareKeys b).swap) keys elements)
  | .first => do
    match ← findFirst body elements with
    | some v => return v
    | none => throw .emptySequence
  | .firstOrDefault => do return (← findFirst body elements).getD (.default type)
  | .take => newList (elements.take (amount argument))
  | .skip => newList (elements.drop (amount argument))
  | .contains => return .boolean (elements.any (·.equals (argument.getD .null)))

end Eval
end QueryExpr
