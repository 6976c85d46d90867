/-
# The order of evaluation

The operators that do not evaluate all of their operands, or not before they
look at one of them. `and` and `or` have three truth values: null stands for
one that is not known, and the second operand is evaluated unless the first
one settles the result.

Key definitions: `Eval.values`, `Eval.conjunction`, `Eval.disjunction`,
`Eval.conditional`, `Eval.coalesce`, `Eval.isAmong`.
-/
import QueryExpr.Eval.Context

namespace QueryExpr.Eval

/-- Evaluates in order. -/
def values : List (Eval Value) → Eval (List Value)
  | [] => return []
  | e :: es => do
    let v ← e
    let vs ← values es
    return v :: vs

/-- The logical `and`. -/
def conjunction (left right : Eval Value) : Eval Value := do
  let l ← left
  if l.boolean? == some false then return l
  let r ← right
  if r.boolean? == some false then return r
  if l.boolean? == some true then return r
  return .null

/-- The logical `or`. -/
def disjunction (left right : Eval Value) : Eval Value := do
  let l ← left
  if l.boolean? == some true then return l
  let r ← right
  if r.boolean? == some true then return r
  if l.boolean? == some false then return r
  return .null

/-- Evaluates the branch that the condition chooses. -/
def conditional (condition whenTrue whenFalse : Eval Value) : Eval Value := do
  let c ← condition
  match c.boolean? with
  | some true => whenTrue
  | some false => whenFalse
  | none =>
    if c.isNull then throw (.nullReference "condition")
    else throw (.typeMismatch "Boolean" c.typeName)

/-- The left operand, or the right one if that is null. -/
def coalesce (left right : Eval Value) : Eval Value := do
  let l ← left
  if l.isNull then right else return l

/-- Whether a value equals one of the candidates, which are evaluated up to the
first that does. -/
def isAmong (v : Value) : List (Eval Value) → Eval Bool
  | [] => return false
  | c :: cs => do
    let w ← c
    if v.equals w then return true
    isAmong v cs

end QueryExpr.Eval
