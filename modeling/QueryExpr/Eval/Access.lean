/-
# Access to parts of values

The members of records and host objects, what an index finds in lists, texts
and host objects, and the elements of lists and host objects.

Key definitions: `Value.member`, `Value.itemAt`, `Value.elements`,
`Eval.index`, `Eval.call`, `Eval.invoke`.
-/
import QueryExpr.Eval.Context

namespace QueryExpr

namespace Value

/-- The member of a value. -/
def member (host : Host) (v : Value) (name : String) : Except EvalError Value :=
  let found :=
    match v with
    | .record type values => property? type values name
    | .object id typeName => host.field id typeName name
    | _ => none
  match found with
  | some w => .ok w
  | none =>
    if v.isNull then .error (.nullReference ("access to '" ++ name ++ "'"))
    else .error (.missingMember v.typeName name)

/-- The position among `length` items that a list of arguments names. -/
def position (arguments : List Value) (length : Nat) : Except EvalError (Fin length) :=
  match arguments with
  | [v] =>
    match v.integer? with
    | some n =>
      if h : 0 ≤ n ∧ n < length then .ok ⟨n.toNat, by omega⟩
      else .error (.indexOutOfRange n length)
    | none => .error (.argumentCount 1 1)
  | _ => .error (.argumentCount 1 arguments.length)

/-- The item at the position that a list of arguments names. -/
def itemAt {α : Type} (items : List α) (arguments : List Value) : Except EvalError α :=
  (position arguments items.length).map fun i => items[i]

/-- The elements of a value that has elements. -/
def elements (host : Host) (v : Value) : Except EvalError (List Value) :=
  match v with
  | .list _ items => .ok items
  | .object id typeName =>
    match host.elements id typeName with
    | some items => .ok items
    | none => .error (.typeMismatch "sequence" v.typeName)
  | _ =>
    if v.isNull then .error (.nullReference "sequence")
    else .error (.typeMismatch "sequence" v.typeName)

end Value

namespace Eval

/-- What an index finds in a value. -/
def index (host : Host) (target : Value) (arguments : List Value) : Eval Value :=
  match target with
  | .list _ items => ofExcept (Value.itemAt items arguments)
  | .scalar (.string s) =>
    ofExcept ((Value.itemAt s.toList arguments).map fun c => .scalar (.char c))
  | .object id typeName => ask (.index id arguments) (host.index id typeName arguments)
  | _ =>
    if target.isNull then throw (.nullReference "indexer")
    else throw (.notIndexable target.typeName)

/-- Calls a method of a value. -/
def call (host : Host) (target : Value) (method : String) (arguments : List Value) : Eval Value :=
  match target with
  | .object id typeName =>
    ask (.call id method arguments) (host.call id typeName method arguments)
  | _ =>
    if target.isNull then throw (.nullReference ("call to '" ++ method ++ "'"))
    else throw (.missingMethod target.typeName method)

/-- Calls a function. -/
def invoke (host : Host) (function : Value) (arguments : List Value) : Eval Value :=
  match function with
  | .function id => ask (.invoke id arguments) (host.invoke id arguments)
  | _ =>
    if function.isNull then throw (.nullReference "delegate invocation")
    else throw (.typeMismatch "Function" function.typeName)

end Eval
end QueryExpr
