/-
# Hosts

A host owns the objects and functions that values name by number. It reads
their fields, calls their methods and indexers, lists the elements of those
that have elements, and calls functions. Everything asked of it that may have
an effect is an event.

Key definitions: `Host`, `Event`.
-/
import QueryExpr.Value

namespace QueryExpr

/-- What a host does with its objects and functions. An object comes with the
name of its type, a function with its number. -/
structure Host where
  field : (object : Nat) → (typeName name : String) → Option Value
  call : (object : Nat) → (typeName method : String) → List Value → Except EvalError Value
  index : (object : Nat) → (typeName : String) → List Value → Except EvalError Value
  elements : (object : Nat) → (typeName : String) → Option (List Value)
  invoke : (function : Nat) → List Value → Except EvalError Value

/-- Something asked of a host. -/
inductive Event
  | call (object : Nat) (method : String) (arguments : List Value)
  | index (object : Nat) (arguments : List Value)
  | invoke (function : Nat) (arguments : List Value)

end QueryExpr
