/-
# Scripted hosts

A host whose answers are written down beforehand: the fields of an object, the
answer to each method and to each list of keys, its elements, and the answer
of each function. A method or a list of keys that is not written down fails as
with an object that has none.

An object for which no answers are written has fields alone, and keeps no
record of what is asked of it.

Key definitions: `Answer`, `ObjectScript`, `Script`, `Script.host`,
`Script.logged`.
-/
import QueryExpr.Eval.Host

namespace QueryExpr

/-- What a scripted method, indexer or function answers. -/
inductive Answer
  | value (v : Value)
  /-- One of the arguments, counted from zero. -/
  | argument (index : Nat)
  | failure

/-- The answer to the given arguments. -/
def Answer.apply (arguments : List Value) : Answer → Except EvalError Value
  | value v => .ok v
  | argument index =>
    match arguments[index]? with
    | some v => .ok v
    | none => .error (.argumentCount (index + 1) arguments.length)
  | failure => .error (.argumentOutOfRange "host")

/-- The answers of an object. -/
structure ObjectScript where
  fields : List (String × Value)
  methods : List (String × Answer)
  rows : List (List Value × Answer)
  elements : Option (List Value)
  /-- Whether the object keeps a record of what is asked of it. -/
  logged : Bool

namespace ObjectScript

/-- The value of the last field of a name. -/
def field? (o : ObjectScript) (name : String) : Option Value := o.fields.reverse.lookup name

/-- The answer of the first row with the given keys. -/
def row? (o : ObjectScript) (keys : List Value) : Option Answer :=
  (o.rows.find? fun row => row.1.length == keys.length && Value.equalsAll row.1 keys).map (·.2)

end ObjectScript

/-- The answers of objects and functions, by their numbers. -/
structure Script where
  objects : List (Nat × ObjectScript)
  functions : List (Nat × Answer)

namespace Script

/-- The script without objects and functions. -/
def empty : Script := ⟨[], []⟩

/-- The answers of an object. -/
def object? (s : Script) (id : Nat) : Option ObjectScript := s.objects.lookup id

/-- The host that answers as written. -/
def host (s : Script) : Host where
  field id _ name := (s.object? id).bind (·.field? name)
  call id typeName method arguments :=
    match (s.object? id).bind (·.methods.lookup method) with
    | some answer => answer.apply arguments
    | none => .error (.missingMethod typeName method)
  index id typeName arguments :=
    match (s.object? id).bind (·.row? arguments) with
    | some answer => answer.apply arguments
    | none => .error (.notIndexable typeName)
  elements id _ := (s.object? id).bind (·.elements)
  invoke id arguments :=
    match s.functions.lookup id with
    | some answer => answer.apply arguments
    | none => .ok .null

/-- Whether an event is kept on record. -/
def logged (s : Script) : Event → Bool
  | .call id _ _ | .index id _ => (s.object? id).any (·.logged)
  | .invoke _ _ => true

end Script
end QueryExpr
