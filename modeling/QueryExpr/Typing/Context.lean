/-
# The context of checking

Checking goes on in a context: the record types made so far and the names in
scope. A check yields something or fails, and leaves a context either way.
The body of an aggregate is checked with its element in scope, which is taken
out again even if the check fails.

Key definitions: `Context`, `Check`, `Check.withElement`, `Check.value`,
`Check.values`, `Check.implicitTarget`, `Check.shadowingTarget`.
Key theorems: `Check.values_nil`.
-/
import QueryExpr.Options
import QueryExpr.Record
import QueryExpr.Scope
import QueryExpr.Term

namespace QueryExpr

/-- The record types made so far, and the names in scope. -/
structure Context where
  records : RecordCache
  scopes : Scopes

/-- A check: it yields something or fails, and leaves a context. -/
abbrev Check := ExceptT Failure (StateM Context)

namespace Check

/-- Fails for a cause at a span. -/
def fail {α : Type} (cause : Cause) (span : Span) : Check α := throw ⟨cause, span⟩

/-- What an outcome that needs no context comes to. -/
def ofExcept {α : Type} (outcome : Except Failure α) : Check α :=
  match outcome with
  | .ok x => pure x
  | .error f => throw f

/-- The names in scope. -/
def scopes : Check Scopes := do return (← get).scopes

/-- Checks with an element in scope. -/
def withElement {α : Type} (type : Ty) (check : Check α) : Check α := fun c =>
  let r := check { c with scopes := c.scopes.push type }
  (r.1, { r.2 with scopes := r.2.scopes.pop })

/-- The record type of a signature. -/
def request (ps : Properties) (span : Span) : Check RecordType := fun c =>
  match c.records.request ps with
  | (.ok r, records) => (.ok r, { c with records := records })
  | (.error cause, records) => (.error ⟨cause, span⟩, { c with records := records })

/-- Checks something that has to have a value. -/
def value (check : Check Term) : Check Term := do
  let e ← check
  if e.type.isVoid then fail .voidValue e.span
  return e

/-- Checks several things that have to have values, in order. -/
def values : List (Check Term) → Check (List Term)
  | [] => return []
  | c :: cs => do
    let e ← value c
    let es ← values cs
    return e :: es

theorem values_nil : values [] = pure [] := rfl

/-- The value of a parameter. -/
def reference (s : Symbol) (span : Span) : Term := .parameter s.boundName s.type span

/-- The current `it`, where a bare name may mean one of its members. -/
def implicitTarget (o : Options) (span : Span) : Check (Option Term) := do
  if o.implicitMembers then return (← scopes).implicit?.map (reference · span)
  else return none

/-- The current `it`, if it has a member or a method with the name of a
predefined type. Such a member hides the type. -/
def shadowingTarget (o : Options) (name : String) (span : Span) : Check (Option Term) := do
  let target ← implicitTarget o span
  return target.filter fun it =>
    (it.type.member? name).isSome || !(it.type.methods name).isEmpty

end Check
end QueryExpr
