/-
# The context of evaluation

Evaluation goes on in a context: the values bound to names, the number of the
next list, and what has been asked of the host so far. An evaluation yields
something or fails, and leaves a context either way. Bindings made for a
stretch of evaluation are taken out again even if it fails.

Key definitions: `Environment`, `Eval`, `Eval.lookup`, `Eval.withBindings`,
`Eval.withElement`, `Eval.newList`, `Eval.ask`.
Key theorems: `Eval.environment_withBindings`.
-/
import QueryExpr.Eval.Host
import QueryExpr.Scope

namespace QueryExpr

/-- Values bound to names, innermost first. -/
abbrev Environment := List (String × Value)

/-- The values bound to names, the number of the next list, and what has been
asked of the host, in order. -/
structure EvalContext where
  environment : Environment
  nextList : Nat
  events : List Event

/-- The context at the start of an evaluation that numbers its lists from the
given number on. -/
def EvalContext.start (nextList : Nat) : EvalContext := ⟨[], nextList, []⟩

/-- An evaluation: it yields something or fails, and leaves a context. -/
abbrev Eval := ExceptT EvalError (StateM EvalContext)

namespace Eval

/-- What an outcome that needs no context comes to. -/
def ofExcept {α : Type} (outcome : Except EvalError α) : Eval α :=
  match outcome with
  | .ok x => pure x
  | .error e => throw e

/-- The value bound to a name. -/
def lookup (name : String) : Eval Value := do
  match (← get).environment.lookup name with
  | some v => return v
  | none => throw (.unboundParameter name)

/-- Evaluates with further bindings; the last of them is the innermost. -/
def withBindings {α : Type} (bindings : Environment) (e : Eval α) : Eval α := fun c =>
  let r := e { c with environment := bindings.reverse ++ c.environment }
  let added := r.2.environment.length - c.environment.length
  (r.1, { r.2 with environment := r.2.environment.drop added })

/-- Evaluates with an element as `it`. One binding is made, and one is taken out. -/
def withElement {α : Type} (element : Value) (e : Eval α) : Eval α := fun c =>
  let r := e { c with environment := (implicitName, element) :: c.environment }
  (r.1, { r.2 with environment := r.2.environment.tail })

/-- A new list of the given elements. -/
def newList (items : List Value) : Eval Value := fun c =>
  (.ok (.list c.nextList items), { c with nextList := c.nextList + 1 })

/-- Puts an event on record, and then yields the host's answer to it. -/
def ask (event : Event) (answer : Except EvalError Value) : Eval Value := fun c =>
  (answer, { c with events := c.events ++ [event] })

/-- An evaluation that leaves the environment as it was also does so with
further bindings. -/
theorem environment_withBindings {α : Type} (bindings : Environment) (e : Eval α)
    (h : ∀ c, (e c).2.environment = c.environment) (c : EvalContext) :
    (withBindings bindings e c).2.environment = c.environment := by
  simp [withBindings, h]

end Eval
end QueryExpr
