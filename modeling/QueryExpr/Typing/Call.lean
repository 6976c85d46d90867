/-
# Checking members, calls and indexing

What is asked of a target: a member, an element, a call. A member of a host
class comes before a built-in one of the same name, and an aggregate before
any method of its name.

Key definitions: `Check.member`, `Check.index`, `Check.method`,
`Check.invoke`, `Check.function`.
-/
import QueryExpr.Expr
import QueryExpr.Typing.Builtin
import QueryExpr.Typing.Overload
import QueryExpr.Typing.Sequence

namespace QueryExpr.Check

/-- Checks the access to a member. -/
def member (target : Term) (name : String) (span : Span) : Check Term :=
  match target.type.member? name with
  | some type => pure (.member target name type span)
  | none =>
    match Builtin.property? target.type name with
    | some (op, type) => pure (.intrinsic op target [] type span)
    | none => fail (.noMember name target.type.display) span

/-- The indexers of a type. -/
def indexers : Ty → List Signature
  | .array element => [⟨[.int32], element⟩]
  | .prim .string => [⟨[.int32], .char⟩]
  | t => t.ownIndexers

/-- Chooses among candidates for a method of the given name and owner. -/
def choose {α : Type} (candidates : List α) (parameters : α → List Ty) (arguments : List Term)
    (name owner : String) (span : Span) : Check α :=
  match selectOverload (candidates.map parameters) arguments with
  | .found i =>
    match candidates[i]? with
    | some c => pure c
    | none => fail (.noMethod name owner) span
  | .noneApplicable => fail (.noMethod name owner) span
  | .ambiguous => fail (.ambiguousMethod name owner) span

/-- Checks the indexing of a target. -/
def index (target : Term) (arguments : List (Check Term)) (span : Span) : Check Term := do
  let arguments ← values arguments
  let candidates := indexers target.type
  let owner := target.type.display
  match selectOverload (candidates.map (·.parameters)) arguments with
  | .found i =>
    match candidates[i]? with
    | some s => return .index target (convertArguments arguments s.parameters) s.returns span
    | none => fail (.noIndexer owner) span
  | .noneApplicable => fail (.noIndexer owner) span
  | .ambiguous => fail (.ambiguousMethod "this[]" owner) span

/-- Checks a method call on a target. -/
def method (target : Term) (name : String) (arguments : List (Check Term)) (span : Span) :
    Check Term :=
  match target.type.element?, Aggregate.ofName? name with
  | some element, some op => aggregate target element op arguments span
  | _, _ => do
    let arguments ← values arguments
    let owner := target.type.display
    let methods := target.type.methods name
    if methods.isEmpty then
      let b ← choose (Builtin.methods target.type name) (·.parameters) arguments name owner span
      return .intrinsic b.op target (convertArguments arguments b.parameters) b.returns span
    else
      let m ← choose methods (·.parameters) arguments name owner span
      return .call target name (convertArguments arguments m.parameters) m.returns span

/-- Checks the arguments of a delegate, each against the type of its
parameter before the next. -/
def invokeArguments : List (Check Term) → List Ty → Check (List Term)
  | c :: cs, t :: ts => do
    let e ← converted (← value c) t
    let es ← invokeArguments cs ts
    return e :: es
  | _, _ => return []

/-- Checks the call of a parameter. -/
def invoke (delegate : Term) (name : String) (arguments : List (Check Term)) (span : Span) :
    Check Term := do
  match delegate.type with
  | .delegate _ _ types returns =>
    if arguments.length != types.length then
      fail (.argumentCount delegate.type.display types.length arguments.length) span
    return .invoke delegate (← invokeArguments arguments types) returns span
  | type => fail (.noMethod name type.display) span

/-- Checks the call of a function of a predefined type. -/
def function (owner : KnownType) (name : Name) (arguments : List (Check Term)) (span : Span) :
    Check Term := do
  let candidates := Builtin.functions owner name.text
  if candidates.isEmpty then fail (.noStaticMember owner.name name.text) name.span
  let arguments ← values arguments
  let b ← choose candidates (·.parameters) arguments name.text owner.name span
  return .function b.op (convertArguments arguments b.parameters) b.returns span

/-- Checks a constant of a predefined type. -/
def staticConstant (owner : KnownType) (name : Name) (span : Span) : Check Term :=
  match Builtin.constant? owner name.text with
  | some value => pure (.ofScalar value span)
  | none => fail (.noStaticMember owner.name name.text) name.span

end QueryExpr.Check
