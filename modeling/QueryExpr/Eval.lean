/-
# Evaluation

A checked expression is evaluated with the help of a host. Operands come to
their values from left to right; the first error ends it. A lambda binds its
arguments to its parameters and evaluates its body; what has no value gives
null.

Key definitions: `Eval.term`, `Eval.terms`, `Lambda.invoke`.
-/
import QueryExpr.Eval.Access
import QueryExpr.Eval.Builtin
import QueryExpr.Eval.Control
import QueryExpr.Eval.Sequence
import QueryExpr.Lambda

namespace QueryExpr

namespace Eval

mutual
/-- Evaluates a checked expression. -/
def term (host : Host) : Term → Eval Value
  | .constant s _ _ => return .scalar s
  | .parameter name _ _ => lookup name
  | .member target name _ _ => do ofExcept ((← term host target).member host name)
  | .index target arguments _ _ => do
    let v ← term host target
    index host v (← values (terms host arguments))
  | .call target method arguments _ _ => do
    let v ← term host target
    call host v method (← values (terms host arguments))
  | .intrinsic op target arguments _ _ => do
    let v ← term host target
    ofExcept (op.apply v (← values (terms host arguments)))
  | .function op arguments _ _ => do
    ofExcept (op.apply .null (← values (terms host arguments)))
  | .aggregate op source type _ => do
    aggregate op (← ofExcept ((← term host source).elements host)) none none type
  | .aggregateBy op source body type _ => do
    aggregate op (← ofExcept ((← term host source).elements host)) (some (term host body)) none
      type
  | .aggregateWith op source argument type _ => do
    let items ← ofExcept ((← term host source).elements host)
    aggregate op items none (some (← term host argument)) type
  | .convert operand type _ => do ofExcept ((← term host operand).convert type)
  | .unary op operand _ _ => do ofExcept (op.apply (← term host operand))
  | .binary .andAlso left right _ _ => conjunction (term host left) (term host right)
  | .binary .orElse left right _ _ => disjunction (term host left) (term host right)
  | .binary op left right _ _ => do
    let l ← term host left
    ofExcept (op.apply l (← term host right))
  | .conditional condition whenTrue whenFalse _ _ =>
    conditional (term host condition) (term host whenTrue) (term host whenFalse)
  | .coalesce left right _ _ => coalesce (term host left) (term host right)
  | .inList operand candidates _ _ => do
    let v ← term host operand
    return .boolean (← isAmong v (terms host candidates))
  | .inSequence operand source _ _ => do
    let v ← term host operand
    let items ← ofExcept ((← term host source).elements host)
    return .boolean (items.any v.equals)
  | .newRecord entries type _ =>
    match type with
    | .record id properties => do
      ofExcept (Value.ofRecord ⟨id, properties⟩ (← values (terms host entries)))
    | _ => throw (.typeMismatch "record" type.display)
  | .newArray elements _ _ => do newList (← values (terms host elements))
  | .invoke delegate arguments _ _ => do
    let v ← term host delegate
    invoke host v (← values (terms host arguments))
termination_by structural e => e

/-- The evaluations of several expressions, each to be done when it is asked
for. -/
def terms (host : Host) : List Term → List (Eval Value)
  | [] => []
  | e :: es => term host e :: terms host es
termination_by structural es => es
end

end Eval

namespace Lambda

/-- Evaluates the body with the given arguments as the parameters. -/
def invoke (host : Host) (f : Lambda) (arguments : List Value) : Eval Value := do
  if f.parameters.length != arguments.length then
    throw (.argumentCount f.parameters.length arguments.length)
  let names := f.parameters.map Declaration.boundName
  let v ← Eval.withBindings (names.zip arguments) (Eval.term host f.body)
  return if f.returns.isVoid then .null else v

end Lambda
end QueryExpr
