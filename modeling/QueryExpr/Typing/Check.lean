/-
# Checking expressions

An expression is checked from the outside in: its parts are checked in the
order they are written, where the form of the expression asks for them. A
bare name is a constant, a parameter, or else a member of `it`; the name of a
predefined type is a member of `it` if `it` has such a member.

Key definitions: `Check.named`, `Check.expr`, `Expr.check`.
-/
import QueryExpr.Typing.Call
import QueryExpr.Typing.Operation

namespace QueryExpr
namespace Check

/-- Checks a bare name. -/
def named (o : Options) (n : Name) : Check Term := do
  let scopes ← scopes
  if n.text == implicitName then
    return reference (← ofExcept (scopes.resolveImplicit n.span)) n.span
  else
    match scopes.lookup? n.text with
    | some s =>
      match s.kind with
      | .constant c => return .ofScalar c n.span
      | .parameter _ => return reference s n.span
    | none =>
      match ← implicitTarget o n.span with
      | some it => member it n.text n.span
      | none => fail (.unknownName n.text) n.span

/-- Checks a bare type name. -/
def typeName (o : Options) (type : TypeName) : Check Term := do
  match ← shadowingTarget o type.name.text type.name.span with
  | some it => member it type.name.text type.name.span
  | none => fail (.expected "(") (.empty type.name.span.stop)

/-- Checks a member of a type name: a constant of the type, or a member of the
member of `it` that hides the type. -/
def memberOfType (o : Options) (owner : TypeName) (n : Name) (span : Span) : Check Term := do
  match ← shadowingTarget o owner.name.text owner.name.span with
  | some it =>
    let target ← member it owner.name.text owner.name.span
    member target n.text span
  | none => staticConstant owner.known n span

/-- Checks a call without a target: of the word `iif`, of a parameter, or of a
method of `it`. -/
def call (o : Options) (n : Name) (arguments : List (Check Term)) (span : Span) : Check Term := do
  if n.text == "iif" then
    match arguments with
    | [c, a, b] => conditional c a b span
    | _ => fail .iifArguments span
  else
    match ((← scopes).lookup? n.text).filter Symbol.isParameter with
    | some s => invoke (reference s n.span) n.text arguments span
    | none =>
      match ← implicitTarget o n.span with
      | some it => method it n.text arguments span
      | none => fail (.unknownName n.text) n.span

/-- Checks a call on a type name: of a function of the type, or of a method of
the member of `it` that hides the type. -/
def callOnType (o : Options) (owner : TypeName) (n : Name) (arguments : List (Check Term))
    (span : Span) : Check Term := do
  match ← shadowingTarget o owner.name.text owner.name.span with
  | some it =>
    let target ← member it owner.name.text owner.name.span
    method target n.text arguments span
  | none => function owner.known n arguments span

/-- Checks a conversion, or a call of the method of `it` that hides the type. -/
def convertOrCall (o : Options) (type : TypeName) (arguments : List (Check Term)) (span : Span) :
    Check Term := do
  match ← shadowingTarget o type.name.text type.name.span with
  | some it => method it type.name.text arguments span
  | none => conversion type.known arguments span

mutual
/-- Checks an expression. -/
def expr (o : Options) : Expr → Check Term
  | .literal v written span => literal v written span
  | .name n => named o n
  | .typeName type => typeName o type
  | .member (.typeName owner) n span => memberOfType o owner n span
  | .member target n span => do member (← value (expr o target)) n.text span
  | .index target arguments span => do
    index (← value (expr o target)) (exprs o arguments) span
  | .call n arguments span => call o n (exprs o arguments) span
  | .callOn (.typeName owner) n arguments span => callOnType o owner n (exprs o arguments) span
  | .callOn target n arguments span => do
    method (← value (expr o target)) n.text (exprs o arguments) span
  | .conversion type arguments span => convertOrCall o type (exprs o arguments) span
  | .unary op operand span => do unary op (← value (expr o operand)) span
  | .binary op left right span => do
    let l ← value (expr o left)
    let r ← value (expr o right)
    binary o op l r span
  | .conditional c a b span => conditional (expr o c) (expr o a) (expr o b) span
  | .inList operand items span => inList (expr o operand) (exprs o items) span
  | .inSource operand source span => inSource (expr o operand) (expr o source) span
  | .newRecord names items span => newRecord names (exprs o items) span
  | .newArray type items span => newArray type (exprs o items) span
termination_by structural e => e

/-- The checks of several expressions, each to be done when it is asked for. -/
def exprs (o : Options) : List Expr → List (Check Term)
  | [] => []
  | e :: es => expr o e :: exprs o es
termination_by structural es => es
end

end Check

/-- Checks a whole expression over the parameters of a table. -/
def Expr.check (e : Expr) (o : Options) (table : ParameterTable) (records : RecordCache) :
    Except Failure Term × RecordCache :=
  let (result, c) := Check.expr o e ⟨records, .ofTable table⟩
  (result, c.records)

end QueryExpr
