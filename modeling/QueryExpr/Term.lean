/-
# Checked expressions

A term is an expression whose names are resolved, whose overloads are chosen
and whose conversions are all written out. Every term has a type and the span
of the text it comes from, so that it can be evaluated without another look
at the rules of typing.

Key definitions: `Term`, `Term.type`, `Term.span`, `Term.size`,
`Term.isCallShaped`, `Term.convertTo`.
Key theorems: `Term.type_convertTo`.
-/
import QueryExpr.Term.Operator
import QueryExpr.Value.Scalar
import QueryExpr.Text.Span

namespace QueryExpr

/-- A checked expression. -/
inductive Term
  | constant (value : Scalar) (type : Ty) (span : Span)
  /-- The value bound to a name. -/
  | parameter (name : String) (type : Ty) (span : Span)
  /-- A property of a host object or of a record. -/
  | member (target : Term) (name : String) (type : Ty) (span : Span)
  | index (target : Term) (arguments : List Term) (type : Ty) (span : Span)
  /-- A method of a host object. -/
  | call (target : Term) (method : String) (arguments : List Term) (type : Ty) (span : Span)
  /-- A built-in property or method of a value. -/
  | intrinsic (op : Intrinsic) (target : Term) (arguments : List Term) (type : Ty) (span : Span)
  /-- A built-in function. -/
  | function (op : Intrinsic) (arguments : List Term) (type : Ty) (span : Span)
  /-- An aggregate without an argument. -/
  | aggregate (op : Aggregate) (source : Term) (type : Ty) (span : Span)
  /-- An aggregate with a body that is evaluated for each element as `it`. -/
  | aggregateBy (op : Aggregate) (source body : Term) (type : Ty) (span : Span)
  /-- An aggregate with an argument that is evaluated once. -/
  | aggregateWith (op : Aggregate) (source argument : Term) (type : Ty) (span : Span)
  /-- A conversion to the type of the term. -/
  | convert (operand : Term) (type : Ty) (span : Span)
  | unary (op : UnaryOp) (operand : Term) (type : Ty) (span : Span)
  | binary (op : Operation) (left right : Term) (type : Ty) (span : Span)
  | conditional (condition whenTrue whenFalse : Term) (type : Ty) (span : Span)
  | coalesce (left right : Term) (type : Ty) (span : Span)
  | inList (operand : Term) (candidates : List Term) (type : Ty) (span : Span)
  | inSequence (operand source : Term) (type : Ty) (span : Span)
  /-- A record of the term's type, with its values in order. -/
  | newRecord (values : List Term) (type : Ty) (span : Span)
  | newArray (elements : List Term) (type : Ty) (span : Span)
  /-- A delegate applied to arguments. -/
  | invoke (delegate : Term) (arguments : List Term) (type : Ty) (span : Span)

namespace Term

/-- The type of a term. -/
def type : Term → Ty
  | .constant _ type _ | .parameter _ type _ | .member _ _ type _ | .index _ _ type _
  | .call _ _ _ type _ | .intrinsic _ _ _ type _ | .function _ _ type _
  | .aggregate _ _ type _ | .aggregateBy _ _ _ type _ | .aggregateWith _ _ _ type _
  | .convert _ type _ | .unary _ _ type _ | .binary _ _ _ type _ | .conditional _ _ _ type _
  | .coalesce _ _ type _ | .inList _ _ type _ | .inSequence _ _ type _ | .newRecord _ type _
  | .newArray _ type _ | .invoke _ _ type _ => type

/-- The stretch of text that a term comes from. -/
def span : Term → Span
  | .constant _ _ span | .parameter _ _ span | .member _ _ _ span | .index _ _ _ span
  | .call _ _ _ _ span | .intrinsic _ _ _ _ span | .function _ _ _ span
  | .aggregate _ _ _ span | .aggregateBy _ _ _ _ span | .aggregateWith _ _ _ _ span
  | .convert _ _ span | .unary _ _ _ span | .binary _ _ _ _ span | .conditional _ _ _ _ span
  | .coalesce _ _ _ span | .inList _ _ _ span | .inSequence _ _ _ span | .newRecord _ _ span
  | .newArray _ _ span | .invoke _ _ _ span => span

/-- The term as if it came from another stretch of text. -/
def withSpan (span : Span) : Term → Term
  | .constant v t _ => .constant v t span
  | .parameter n t _ => .parameter n t span
  | .member e n t _ => .member e n t span
  | .index e as t _ => .index e as t span
  | .call e m as t _ => .call e m as t span
  | .intrinsic op e as t _ => .intrinsic op e as t span
  | .function op as t _ => .function op as t span
  | .aggregate op s t _ => .aggregate op s t span
  | .aggregateBy op s b t _ => .aggregateBy op s b t span
  | .aggregateWith op s a t _ => .aggregateWith op s a t span
  | .convert e t _ => .convert e t span
  | .unary op e t _ => .unary op e t span
  | .binary op l r t _ => .binary op l r t span
  | .conditional c a b t _ => .conditional c a b t span
  | .coalesce l r t _ => .coalesce l r t span
  | .inList e cs t _ => .inList e cs t span
  | .inSequence e s t _ => .inSequence e s t span
  | .newRecord vs t _ => .newRecord vs t span
  | .newArray es t _ => .newArray es t span
  | .invoke d as t _ => .invoke d as t span

/-- A constant of its natural type. -/
def ofScalar (value : Scalar) (span : Span) : Term := .constant value value.naturalType span

/-- Whether the term is the constant null, of whatever type. -/
def isNullConstant : Term → Bool
  | .constant .null _ _ => true
  | _ => false

/-- Whether the term is a constant whose number is an integer, and which. -/
def integralConstant? : Term → Option Int
  | .constant value _ _ => value.integral?
  | _ => none

/-- Whether a term may be evaluated for its effect alone. -/
def isCallShaped : Term → Bool
  | .call .. | .intrinsic .. | .function .. | .aggregate .. | .aggregateBy .. | .aggregateWith ..
  | .invoke .. => true
  | _ => false

/-- The term as one of the given type. A term that has the type stays; a null
constant is given the type; any other is wrapped in a conversion. -/
def convertTo (e : Term) (type : Ty) : Term :=
  if e.type == type then e
  else if e.isNullConstant then .constant .null type e.span
  else .convert e type e.span

theorem type_convertTo (e : Term) (t : Ty) :
    (e.convertTo t).type = if e.type == t then e.type else t := by
  unfold convertTo
  split
  · rfl
  · split <;> rfl

mutual
/-- The number of nodes. -/
def size : Term → Nat
  | .constant .. | .parameter .. => 1
  | .member target _ _ _ => target.size + 1
  | .index target arguments _ _ => target.size + sizeAll arguments + 1
  | .call target _ arguments _ _ => target.size + sizeAll arguments + 1
  | .intrinsic _ target arguments _ _ => target.size + sizeAll arguments + 1
  | .function _ arguments _ _ => sizeAll arguments + 1
  | .aggregate _ source _ _ => source.size + 1
  | .aggregateBy _ source body _ _ => source.size + body.size + 1
  | .aggregateWith _ source argument _ _ => source.size + argument.size + 1
  | .convert operand _ _ => operand.size + 1
  | .unary _ operand _ _ => operand.size + 1
  | .binary _ left right _ _ => left.size + right.size + 1
  | .conditional condition whenTrue whenFalse _ _ =>
    condition.size + whenTrue.size + whenFalse.size + 1
  | .coalesce left right _ _ => left.size + right.size + 1
  | .inList operand candidates _ _ => operand.size + sizeAll candidates + 1
  | .inSequence operand source _ _ => operand.size + source.size + 1
  | .newRecord values _ _ => sizeAll values + 1
  | .newArray elements _ _ => sizeAll elements + 1
  | .invoke delegate arguments _ _ => delegate.size + sizeAll arguments + 1
termination_by structural e => e

/-- The number of nodes of several terms. -/
def sizeAll : List Term → Nat
  | [] => 0
  | e :: es => e.size + sizeAll es
termination_by structural es => es
end

end Term
end QueryExpr
