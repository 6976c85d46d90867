/-
# Expressions

The tree of an expression as it is written. Every node has the span of the
text it stands for; parentheses leave no trace. A name that needs no
declaration is a type name wherever it stands, unless a declared parameter
has the same name.

Key definitions: `Literal`, `Name`, `TypeName`, `Expr`, `Expr.span`,
`Expr.size`, `Expr.propertyName?`.
-/
import QueryExpr.Expr.Operator
import QueryExpr.Text.Span
import QueryExpr.Ty.Primitive

namespace QueryExpr

/-- The suffix of an integer literal. -/
inductive IntegerSuffix
  | none
  | unsigned
  | long
  | unsignedLong
  deriving DecidableEq, Repr

/-- The suffix of a real literal. -/
inductive RealSuffix
  | none
  | single
  | double
  | decimal
  deriving DecidableEq, Repr

/-- What a literal stands for. A minus sign directly before a number belongs
to it. -/
inductive Literal
  | integer (magnitude : Nat) (negative : Bool) (suffix : IntegerSuffix)
  | real (value : Float) (suffix : RealSuffix)
  | string (value : String)
  | char (value : Char)
  | boolean (value : Bool)
  | null

/-- A name, and where it stands. -/
structure Name where
  text : String
  span : Span
  deriving DecidableEq, Inhabited

/-- The name of a type that needs no declaration, and the type it stands for. -/
structure TypeName where
  name : Name
  known : KnownType
  deriving DecidableEq

/-- An expression as it is written. -/
inductive Expr
  /-- A literal, with its spelling. -/
  | literal (value : Literal) (written : String) (span : Span)
  /-- A bare name. -/
  | name (name : Name)
  /-- A bare type name. -/
  | typeName (type : TypeName)
  /-- Member access, `target.name`. -/
  | member (target : Expr) (name : Name) (span : Span)
  /-- Indexing, `target[arguments]`. -/
  | index (target : Expr) (arguments : List Expr) (span : Span)
  /-- A call without a target, `name(arguments)`. -/
  | call (name : Name) (arguments : List Expr) (span : Span)
  /-- A call on a target, `target.name(arguments)`. -/
  | callOn (target : Expr) (name : Name) (arguments : List Expr) (span : Span)
  /-- A conversion, `T(arguments)`. -/
  | conversion (type : TypeName) (arguments : List Expr) (span : Span)
  | unary (op : UnaryOp) (operand : Expr) (span : Span)
  | binary (op : BinaryOp) (left right : Expr) (span : Span)
  | conditional (condition whenTrue whenFalse : Expr) (span : Span)
  /-- Membership in a list, `operand in (candidates)`. -/
  | inList (operand : Expr) (candidates : List Expr) (span : Span)
  /-- Membership in a sequence, `operand in source`. -/
  | inSource (operand source : Expr) (span : Span)
  /-- A projection into a record: a name for each value. -/
  | newRecord (names : List Name) (values : List Expr) (span : Span)
  /-- An array of the given elements. -/
  | newArray (elementType : Option TypeName) (elements : List Expr) (span : Span)

namespace Expr

/-- The stretch of text that an expression stands for. -/
def span : Expr → Span
  | .literal _ _ span => span
  | .name n => n.span
  | .typeName type => type.name.span
  | .member _ _ span | .index _ _ span | .call _ _ span | .callOn _ _ _ span
  | .conversion _ _ span | .unary _ _ span | .binary _ _ _ span | .conditional _ _ _ span
  | .inList _ _ span | .inSource _ _ span | .newRecord _ _ span | .newArray _ _ span => span

/-- The name that a projected expression gives to its property: that of a bare
name other than `it`, or of the last member accessed. -/
def propertyName? : Expr → Option String
  | .name n => if n.text.map Char.toLower == "it" then none else some n.text
  | .member _ n _ => some n.text
  | _ => none

/-- Whether the expression is the literal `null`. -/
def isNull : Expr → Bool
  | .literal .null _ _ => true
  | _ => false

mutual
/-- The number of nodes. -/
def size : Expr → Nat
  | .literal _ _ _ | .name _ | .typeName _ => 1
  | .member target _ _ => target.size + 1
  | .index target arguments _ => target.size + sizeAll arguments + 1
  | .call _ arguments _ => sizeAll arguments + 1
  | .callOn target _ arguments _ => target.size + sizeAll arguments + 1
  | .conversion _ arguments _ => sizeAll arguments + 1
  | .unary _ operand _ => operand.size + 1
  | .binary _ left right _ => left.size + right.size + 1
  | .conditional condition whenTrue whenFalse _ =>
    condition.size + whenTrue.size + whenFalse.size + 1
  | .inList operand candidates _ => operand.size + sizeAll candidates + 1
  | .inSource operand source _ => operand.size + source.size + 1
  | .newRecord _ values _ => sizeAll values + 1
  | .newArray _ elements _ => sizeAll elements + 1
termination_by structural e => e

/-- The number of nodes of several expressions. -/
def sizeAll : List Expr → Nat
  | [] => 0
  | e :: es => e.size + sizeAll es
termination_by structural es => es
end

end Expr
end QueryExpr
