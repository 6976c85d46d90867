/-
# Assigning terms to types

Whether a term may stand where a type is wanted: by a conversion of its type,
or because it is an integer constant that the wanted type holds. Several
terms that have to agree are brought to a common type.

Key definitions: `Term.assignmentCost?`, `Term.coerce?`, `Ty.unify?`,
`Ty.equality?`, `Ty.negation?`, `Ty.best`.
Key theorems: `Term.assignmentCost?_le_one`.
-/
import QueryExpr.Term
import QueryExpr.Ty.Conversion
import QueryExpr.Failure

namespace QueryExpr

namespace Term

/-- Whether the term is an integer constant in the range of the type. -/
def fits (e : Term) (target : Ty) : Bool :=
  match e.integralConstant?, target.primitive? with
  | some n, some (.int t) => t.holds n
  | _, _ => false

/-- The number of conversions it takes to pass the term where the type is
wanted. -/
def assignmentCost? (e : Term) (target : Ty) : Option Nat :=
  match Ty.conversionCost? e.type target with
  | some n => some n
  | none => if e.fits target then some 1 else none

/-- Whether the term may stand where the type is wanted. -/
def isAssignable (e : Term) (target : Ty) : Bool := (e.assignmentCost? target).isSome

theorem assignmentCost?_le_one {e : Term} {t : Ty} {n : Nat} (h : e.assignmentCost? t = some n) :
    n ≤ 1 := by
  unfold assignmentCost? Ty.conversionCost? at h
  grind

/-- The term converted to the type, if it may stand where that is wanted. -/
def coerce? (e : Term) (target : Ty) : Option Term :=
  if e.isAssignable target then some (e.convertTo target) else none

end Term

namespace Ty

/-- The type that both a type and a further term convert to. -/
def unify? (current : Ty) (next : Term) : Option Ty :=
  if current == next.type then some current
  else if current.isNull then next.type.toNullable?
  else if next.type.isNull then current.toNullable?
  else
    match promote? current next.type false with
    | some t => some t
    | none =>
      if next.isAssignable current then some current
      else if current.converts next.type then some next.type
      else none

/-- The type that two terms are brought to before they are compared for
equality. -/
def equality? (left right : Term) : Option Ty :=
  match promote? left.type right.type false with
  | some t => some t
  | none =>
    if left.type == right.type then some left.type
    else if left.type.isNull then right.type.toNullable?
    else if right.type.isNull then left.type.toNullable?
    else if right.isAssignable left.type then some left.type
    else if left.isAssignable right.type then some right.type
    else none

/-- The type that a negated number has. `UInt64` has no negation. -/
def negation? (t : Ty) : Option Ty :=
  let promoted : Option Prim :=
    match t.primitive? with
    | some .char | some (.int .sbyte) | some (.int .byte) | some (.int .int16)
    | some (.int .uint16) | some (.int .int32) => some (.int .int32)
    | some (.int .uint32) | some (.int .int64) => some (.int .int64)
    | some .single => some .single
    | some .double => some .double
    | some .decimal => some .decimal
    | _ => none
  promoted.map (lift · t.isNullable)

/-- The common type of a type and further terms. -/
def bestOf (best : Ty) : List Term → Except Failure Ty
  | [] => .ok best
  | e :: es =>
    match unify? best e with
    | some t => bestOf t es
    | none => .error ⟨.noElementType best.display e.type.display, e.span⟩

/-- The type of the elements of an array without a type of its own: the common
type, and `Object` where there is none or nothing but null. -/
def best : List Term → Except Failure Ty
  | [] => .ok object
  | e :: es =>
    match bestOf e.type es with
    | .ok t => .ok (if t.isNull then object else t)
    | .error f => .error f

end Ty
end QueryExpr
