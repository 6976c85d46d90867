/-
# Conversions between types

Which types convert to which: implicitly, where a value of one type may stand
for another without being asked; explicitly, by a conversion `T(x)`; and the
common type that two numbers are brought to by a binary operator.

Key definitions: `Ty.converts`, `Ty.conversionCost?`, `Ty.convertsExplicitly`,
`Ty.promote?`.
Key theorems: `Ty.conversionCost?_eq_some_zero`.
-/
import QueryExpr.Ty

namespace QueryExpr.Ty

/-- Whether `base` is one of the bases of `derived`. -/
def isBaseOf (base derived : Ty) : Bool := derived.bases.any (· == base)

/-- Whether a reference to the first type serves as one to the second without
any change of the value. -/
def convertsByReference (source target : Ty) : Bool :=
  source == target || (source.acceptsNull && target == object) ||
    match source with
    | .cls .. => isBaseOf target source
    | _ => false

/-- Whether a value of the first type may stand where the second is wanted. -/
def converts (source target : Ty) : Bool :=
  source == target ||
    match source, target with
    | .void, _ | _, .void => false
    | _, .prim .object => true
    | .null, _ => target.acceptsNull
    | .prim p, .prim q => p.widens q
    | .prim p, .nullable q | .nullable p, .nullable q => p.isValueType && p.widens q
    | .array e, .sequence u | .sequence e, .sequence u => convertsByReference e u
    | .array e, .array u => e.acceptsNull && convertsByReference e u
    | .cls _ _ _ _ (some e) _ _, .sequence u => convertsByReference e u || isBaseOf target source
    | .cls .., _ => isBaseOf target source
    | _, _ => false

/-- How many conversions it takes to pass the first type as the second: none
for the same type, otherwise one, if there is any. -/
def conversionCost? (source target : Ty) : Option Nat :=
  if source == target then some 0
  else if source.converts target then some 1
  else none

theorem conversionCost?_eq_some_zero (s t : Ty) :
    conversionCost? s t = some 0 ↔ (s == t) = true := by
  unfold conversionCost?
  split
  · simp_all
  · split <;> simp_all

/-- Whether a conversion `T(x)` leads from the first type to the second. -/
def convertsExplicitly (source target : Ty) : Bool :=
  source.converts target ||
    (!source.isVoid && !target.isVoid &&
      ((match source.primitive?, target.primitive? with
        | some p, some q => (p.isNumberLike && q.isNumberLike) || p == q
        | _, _ => false) ||
      source == object || isBaseOf source target))

/-- The types that operands are promoted to, narrowest first. -/
def promotions : List Prim :=
  [.int .int32, .int .uint32, .int .int64, .int .uint64, .single, .double, .decimal]

/-- The type that both operands of a numeric operator are brought to: the
first promotion that both widen to, where integers pass over `Single` and
`Double`. For a comparison, operands of one type stay as they are. The type
is nullable if an operand is. -/
def promote? (left right : Ty) (arithmetic : Bool) : Option Ty :=
  match left.primitive?, right.primitive? with
  | some p, some q =>
    if !(p.isNumberLike && q.isNumberLike) then none
    else
      let nullable := left.isNullable || right.isNullable
      if !arithmetic && p == q then some (lift p nullable)
      else
        let integers := p.isIntegerLike && q.isIntegerLike
        let allowed := promotions.filter fun c =>
          !(integers && (c == .single || c == .double))
        (allowed.find? fun c => p.widens c && q.widens c).map (lift · nullable)
  | _, _ => none

end QueryExpr.Ty
