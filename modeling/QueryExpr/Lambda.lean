/-
# Lambdas

A checked expression as a function of its parameters. What the function has
to return may be given, as a type or by a delegate; the body is then
converted to it. A function that has to return nothing needs a body that is
evaluated for its effect.

Key definitions: `Lambda`, `Target`, `Lambda.convertBody`, `Lambda.assemble`.
-/
import QueryExpr.Typing.Assignment

namespace QueryExpr

/-- A checked body with the parameters it is a function of. -/
structure Lambda where
  parameters : List Declaration
  body : Term
  returns : Ty
  delegate : Ty

/-- What a lambda has to return: what its body comes to, a given type, or what
a delegate returns. -/
inductive Target
  | inferred
  | type (t : Ty)
  | delegate (d : Delegate)

namespace Target

/-- The target of an optional type. -/
def ofOption : Option Ty → Target
  | none => .inferred
  | some t => .type t

end Target

namespace Lambda

/-- The first parameter that has another type than the delegate declares, as
the two types. -/
def mismatch? : List Declaration → List Declaration → Option (Ty × Ty)
  | d :: ds, p :: ps => if d.type == p.type then mismatch? ds ps else some (d.type, p.type)
  | _, _ => none

/-- Parameters given along with a delegate have to match its own in number
and types. -/
def checkParameters (d : Delegate) (parameters : List Declaration) : Except Failure Unit :=
  if d.parameters.length != parameters.length then
    .error ⟨.parameterCount d.display d.parameters.length parameters.length, .empty 0⟩
  else
    match mismatch? d.parameters parameters with
    | some (declared, supplied) =>
      .error ⟨.noConversion declared.display supplied.display, .empty 0⟩
    | none => .ok ()

/-- The body as one that returns the wanted type. -/
def convertBody (body : Term) (wanted : Ty) : Except Failure Term :=
  if wanted.isVoid then
    if body.type.isVoid || body.isCallShaped then .ok body
    else .error ⟨.callExpected body.type.display, body.span⟩
  else if body.type.isVoid then .error ⟨.typeMismatch wanted.display "Void", body.span⟩
  else
    match body.coerce? wanted with
    | some e => .ok e
    | none => .error ⟨.typeMismatch wanted.display body.type.display, body.span⟩

/-- The function of the given parameters with the given body. -/
def assemble (parameters : List Declaration) (body : Term) (target : Target) :
    Except Failure Lambda :=
  match target with
  | .inferred => .ok ⟨parameters, body, body.type, .ofDelegate none parameters body.type⟩
  | .type wanted => do
    let body ← convertBody body wanted
    return ⟨parameters, body, wanted, .ofDelegate none parameters wanted⟩
  | .delegate d => do
    checkParameters d parameters
    let body ← convertBody body d.returns
    return ⟨parameters, body, d.returns, d.type⟩

end Lambda
end QueryExpr
