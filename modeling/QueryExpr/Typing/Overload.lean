/-
# Choosing among overloads

A candidate is a list of parameter types. It is applicable if it has as many
parameters as there are arguments and every argument can be passed. Among the
applicable candidates the one with the least total cost is chosen; several
with that cost are ambiguous.

Key definitions: `Resolution`, `totalCost?`, `applicable`, `resolveOverload`.
-/
import QueryExpr.Typing.Assignment

namespace QueryExpr

/-- What a choice among candidates comes to. -/
inductive Resolution
  | found (index : Nat)
  | noneApplicable
  | ambiguous
  deriving DecidableEq, Repr

/-- The total cost of passing the arguments from number `i` on, where
`cost i t` is the cost of passing argument `i` as `t`. -/
def totalCost? (cost : Nat → Ty → Option Nat) (i : Nat) : List Ty → Option Nat
  | [] => some 0
  | t :: ts =>
    match cost i t, totalCost? cost (i + 1) ts with
    | some n, some m => some (n + m)
    | _, _ => none

/-- The applicable candidates with their total costs. -/
def applicable (cost : Nat → Ty → Option Nat) (arity : Nat) (candidates : List (List Ty)) :
    List (Nat × Nat) :=
  candidates.zipIdx.filterMap fun (parameters, index) =>
    if parameters.length == arity then (totalCost? cost 0 parameters).map fun n => (index, n)
    else none

/-- Chooses among candidates for a number of arguments. -/
def resolveOverload (candidates : List (List Ty)) (arity : Nat) (cost : Nat → Ty → Option Nat) :
    Resolution :=
  let found := applicable cost arity candidates
  match (found.map (·.2)).min? with
  | none => .noneApplicable
  | some least =>
    match found.filter fun c => c.2 == least with
    | [(index, _)] => .found index
    | _ => .ambiguous

/-- Chooses among candidates for terms as arguments. -/
def selectOverload (candidates : List (List Ty)) (arguments : List Term) : Resolution :=
  resolveOverload candidates arguments.length fun i t => arguments[i]?.bind (·.assignmentCost? t)

/-- The arguments converted to the types of the parameters. -/
def convertArguments (arguments : List Term) (parameters : List Ty) : List Term :=
  List.zipWith Term.convertTo arguments parameters

end QueryExpr
