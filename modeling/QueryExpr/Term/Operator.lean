/-
# Operations of checked expressions

The operators, built-in functions and aggregates that a checked expression is
made of. A built-in function is settled by the checker and needs no host; an
aggregate works on any sequence.

Key definitions: `Operation`, `Operation.ofBinaryOp?`, `Intrinsic`,
`Aggregate`, `Aggregate.ofName?`.
-/
import QueryExpr.Expr.Operator

namespace QueryExpr

/-- The binary operators on values. -/
inductive Operation
  | add
  | subtract
  | multiply
  | divide
  | modulo
  /-- The texts of both operands joined. -/
  | concat
  | equal
  | notEqual
  | less
  | lessEqual
  | greater
  | greaterEqual
  | andAlso
  | orElse
  deriving DecidableEq, Repr

namespace Operation

/-- The name of the operator. -/
def name : Operation → String
  | .add => "Add"
  | .subtract => "Subtract"
  | .multiply => "Multiply"
  | .divide => "Divide"
  | .modulo => "Modulo"
  | .concat => "Concat"
  | .equal => "Equal"
  | .notEqual => "NotEqual"
  | .less => "LessThan"
  | .lessEqual => "LessThanOrEqual"
  | .greater => "GreaterThan"
  | .greaterEqual => "GreaterThanOrEqual"
  | .andAlso => "AndAlso"
  | .orElse => "OrElse"

/-- What a written operator does; `??` is a form of its own. -/
def ofBinaryOp? : BinaryOp → Option Operation
  | .coalesce => none
  | .or => some .orElse
  | .and => some .andAlso
  | .equal => some .equal
  | .notEqual => some .notEqual
  | .less => some .less
  | .lessEqual => some .lessEqual
  | .greater => some .greater
  | .greaterEqual => some .greaterEqual
  | .add => some .add
  | .subtract => some .subtract
  | .multiply => some .multiply
  | .divide => some .divide
  | .modulo => some .modulo

/-- Whether the operator asks for the order of its operands. -/
def isOrdering : Operation → Bool
  | .less | .lessEqual | .greater | .greaterEqual => true
  | _ => false

end Operation

/-- The built-in properties, methods and functions. -/
inductive Intrinsic
  | toString
  | equals
  | getHashCode
  | stringLength
  | stringContains
  | stringStartsWith
  | stringEndsWith
  | stringIndexOf
  | stringSubstring
  | stringToUpper
  | stringToLower
  | stringTrim
  | stringIsNullOrEmpty
  | arrayLength
  | nullableHasValue
  | nullableValue
  | mathAbs
  | mathMin
  | mathMax
  | mathFloor
  | mathCeiling
  | mathRound
  deriving DecidableEq, Repr

/-- The name of a built-in function. -/
def Intrinsic.name : Intrinsic → String
  | .toString => "ToString"
  | .equals => "Equals"
  | .getHashCode => "GetHashCode"
  | .stringLength => "StringLength"
  | .stringContains => "StringContains"
  | .stringStartsWith => "StringStartsWith"
  | .stringEndsWith => "StringEndsWith"
  | .stringIndexOf => "StringIndexOf"
  | .stringSubstring => "StringSubstring"
  | .stringToUpper => "StringToUpper"
  | .stringToLower => "StringToLower"
  | .stringTrim => "StringTrim"
  | .stringIsNullOrEmpty => "StringIsNullOrEmpty"
  | .arrayLength => "ArrayLength"
  | .nullableHasValue => "NullableHasValue"
  | .nullableValue => "NullableValue"
  | .mathAbs => "MathAbs"
  | .mathMin => "MathMin"
  | .mathMax => "MathMax"
  | .mathFloor => "MathFloor"
  | .mathCeiling => "MathCeiling"
  | .mathRound => "MathRound"

/-- The functions on sequences. -/
inductive Aggregate
  | any
  | all
  | count
  | sum
  | average
  | min
  | max
  | where
  | select
  | orderBy
  | orderByDescending
  | first
  | firstOrDefault
  | take
  | skip
  | contains
  deriving DecidableEq, Repr

namespace Aggregate

/-- The name of an aggregate. -/
def name : Aggregate → String
  | .any => "Any"
  | .all => "All"
  | .count => "Count"
  | .sum => "Sum"
  | .average => "Average"
  | .min => "Min"
  | .max => "Max"
  | .where => "Where"
  | .select => "Select"
  | .orderBy => "OrderBy"
  | .orderByDescending => "OrderByDescending"
  | .first => "First"
  | .firstOrDefault => "FirstOrDefault"
  | .take => "Take"
  | .skip => "Skip"
  | .contains => "Contains"

/-- All aggregates. -/
def every : List Aggregate :=
  [.any, .all, .count, .sum, .average, .min, .max, .where, .select, .orderBy,
    .orderByDescending, .first, .firstOrDefault, .take, .skip, .contains]

/-- The aggregate of a name. -/
def ofName? (name : String) : Option Aggregate := every.find? fun a => a.name == name

end Aggregate
end QueryExpr
