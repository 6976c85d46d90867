/-
# Errors of evaluation

What can go wrong while an expression is evaluated, and the text that says so.
An error carries what its text mentions.

Key definitions: `EvalError`, `EvalError.message`.
-/

namespace QueryExpr

/-- An error of evaluation. -/
inductive EvalError
  /-- Null where a value is needed; `what` says for what. -/
  | nullReference (what : String)
  | missingMember (typeName member : String)
  | missingMethod (typeName method : String)
  | notIndexable (typeName : String)
  | indexOutOfRange (index : Int) (length : Nat)
  | argumentOutOfRange (what : String)
  | divideByZero
  | emptySequence
  | argumentCount (expected found : Nat)
  | typeMismatch (expected found : String)
  | unboundParameter (name : String)
  deriving DecidableEq, Repr

/-- The text of an error. -/
def EvalError.message : EvalError → String
  | nullReference what => "Null reference in " ++ what ++ "."
  | missingMember typeName member =>
    "Type '" ++ typeName ++ "' has no property or field '" ++ member ++ "'."
  | missingMethod typeName method =>
    "Type '" ++ typeName ++ "' has no method '" ++ method ++ "' accepting these arguments."
  | notIndexable typeName => "Type '" ++ typeName ++ "' cannot be indexed."
  | indexOutOfRange index length =>
    "Index " ++ toString index ++ " is out of range for length " ++ toString length ++ "."
  | argumentOutOfRange what => "Argument out of range in " ++ what ++ "."
  | divideByZero => "Attempted to divide by zero."
  | emptySequence => "Sequence contains no elements."
  | argumentCount expected found =>
    "Expected " ++ toString expected ++ " arguments but " ++ toString found ++ " were supplied."
  | typeMismatch expected found =>
    "Expected a value of type '" ++ expected ++ "', found '" ++ found ++ "'."
  | unboundParameter name => "Parameter '" ++ name ++ "' is not bound."

end QueryExpr
