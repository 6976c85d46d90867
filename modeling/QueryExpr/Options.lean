/-
# Options

How expressions are read and checked: how deeply they may be nested, whether
a bare name may mean a member of `it`, and whether `+` joins texts.

Key definitions: `Options`.
-/

namespace QueryExpr

/-- The options of reading and checking. -/
structure Options where
  /-- The limit of the nesting. -/
  maxDepth : Nat := 200
  /-- Whether a bare name may mean a member of `it`. -/
  implicitMembers : Bool := true
  /-- Whether `+` joins texts when an operand is a text. -/
  stringConcatenation : Bool := true
  deriving DecidableEq, Repr

end QueryExpr
