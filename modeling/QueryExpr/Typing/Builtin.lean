/-
# Built-in members

The methods and properties that values have without a host: those of every
value, of text, of arrays and of nullable values, the functions of `Math`, and
the constants of the predefined types.

Key definitions: `Builtin`, `Builtin.methods`, `Builtin.property?`,
`Builtin.functions`, `Builtin.constant?`.
-/
import QueryExpr.Term

namespace QueryExpr

/-- An overload of a built-in method. -/
structure Builtin where
  op : Intrinsic
  parameters : List Ty
  returns : Ty

namespace Builtin

/-- The methods of every value. -/
def anyMethods (name : String) : List Builtin :=
  match name with
  | "ToString" => [⟨.toString, [], .string⟩]
  | "Equals" => [⟨.equals, [.object], .boolean⟩]
  | "GetHashCode" => [⟨.getHashCode, [], .int32⟩]
  | _ => []

/-- The methods of text. -/
def stringMethods (name : String) : List Builtin :=
  match name with
  | "Contains" => [⟨.stringContains, [.string], .boolean⟩]
  | "StartsWith" => [⟨.stringStartsWith, [.string], .boolean⟩]
  | "EndsWith" => [⟨.stringEndsWith, [.string], .boolean⟩]
  | "IndexOf" => [⟨.stringIndexOf, [.string], .int32⟩, ⟨.stringIndexOf, [.char], .int32⟩]
  | "Substring" =>
    [⟨.stringSubstring, [.int32], .string⟩, ⟨.stringSubstring, [.int32, .int32], .string⟩]
  | "ToUpper" => [⟨.stringToUpper, [], .string⟩]
  | "ToLower" => [⟨.stringToLower, [], .string⟩]
  | "Trim" => [⟨.stringTrim, [], .string⟩]
  | _ => []

/-- The built-in methods of a name on a value of the type. -/
def methods (target : Ty) (name : String) : List Builtin :=
  anyMethods name ++ if target.isString then stringMethods name else []

/-- The built-in property of a name on a value of the type, and its type. -/
def property? (target : Ty) (name : String) : Option (Intrinsic × Ty) :=
  match target, name with
  | .prim .string, "Length" => some (.stringLength, .int32)
  | .array _, "Length" => some (.arrayLength, .int32)
  | .nullable _, "HasValue" => some (.nullableHasValue, .boolean)
  | .nullable p, "Value" => some (.nullableValue, .prim p)
  | _, _ => none

/-- The numeric types with negative numbers. -/
def signedTypes : List Prim :=
  [.int .sbyte, .int .int16, .int .int32, .int .int64, .single, .double, .decimal]

/-- All numeric types. -/
def numericTypes : List Prim :=
  [.int .sbyte, .int .byte, .int .int16, .int .uint16, .int .int32, .int .uint32, .int .int64,
    .int .uint64, .single, .double, .decimal]

/-- A function from each of the types to itself. -/
def unaries (op : Intrinsic) (types : List Prim) : List Builtin :=
  types.map fun p => ⟨op, [.prim p], .prim p⟩

/-- A function from two values of each numeric type to that type. -/
def binaries (op : Intrinsic) : List Builtin :=
  numericTypes.map fun p => ⟨op, [.prim p, .prim p], .prim p⟩

/-- The built-in functions of a name in a predefined type. -/
def functions (owner : KnownType) (name : String) : List Builtin :=
  match owner, name with
  | .math, "Abs" => unaries .mathAbs signedTypes
  | .math, "Min" => binaries .mathMin
  | .math, "Max" => binaries .mathMax
  | .math, "Floor" => unaries .mathFloor [.double, .decimal]
  | .math, "Ceiling" => unaries .mathCeiling [.double, .decimal]
  | .math, "Round" => unaries .mathRound [.double, .decimal]
  | .prim .string, "IsNullOrEmpty" => [⟨.stringIsNullOrEmpty, [.string], .boolean⟩]
  | _, _ => []

/-- The greatest finite single. -/
def greatestSingle : Float32 := Binary.single (Binary.Format.single.infinity - 1)

/-- The greatest finite double. -/
def greatestDouble : Float := Binary.double (Binary.Format.double.infinity - 1)

/-- The greatest decimal. -/
def greatestDecimal : Float := Binary.doubleOfInt 79228162514264337593543950335

/-- The constant of a name in a predefined type. -/
def constant? (owner : KnownType) (name : String) : Option Scalar :=
  match owner, name with
  | .prim .string, "Empty" => some (.string "")
  | .prim .char, "MaxValue" => some (.char '\uffff')
  | .prim .char, "MinValue" => some (.char (Char.ofNat 0))
  | .prim (.int t), "MaxValue" => some (.int (.clamp t t.max))
  | .prim (.int t), "MinValue" => some (.int (.clamp t t.min))
  | .prim .single, "MaxValue" => some (.single greatestSingle)
  | .prim .single, "MinValue" => some (.single (-greatestSingle))
  | .prim .double, "MaxValue" => some (.double greatestDouble)
  | .prim .double, "MinValue" => some (.double (-greatestDouble))
  | .prim .decimal, "MaxValue" => some (.decimal greatestDecimal)
  | .prim .decimal, "MinValue" => some (.decimal (-greatestDecimal))
  | _, _ => none

end Builtin
end QueryExpr
