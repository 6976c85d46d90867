/-
# Primitive types

The scalar types that an expression can mention by name, and which of them
widen to which others. An integer type widens to another whose range includes
its own; characters count as the integers from 0 to 65535; every integer
widens to every floating-point type.

Key definitions: `Prim`, `Prim.name`, `Prim.widens`, `KnownType`,
`KnownType.ofName?`.
Key theorems: `Prim.widens_refl`.
-/
import QueryExpr.Number.Sized

namespace QueryExpr

/-- The scalar types. -/
inductive Prim
  | boolean
  | char
  | int (t : IntType)
  | single
  | double
  | decimal
  | string
  | object
  deriving DecidableEq, Repr

/-- The name of an integer type. -/
def IntType.name : IntType → String
  | .sbyte => "SByte"
  | .byte => "Byte"
  | .int16 => "Int16"
  | .uint16 => "UInt16"
  | .int32 => "Int32"
  | .uint32 => "UInt32"
  | .int64 => "Int64"
  | .uint64 => "UInt64"

namespace Prim

/-- The name of the type. -/
def name : Prim → String
  | .boolean => "Boolean"
  | .char => "Char"
  | .int t => t.name
  | .single => "Single"
  | .double => "Double"
  | .decimal => "Decimal"
  | .string => "String"
  | .object => "Object"

/-- Integer types. -/
def isIntegral : Prim → Bool
  | .int _ => true
  | _ => false

/-- Integer and floating-point types. -/
def isNumeric : Prim → Bool
  | .int _ | .single | .double | .decimal => true
  | _ => false

/-- The types with numbers behind them: the numeric ones and characters. -/
def isNumberLike (p : Prim) : Bool := p.isNumeric || p == .char

/-- The types with integers behind them: the integer types and characters. -/
def isIntegerLike (p : Prim) : Bool := p.isIntegral || p == .char

/-- The types whose values are never null. -/
def isValueType : Prim → Bool
  | .string | .object => false
  | _ => true

/-- The types that have an order: all but `Object`. -/
def isOrderable : Prim → Bool
  | .object => false
  | _ => true

/-- Whether every value of the first type is one of the second, by range. -/
def widens (source target : Prim) : Bool :=
  source == target || target == .object ||
    match source, target with
    | .int s, .int t => t.min ≤ s.min && s.max ≤ t.max
    | .char, .int t => t.min ≤ 0 && 65535 ≤ t.max
    | .int _, .single | .int _, .double | .int _, .decimal => true
    | .char, .single | .char, .double | .char, .decimal => true
    | .single, .double | .single, .decimal => true
    | .double, .decimal => true
    | _, _ => false

theorem widens_refl (p : Prim) : p.widens p = true := by simp [widens]

end Prim

/-- A type name that needs no declaration: a primitive type, or the functions
of `Math`. -/
inductive KnownType
  | prim (p : Prim)
  | math
  deriving DecidableEq, Repr

namespace KnownType

/-- The name of the type. -/
def name : KnownType → String
  | .prim p => p.name
  | .math => "Math"

/-- The type that a name, or its short form, stands for. -/
def ofName? : String → Option KnownType
  | "Object" | "object" => some (.prim .object)
  | "Boolean" | "bool" => some (.prim .boolean)
  | "Char" | "char" => some (.prim .char)
  | "String" | "string" => some (.prim .string)
  | "SByte" | "sbyte" => some (.prim (.int .sbyte))
  | "Byte" | "byte" => some (.prim (.int .byte))
  | "Int16" | "short" => some (.prim (.int .int16))
  | "UInt16" | "ushort" => some (.prim (.int .uint16))
  | "Int32" | "int" => some (.prim (.int .int32))
  | "UInt32" | "uint" => some (.prim (.int .uint32))
  | "Int64" | "long" => some (.prim (.int .int64))
  | "UInt64" | "ulong" => some (.prim (.int .uint64))
  | "Single" | "float" => some (.prim .single)
  | "Double" | "double" => some (.prim .double)
  | "Decimal" | "decimal" => some (.prim .decimal)
  | "Math" => some .math
  | _ => none

end KnownType
end QueryExpr
