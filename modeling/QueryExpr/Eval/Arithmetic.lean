/-
# Conversions and operators on values

A conversion to a numeric type or to `Char` reduces an integer into the range
of the type, and brings a floating-point number to the nearest integer of the
range on the side of zero. A conversion to any other type leaves the value as
it is.

An operator of arithmetic works on two numbers of one type and gives a third:
integers wrap around, floating-point numbers round. Null makes the result
null. Values that do not compare are in no order.

Key definitions: `Scalar.cast?`, `Value.convert`, `UnaryOp.apply`,
`Operation.onIntegers`, `Operation.arithmetic`, `Operation.apply`.
Key theorems: `Value.convert_null`, `Operation.arithmetic_null`.
-/
import QueryExpr.Term.Operator
import QueryExpr.Value

namespace QueryExpr

/-- The character with the lowest sixteen bits of `n` as its number. A number
that belongs to no character gives the replacement character. -/
def charOfInt (n : Int) : Char :=
  let code := (n % 65536).toNat
  if code.isValidChar then Char.ofNat code else Char.ofNat 0xfffd

namespace Scalar

/-- The integer `n` as a value of a numeric type or of `Char`. -/
def ofInteger? (p : Prim) (n : Int) : Option Scalar :=
  match p with
  | .int t => some (.int (.wrap t n))
  | .single => some (.single (Binary.singleOfInt n))
  | .double => some (.double (Binary.doubleOfInt n))
  | .decimal => some (.decimal (Binary.doubleOfInt n))
  | .char => some (.char (charOfInt n))
  | .boolean | .string | .object => none

/-- The number `x` as a value of a numeric type or of `Char`. On the way to a
character the number is brought into the range of 128 bits. -/
def ofDouble? (p : Prim) (x : Float) : Option Scalar :=
  match p with
  | .int t => some (.int (.clamp t (Binary.truncate x)))
  | .single => some (.single (Binary.narrow x))
  | .double => some (.double x)
  | .decimal => some (.decimal x)
  | .char =>
    let bound : Int := (Nat.pow 2 127 : Nat)
    some (.char (charOfInt (max (-bound) (min (bound - 1) (Binary.truncate x)))))
  | .boolean | .string | .object => none

/-- A number or a character as a value of a numeric type or of `Char`. -/
def cast? (p : Prim) (s : Scalar) : Option Scalar :=
  match s.integer? with
  | some n => ofInteger? p n
  | none => s.double?.bind (ofDouble? p)

end Scalar

namespace Value

/-- The value as one of a primitive type. -/
def cast (p : Prim) (v : Value) : Except EvalError Value :=
  match v with
  | .scalar s =>
    match s.cast? p with
    | some t => .ok (.scalar t)
    | none => .error (.typeMismatch p.name "Object")
  | _ => .error (.typeMismatch p.name "Object")

/-- The value as one of a type. -/
def convert (type : Ty) (v : Value) : Except EvalError Value :=
  match type.primitive? with
  | none => .ok v
  | some p =>
    if v.isNull && type.isNullable then .ok null
    else if !p.isNumberLike then .ok v
    else if v.isNull then .error (.nullReference ("conversion to '" ++ type.display ++ "'"))
    else v.cast p

theorem convert_null (p : Prim) : convert (.nullable p) null = .ok null := rfl

end Value

/-- Applies a unary operator. -/
def UnaryOp.apply (op : UnaryOp) (v : Value) : Except EvalError Value :=
  if v.isNull then .ok .null
  else
    match op, v with
    | .not, .scalar (.boolean b) => .ok (.boolean !b)
    | .negate, .scalar (.int n) =>
      if n.type == .int32 || n.type == .int64 then .ok (.scalar (.int (.wrap n.type (-n.value))))
      else .error (.typeMismatch "numeric or Boolean" v.typeName)
    | .negate, .scalar (.single x) => .ok (.scalar (.single (-x)))
    | .negate, .scalar (.double x) => .ok (.scalar (.double (-x)))
    | .negate, .scalar (.decimal x) => .ok (.scalar (.decimal (-x)))
    | _, _ => .error (.typeMismatch "numeric or Boolean" v.typeName)

/-- The integer types that have operators of arithmetic. -/
def IntType.hasArithmetic : IntType → Bool
  | .int32 | .uint32 | .int64 | .uint64 => true
  | _ => false

namespace Operation

/-- The error of an operator that is none of arithmetic. -/
def notArithmetic (op : Operation) : EvalError := .typeMismatch "arithmetic operator" op.name

/-- An operator of arithmetic on integers. Division goes towards zero. -/
def onIntegers (op : Operation) (a b : Int) : Except EvalError Int :=
  match op with
  | .add => .ok (a + b)
  | .subtract => .ok (a - b)
  | .multiply => .ok (a * b)
  | .divide => if b == 0 then .error .divideByZero else .ok (a.tdiv b)
  | .modulo => if b == 0 then .error .divideByZero else .ok (a.tmod b)
  | _ => .error op.notArithmetic

/-- An operator of arithmetic on doubles. -/
def onDoubles (op : Operation) (x y : Float) : Except EvalError Float :=
  match op with
  | .add => .ok (x + y)
  | .subtract => .ok (x - y)
  | .multiply => .ok (x * y)
  | .divide => .ok (x / y)
  | .modulo => .ok (Binary.remainder x y)
  | _ => .error op.notArithmetic

/-- An operator of arithmetic on singles. -/
def onSingles (op : Operation) (x y : Float32) : Except EvalError Float32 :=
  match op with
  | .add => .ok (x + y)
  | .subtract => .ok (x - y)
  | .multiply => .ok (x * y)
  | .divide => .ok (x / y)
  | .modulo => .ok (Binary.narrow (Binary.remainder (Binary.widen x) (Binary.widen y)))
  | _ => .error op.notArithmetic

/-- An operator of arithmetic on decimals, which have no quotient by zero. -/
def onDecimals (op : Operation) (x y : Float) : Except EvalError Float :=
  if y == 0.0 && (op == .divide || op == .modulo) then .error .divideByZero else op.onDoubles x y

/-- Applies an operator of arithmetic. -/
def arithmetic (op : Operation) (left right : Value) : Except EvalError Value :=
  if left.isNull || right.isNull then .ok .null
  else
    match left, right with
    | .scalar (.int m), .scalar (.int n) =>
      if m.type == n.type && m.type.hasArithmetic then
        (op.onIntegers m.value n.value).map fun r => .scalar (.int (.wrap m.type r))
      else .error (.typeMismatch left.typeName right.typeName)
    | .scalar (.single x), .scalar (.single y) =>
      (op.onSingles x y).map fun r => .scalar (.single r)
    | .scalar (.double x), .scalar (.double y) =>
      (op.onDoubles x y).map fun r => .scalar (.double r)
    | .scalar (.decimal x), .scalar (.decimal y) =>
      (op.onDecimals x y).map fun r => .scalar (.decimal r)
    | _, _ => .error (.typeMismatch left.typeName right.typeName)

theorem arithmetic_null (op : Operation) (v : Value) : op.arithmetic .null v = .ok .null := rfl

/-- Whether an operator of order holds of two values in the given order. -/
def holdsOf (op : Operation) (o : Ordering) : Bool :=
  match op with
  | .less => o == .lt
  | .lessEqual => o != .gt
  | .greater => o == .gt
  | _ => o != .lt

/-- Applies an operator to the values of both operands. -/
def apply (op : Operation) (left right : Value) : Except EvalError Value :=
  match op with
  | .concat => .ok (.string (left.text ++ right.text))
  | .equal => .ok (.boolean (left.equals right))
  | .notEqual => .ok (.boolean !(left.equals right))
  | .less | .lessEqual | .greater | .greaterEqual =>
    .ok (.boolean ((left.compare? right).any op.holdsOf))
  | _ => op.arithmetic left right

end Operation
end QueryExpr
