/-
# Scalar values

The values without parts: null, truth values, characters, integers of each
type, floating-point numbers, and text. A decimal is carried as a double, and
remembers that it is one.

Scalars compare by what they stand for: numbers and characters by their
number, whatever their types, text by its characters.

Key definitions: `Scalar`, `Scalar.naturalType`, `Scalar.integer?`,
`Scalar.double?`, `Scalar.compare?`, `Scalar.equals`, `Scalar.text`,
`Scalar.literal`.
Key theorems: `Scalar.compare?_null`.
-/
import QueryExpr.Ty
import QueryExpr.Number.Shortest

namespace QueryExpr

/-- A value without parts. -/
inductive Scalar
  | null
  | boolean (value : Bool)
  | char (value : Char)
  | int (value : SizedInt)
  | single (value : Float32)
  | double (value : Float)
  | decimal (value : Float)
  | string (value : String)

namespace Scalar

/-- An integer of the type `Int32`. -/
def int32 (n : Int) : Scalar := .int (.wrap .int32 n)

/-- The type that the value has by itself. -/
def naturalType : Scalar → Ty
  | .null => .null
  | .boolean _ => .prim .boolean
  | .char _ => .prim .char
  | .int n => .prim (.int n.type)
  | .single _ => .prim .single
  | .double _ => .prim .double
  | .decimal _ => .prim .decimal
  | .string _ => .prim .string

/-- The name of the value's kind in messages. -/
def typeName (s : Scalar) : String := s.naturalType.display

/-- Whether the value is null. -/
def isNull : Scalar → Bool
  | .null => true
  | _ => false

/-- The number of an integer. -/
def integral? : Scalar → Option Int
  | .int n => some n.value
  | _ => none

/-- The number of an integer or a character. -/
def integer? : Scalar → Option Int
  | .char c => some c.toNat
  | s => s.integral?

/-- Whether the value is a floating-point number. -/
def isFloating : Scalar → Bool
  | .single _ | .double _ | .decimal _ => true
  | _ => false

/-- The double nearest to a number. -/
def double? : Scalar → Option Float
  | .single v => some (Binary.widen v)
  | .double v | .decimal v => some v
  | s => s.integer?.map Binary.doubleOfInt

/-- The order of two doubles, unless one of them is no number. -/
def compareDouble? (a b : Float) : Option Ordering :=
  if a < b then some .lt else if a == b then some .eq else if b < a then some .gt else none

/-- The order of two lists of characters: by the first difference. -/
def compareText : List Char → List Char → Ordering
  | [], [] => .eq
  | [], _ :: _ => .lt
  | _ :: _, [] => .gt
  | c :: cs, d :: ds => (compareOfLessAndEq c.toNat d.toNat).then (compareText cs ds)

/-- The order of two values of kinds that compare. -/
def compare? (a b : Scalar) : Option Ordering :=
  match a, b with
  | .string s, .string t => some (compareText s.toList t.toList)
  | .boolean p, .boolean q => some (compareOfLessAndEq p.toNat q.toNat)
  | _, _ =>
    if a.isFloating || b.isFloating then
      match a.double?, b.double? with
      | some x, some y => compareDouble? x y
      | _, _ => none
    else
      match a.integer?, b.integer? with
      | some m, some n => some (compareOfLessAndEq m n)
      | _, _ => none

theorem compare?_null (a : Scalar) : compare? .null a = none := by
  cases a <;> rfl

/-- Whether two values are equal. Null equals null alone; what compares is equal
when neither is before the other. -/
def equals (a b : Scalar) : Bool :=
  match a, b with
  | .null, .null => true
  | .boolean p, .boolean q => p == q
  | .string s, .string t => s == t
  | _, _ => a.compare? b == some .eq

/-- The text of the value; null has the empty one. -/
def text : Scalar → String
  | .null => ""
  | .boolean b => if b then "True" else "False"
  | .char c => String.singleton c
  | .int n => toString n.value
  | .single v => Binary.singleText v
  | .double v | .decimal v => Binary.doubleText v
  | .string s => s

/-- A character of a quoted text, so that it can be told from the quotes. -/
def quotedChar (c : Char) : List Char :=
  if c == '"' then ['\\', '"']
  else if c == '\\' then ['\\', '\\']
  else if c == '\n' then ['\\', 'n']
  else if c == '\t' then ['\\', 't']
  else if c == '\r' then ['\\', 'r']
  else if c == Char.ofNat 0 then ['\\', '0']
  else if c.toNat < 0x20 || c.toNat == 0x7f then
    ['\\', 'u', '\x7b'] ++ Nat.toDigits 16 c.toNat ++ ['\x7d']
  else [c]

/-- The value as it is shown in a listing of constants. -/
def literal : Scalar → String
  | .null => "null"
  | .boolean b => if b then "true" else "false"
  | .char c => String.ofList ['\'', c, '\'']
  | .string s => String.ofList ('"' :: s.toList.flatMap quotedChar ++ ['"'])
  | s => s.text

end Scalar
end QueryExpr
