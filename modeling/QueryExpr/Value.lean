/-
# Values

What expressions work on: scalars, lists, records, host objects and functions.
The host knows its objects and functions by numbers. A list has a number too:
it equals no other list, even of the same elements. A record equals a record
of the same type whose values are equal.

Values compare as scalars do. For sorting, null comes before everything else,
and values that do not compare count as equal.

Key definitions: `Value`, `Value.typeName`, `Value.text`, `Value.equals`,
`Value.compare?`, `Value.compareKeys`, `Value.ofRecord`.
Key theorems: `Value.equals_null`, `Value.compareKeys_null`.
-/
import QueryExpr.Value.Scalar
import QueryExpr.Eval.Error

namespace QueryExpr

/-- A value. -/
inductive Value
  | scalar (s : Scalar)
  | list (id : Nat) (items : List Value)
  /-- A record with its values in the order of its type's properties. -/
  | record (type : RecordType) (values : List Value)
  | object (id : Nat) (typeName : String)
  | function (id : Nat)

namespace Value

/-- The value null. -/
def null : Value := .scalar .null

instance : Inhabited Value := ⟨null⟩

/-- A truth value. -/
def boolean (b : Bool) : Value := .scalar (.boolean b)

/-- A text. -/
def string (s : String) : Value := .scalar (.string s)

/-- An integer of the type `Int32`. -/
def int32 (n : Int) : Value := .scalar (.int32 n)

/-- Whether the value is null. -/
def isNull : Value → Bool
  | .scalar s => s.isNull
  | _ => false

/-- The truth value that the value is. -/
def boolean? : Value → Option Bool
  | .scalar (.boolean b) => some b
  | _ => none

/-- The text that the value is. -/
def string? : Value → Option String
  | .scalar (.string s) => some s
  | _ => none

/-- The number of an integer or a character. -/
def integer? : Value → Option Int
  | .scalar s => s.integer?
  | _ => none

/-- The double nearest to a number. -/
def double? : Value → Option Float
  | .scalar s => s.double?
  | _ => none

/-- The name of the value's kind in messages. -/
def typeName : Value → String
  | .scalar s => s.typeName
  | .list _ _ => "List"
  | .record type _ => type.name
  | .object _ typeName => typeName
  | .function _ => "Function"

/-- A record of the given values, one for each property of its type. -/
def ofRecord (type : RecordType) (values : List Value) : Except EvalError Value :=
  if values.length == type.properties.length then .ok (.record type values)
  else .error (.argumentCount type.properties.length values.length)

/-- The value of a property, given the values of a record of the type. -/
def property? (type : RecordType) (values : List Value) (name : String) : Option Value :=
  (type.position? name).bind (values[·]?)

mutual
/-- The text of a value. -/
def text : Value → String
  | .scalar s => s.text
  | .list _ items => "[" ++ ", ".intercalate (texts items) ++ "]"
  | .record type values =>
    "\x7b" ++ ",".intercalate (fieldTexts (type.properties.map (·.1)) values) ++ " \x7d"
  | .object _ typeName => typeName
  | .function _ => "Function"
termination_by structural v => v

/-- The texts of several values. -/
def texts : List Value → List String
  | [] => []
  | v :: vs => v.text :: texts vs
termination_by structural vs => vs

/-- The texts of values with the names they belong to. -/
def fieldTexts (names : List String) : List Value → List String
  | [] => []
  | v :: vs =>
    match names with
    | [] => []
    | name :: names => (" " ++ name ++ " = " ++ v.text) :: fieldTexts names vs
termination_by structural vs => vs
end

mutual
/-- Whether two values are equal. -/
def equals : Value → Value → Bool
  | .scalar a, .scalar b => a.equals b
  | .list i _, .list j _ => i == j
  | .record t vs, .record u ws => t.id == u.id && equalsAll vs ws
  | .object i _, .object j _ => i == j
  | .function i, .function j => i == j
  | _, _ => false
termination_by structural v => v

/-- Whether two lists are equal value by value, as far as both go. -/
def equalsAll : List Value → List Value → Bool
  | v :: vs, w :: ws => v.equals w && equalsAll vs ws
  | _, _ => true
termination_by structural vs => vs
end

theorem equals_null (v : Value) : equals .null v = v.isNull := by
  cases v with
  | scalar s => cases s <;> rfl
  | _ => rfl

/-- The order of two values that compare. -/
def compare? : Value → Value → Option Ordering
  | .scalar a, .scalar b => a.compare? b
  | _, _ => none

/-- The order of two sort keys. -/
def compareKeys (a b : Value) : Ordering :=
  match a.isNull, b.isNull with
  | true, true => .eq
  | true, false => .lt
  | false, true => .gt
  | false, false => (a.compare? b).getD .eq

theorem compareKeys_null (v : Value) : compareKeys .null v = if v.isNull then .eq else .lt := by
  have h : isNull .null = true := rfl
  cases hv : v.isNull <;> simp [compareKeys, h, hv]

end Value
end QueryExpr
