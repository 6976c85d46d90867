/-
# Types

The types of expressions: primitive types and their nullable forms, the type
of `null`, sequences and arrays, host classes with their members, synthesized
records, and delegates. Two classes are the same type when they have the same
name, two records when they have the same number; all other types compare by
what they are made of.

A class carries what it declares: properties, methods, indexers, and, if it
has them, the type of its elements and its base. Members and methods are
found along the chain of bases.

Key definitions: `Ty`, `Ty.same`, `Ty.display`, `Ty.bases`, `Ty.member?`,
`Ty.methods`, `Ty.element?`, `Signature`, `Declaration`, `RecordType`.
Key theorems: `Ty.same_prim`, `Ty.chain_eq`.
-/
import QueryExpr.Ty.Primitive

namespace QueryExpr

/-- A type. -/
inductive Ty
  | prim (p : Prim)
  /-- A primitive type that also has the value null. -/
  | nullable (p : Prim)
  /-- The type of the literal `null`. -/
  | null
  /-- The type of an expression without a value. -/
  | void
  | sequence (element : Ty)
  | array (element : Ty)
  /-- A host class. A method is its name, its parameter types and what it
  returns. -/
  | cls (name : String) (properties : List (String × Ty))
      (methods : List (String × List Ty × Ty)) (indexers : List (List Ty × Ty))
      (element : Option Ty) (base : Option Ty) (isValue : Bool)
  /-- A record, by its number and its properties. -/
  | record (id : Nat) (properties : List (String × Ty))
  /-- A function type, with the names and types of its parameters. -/
  | delegate (name : Option String) (names : List String) (types : List Ty) (returns : Ty)

instance : Inhabited Ty := ⟨.void⟩

/-- Parameter types and what is returned. -/
structure Signature where
  parameters : List Ty
  returns : Ty

/-- A parameter with its type. A parameter without a name has the empty one. -/
structure Declaration where
  name : String
  type : Ty

/-- A synthesized record type: its number and its properties in order. -/
structure RecordType where
  id : Nat
  properties : List (String × Ty)

namespace RecordType

/-- The name of the record type, made from its number. -/
def name (r : RecordType) : String := "DynamicClass" ++ toString r.id

/-- The record type as a type. -/
def type (r : RecordType) : Ty := .record r.id r.properties

/-- The position of a property. -/
def position? (r : RecordType) (name : String) : Option Nat :=
  r.properties.findIdx? fun p => p.1 == name

end RecordType

namespace Ty

/-- The type `Boolean`. -/
def boolean : Ty := .prim .boolean

/-- The type `Char`. -/
def char : Ty := .prim .char

/-- The type `Int32`. -/
def int32 : Ty := .prim (.int .int32)

/-- The type `String`. -/
def string : Ty := .prim .string

/-- The type `Object`. -/
def object : Ty := .prim .object

mutual
/-- Whether two types are the same. -/
def same : Ty → Ty → Bool
  | .prim p, .prim q => p == q
  | .nullable p, .nullable q => p == q
  | .null, .null => true
  | .void, .void => true
  | .sequence a, .sequence b => a.same b
  | .array a, .array b => a.same b
  | .cls n .., .cls m .. => n == m
  | .record i _, .record j _ => i == j
  | .delegate n ns ts r, .delegate m ms us s => n == m && ns == ms && sameAll ts us && r.same s
  | _, _ => false
termination_by structural t => t

/-- Whether two lists hold the same types in the same order. -/
def sameAll : List Ty → List Ty → Bool
  | [], [] => true
  | t :: ts, u :: us => t.same u && sameAll ts us
  | _, _ => false
termination_by structural ts => ts
end

instance : BEq Ty := ⟨same⟩

theorem same_prim (p q : Prim) : (Ty.prim p == Ty.prim q) = (p == q) := rfl

/-- Whether the type is that of an expression without a value. -/
def isVoid : Ty → Bool
  | .void => true
  | _ => false

/-- Whether the type is that of the literal `null`. -/
def isNull : Ty → Bool
  | .null => true
  | _ => false

/-- Whether the type is `String`. -/
def isString : Ty → Bool
  | .prim .string => true
  | _ => false

/-- Whether the type is a nullable form. -/
def isNullable : Ty → Bool
  | .nullable _ => true
  | _ => false

/-- The primitive type that this is, or is the nullable form of. -/
def primitive? : Ty → Option Prim
  | .prim p | .nullable p => some p
  | _ => none

/-- A primitive type, in its nullable form if `nullable` holds. -/
def lift (p : Prim) (nullable : Bool) : Ty := if nullable then .nullable p else .prim p

/-- Whether the type is `Boolean` or its nullable form. -/
def isBoolean (t : Ty) : Bool := t.primitive? == some .boolean

/-- Whether the type is numeric, or the nullable form of a numeric type. -/
def isNumeric (t : Ty) : Bool := t.primitive?.any Prim.isNumeric

/-- Whether the type is an integer type, or the nullable form of one. -/
def isIntegral (t : Ty) : Bool := t.primitive?.any Prim.isIntegral

/-- Whether null is a value of the type. -/
def acceptsNull : Ty → Bool
  | .prim p => !p.isValueType
  | .nullable _ | .null | .sequence _ | .array _ | .record _ _ | .delegate _ _ _ _ => true
  | .cls _ _ _ _ _ _ isValue => !isValue
  | .void => false

/-- The type that also has the value null, if there is one. -/
def toNullable? : Ty → Option Ty
  | .prim p => if p.isValueType then some (.nullable p) else some (.prim p)
  | t => if t.acceptsNull then some t else none

/-- The type without its nullability. -/
def nonNullable : Ty → Ty
  | .nullable p => .prim p
  | t => t

/-! ### The members of classes and records -/

/-- The type of the elements, of a type that has elements. -/
def element? : Ty → Option Ty
  | .sequence e | .array e => some e
  | .cls _ _ _ _ element _ _ => element
  | _ => none

/-- The base of a class. -/
def base? : Ty → Option Ty
  | .cls _ _ _ _ _ base _ => base
  | _ => none

/-- The base, its base, and so on. -/
def bases : Ty → List Ty
  | .cls _ _ _ _ _ (some b) _ => b :: b.bases
  | _ => []
termination_by structural t => t

/-- The type and its bases, nearest first. -/
def chain (t : Ty) : List Ty := t :: t.bases

theorem chain_eq (t : Ty) : t.chain = t :: (t.base?.elim [] chain) := by
  cases t with
  | cls n ps ms is e b v => cases b <;> simp [chain, bases, base?]
  | _ => simp [chain, bases, base?]

/-- The properties that the type itself declares. -/
def ownProperties : Ty → List (String × Ty)
  | .cls _ properties _ _ _ _ _ => properties
  | .record _ properties => properties
  | _ => []

/-- The overloads of a method that the type itself declares. -/
def ownMethods (name : String) : Ty → List Signature
  | .cls _ _ methods _ _ _ _ => (methods.filter (·.1 == name)).map fun m => ⟨m.2.1, m.2.2⟩
  | _ => []

/-- The indexers that the type itself declares. -/
def ownIndexers : Ty → List Signature
  | .cls _ _ _ indexers _ _ _ => indexers.map fun i => ⟨i.1, i.2⟩
  | _ => []

/-- The type of the property of this name that is nearest in the chain. -/
def member? (t : Ty) (name : String) : Option Ty :=
  t.chain.findSome? fun u => u.ownProperties.lookup name

/-- The overloads of a method along the chain, nearest first. -/
def methods (t : Ty) (name : String) : List Signature := t.chain.flatMap (ownMethods name)

/-- Adds a property to a class in the making. A second property of a name
takes the place of the first. -/
def addProperty (properties : List (String × Ty)) (name : String) (type : Ty) :
    List (String × Ty) :=
  if properties.any (·.1 == name) then
    properties.map fun p => if p.1 == name then (name, type) else p
  else properties ++ [(name, type)]

/-- A class with the given declarations. -/
def ofClass (name : String) (properties : List (String × Ty))
    (methods : List (String × List Ty × Ty)) (indexers : List (List Ty × Ty))
    (element base : Option Ty) (isValue : Bool) : Ty :=
  .cls name (properties.foldl (fun ps p => addProperty ps p.1 p.2) []) methods indexers element
    base isValue

/-! ### Delegates -/

/-- A delegate type with the given parameters. -/
def ofDelegate (name : Option String) (parameters : List Declaration) (returns : Ty) : Ty :=
  .delegate name (parameters.map (·.name)) (parameters.map (·.type)) returns

/-! ### Display -/

mutual
/-- The text of a type in messages. -/
def display : Ty → String
  | .prim p => p.name
  | .nullable p => p.name ++ "?"
  | .null => "null"
  | .void => "Void"
  | .sequence e => "Sequence<" ++ e.display ++ ">"
  | .array e => e.display ++ "[]"
  | .cls name _ _ _ _ _ _ => name
  | .record id _ => "DynamicClass" ++ toString id
  | .delegate (some name) _ _ _ => name
  | .delegate none _ types returns =>
    let parameters := displayAll types
    if returns.isVoid then
      if parameters.isEmpty then "Action" else "Action<" ++ ", ".intercalate parameters ++ ">"
    else "Func<" ++ ", ".intercalate (parameters ++ [returns.display]) ++ ">"
termination_by structural t => t

/-- The texts of several types. -/
def displayAll : List Ty → List String
  | [] => []
  | t :: ts => t.display :: displayAll ts
termination_by structural ts => ts
end

end Ty

/-- A delegate: its name, if it has one, its parameters, and what it returns. -/
structure Delegate where
  name : Option String
  parameters : List Declaration
  returns : Ty

namespace Delegate

/-- The delegate as a type. -/
def type (d : Delegate) : Ty := .ofDelegate d.name d.parameters d.returns

/-- The text of the delegate in messages. -/
def display (d : Delegate) : String := d.type.display

end Delegate
end QueryExpr
