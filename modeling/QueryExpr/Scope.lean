/-
# Names in scope

A table holds the parameters of a lambda, in order, and which of them is
meant by `it`. The body of an aggregate has a table of its own over one
element, which has no name and is `it`. Names are looked up from the
innermost table outwards, `it` in the innermost one alone. The words of the
three constants are found in every table, in any case.

Key definitions: `Symbol`, `ParameterTable`, `ParameterTable.make`,
`ParameterTable.lookup?`, `Scopes`, `Scopes.push`, `Scopes.pop`,
`Scopes.lookup?`, `Scopes.resolveImplicit`.
Key theorems: `Scopes.pop_push`.
-/
import QueryExpr.Failure
import QueryExpr.Value.Scalar

namespace QueryExpr

/-- What a name stands for: a constant, or the parameter at a place in its
table. -/
inductive SymbolKind
  | constant (value : Scalar)
  | parameter (index : Nat)

/-- A name in scope. -/
structure Symbol where
  name : String
  kind : SymbolKind
  type : Ty

/-- The name that stands for the current element or the implicit parameter. -/
def implicitName : String := "it"

namespace Symbol

/-- The name that the value of a parameter is bound to: a parameter without a
name is bound to `it`. -/
def boundName (s : Symbol) : String := if s.name.isEmpty then implicitName else s.name

/-- Whether the name stands for a parameter. -/
def isParameter (s : Symbol) : Bool :=
  match s.kind with
  | .parameter _ => true
  | .constant _ => false

/-- The constant that a word stands for, in any case. -/
def constant? (word : String) : Option Symbol :=
  match word.map Char.toLower with
  | "true" => some ⟨"true", .constant (.boolean true), .boolean⟩
  | "false" => some ⟨"false", .constant (.boolean false), .boolean⟩
  | "null" => some ⟨"null", .constant .null, .null⟩
  | _ => none

end Symbol

namespace Declaration

/-- The name that the value of the parameter is bound to. -/
def boundName (d : Declaration) : String := if d.name.isEmpty then implicitName else d.name

end Declaration

/-- The parameters of a lambda, and the place of the one that is `it`. -/
structure ParameterTable where
  parameters : List Declaration
  implicit : Option Nat

namespace ParameterTable

/-- The first name among the given parameters that is `seen` already. -/
def duplicateAfter (seen : List String) : List Declaration → Option String
  | [] => none
  | d :: ds =>
    if d.name.isEmpty then duplicateAfter seen ds
    else if seen.contains d.name then some d.name
    else duplicateAfter (d.name :: seen) ds

/-- The first name that an earlier parameter has already. -/
def duplicate? (ds : List Declaration) : Option String := duplicateAfter [] ds

/-- The table of the given parameters. A place of `it` behind the last of them
counts as none. -/
def make (parameters : List Declaration) (implicit : Option Nat) : Except Failure ParameterTable :=
  match duplicate? parameters with
  | some name => .error ⟨.duplicateName name, .empty 0⟩
  | none => .ok ⟨parameters, implicit.filter (· < parameters.length)⟩

/-- The place of `it` when nothing else is said: the only parameter. -/
def onlyParameter (parameters : List Declaration) : Option Nat :=
  if parameters.length == 1 then some 0 else none

/-- The table over one element. -/
def ofElement (type : Ty) : ParameterTable := ⟨[⟨"", type⟩], some 0⟩

/-- The parameter at a place. -/
def symbolAt? (t : ParameterTable) (index : Nat) : Option Symbol :=
  t.parameters[index]?.map fun d => ⟨d.name, .parameter index, d.type⟩

/-- What a name stands for in the table. -/
def lookup? (t : ParameterTable) (name : String) : Option Symbol :=
  match Symbol.constant? name with
  | some s => some s
  | none =>
    if name.isEmpty then none
    else (t.parameters.findIdx? fun d => d.name == name).bind t.symbolAt?

/-- Whether a name stands for a parameter of the table. -/
def declares (t : ParameterTable) (name : String) : Bool :=
  (t.lookup? name).any Symbol.isParameter

/-- The parameter that is `it`. -/
def implicit? (t : ParameterTable) : Option Symbol := t.implicit.bind t.symbolAt?

/-- The parameter that is `it`, which has to be there. -/
def resolveImplicit (t : ParameterTable) (span : Span) : Except Failure Symbol :=
  match t.implicit? with
  | some s => .ok s
  | none => .error ⟨.noImplicit t.parameters.length, span⟩

/-- All parameters in order. -/
def symbols (t : ParameterTable) : List Symbol :=
  t.parameters.zipIdx.map fun (d, i) => ⟨d.name, .parameter i, d.type⟩

end ParameterTable

/-- The table of a lambda, and the elements whose bodies enclose the current
place, innermost first. -/
structure Scopes where
  root : ParameterTable
  elements : List Ty

namespace Scopes

/-- The scopes at the start of a lambda's body. -/
def ofTable (root : ParameterTable) : Scopes := ⟨root, []⟩

/-- Enters a body over an element. -/
def push (s : Scopes) (type : Ty) : Scopes := ⟨s.root, type :: s.elements⟩

/-- Leaves the innermost body. -/
def pop (s : Scopes) : Scopes := ⟨s.root, s.elements.tail⟩

theorem pop_push (s : Scopes) (type : Ty) : (s.push type).pop = s := rfl

/-- The number of bodies entered. -/
def depth (s : Scopes) : Nat := s.elements.length

/-- The innermost table. -/
def current (s : Scopes) : ParameterTable :=
  match s.elements with
  | type :: _ => .ofElement type
  | [] => s.root

/-- All tables, innermost first. -/
def tables (s : Scopes) : List ParameterTable :=
  s.elements.map ParameterTable.ofElement ++ [s.root]

/-- What a name stands for. -/
def lookup? (s : Scopes) (name : String) : Option Symbol := s.tables.findSome? (·.lookup? name)

/-- The parameter or element that is `it`. -/
def implicit? (s : Scopes) : Option Symbol := s.current.implicit?

/-- The parameter or element that is `it`, which has to be there. -/
def resolveImplicit (s : Scopes) (span : Span) : Except Failure Symbol :=
  s.current.resolveImplicit span

end Scopes
end QueryExpr
