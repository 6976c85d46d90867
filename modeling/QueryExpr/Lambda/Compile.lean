/-
# Compiling expressions

From the text of an expression to a lambda: the parameters are put into a
table, the text is read, the expression is checked, and the lambda is put
together. Which parameter is `it` depends on what is asked for: the only one,
the first one of a given type, or an element without a name.

Compiling makes record types, and keeps those it has made when it fails.

Key definitions: `Lambda.compile`, `Lambda.ofText`, `Lambda.ofContext`,
`Lambda.ofDelegate`, `Lambda.ofDelegateWith`.
-/
import QueryExpr.Expr.Parse
import QueryExpr.Lambda
import QueryExpr.Typing.Check

namespace QueryExpr

/-- The grammar of expressions over the parameters of a table. -/
def Options.grammar (o : Options) (table : ParameterTable) : Grammar := ⟨o.maxDepth, table.declares⟩

namespace Lambda

/-- Compiles a text as a function of the given parameters, of which the one at
the given place is `it`. -/
def compile (o : Options) (parameters : List Declaration) (implicit : Option Nat)
    (target : Target) (text : String) (records : RecordCache) :
    Except Failure Lambda × RecordCache :=
  match ParameterTable.make parameters implicit with
  | .error f => (.error f, records)
  | .ok table =>
    match Expr.parse (o.grammar table) text.toList with
    | .error f => (.error f, records)
    | .ok e =>
      match e.check o table records with
      | (.error f, records) => (.error f, records)
      | (.ok body, records) => (assemble parameters body target, records)

/-- Compiles a text as a function of the given parameters. -/
def ofText (o : Options) (parameters : List Declaration) (result : Option Ty) (text : String) :
    RecordCache → Except Failure Lambda × RecordCache :=
  compile o parameters (ParameterTable.onlyParameter parameters) (.ofOption result) text

/-- Compiles a text with an `it` of the given type: the only parameter, without
a name, or of the given parameters the first of that type. -/
def ofContext (o : Options) (context : Ty) (parameters : Option (List Declaration))
    (result : Option Ty) (text : String) : RecordCache → Except Failure Lambda × RecordCache :=
  match parameters with
  | none => compile o [⟨"", context⟩] (some 0) (.ofOption result) text
  | some ds =>
    let implicit := (ds.findIdx? fun d => d.type == context).or (ParameterTable.onlyParameter ds)
    compile o ds implicit (.ofOption result) text

/-- Compiles a text as a delegate. -/
def ofDelegate (o : Options) (d : Delegate) (text : String) :
    RecordCache → Except Failure Lambda × RecordCache :=
  compile o d.parameters (ParameterTable.onlyParameter d.parameters) (.delegate d) text

/-- Compiles a text as a delegate with parameters of other names. -/
def ofDelegateWith (o : Options) (d : Delegate) (parameters : List Declaration) (text : String) :
    RecordCache → Except Failure Lambda × RecordCache :=
  compile o parameters (ParameterTable.onlyParameter parameters) (.delegate d) text

end Lambda
end QueryExpr
