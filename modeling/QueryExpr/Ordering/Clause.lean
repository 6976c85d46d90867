/-
# Compiled orderings

Each clause of an ordering is compiled as a key over an element, which has no
name and is `it`. The clauses are compiled in order, and the first failure
ends it. A key has to have a value.

Key definitions: `Ordering.Clause`, `Ordering.compileSegments`,
`Ordering.compile`.
-/
import QueryExpr.Lambda.Compile
import QueryExpr.Ordering.Split

namespace QueryExpr.Ordering

/-- A key over an element, and the direction it is ordered in. -/
structure Clause where
  key : Lambda
  direction : Direction

/-- Compiles the key of a segment. -/
def compileSegment (o : Options) (element : Ty) (table : ParameterTable) (text : List Char)
    (s : Segment) (records : RecordCache) : Except Failure Clause × RecordCache :=
  match Expr.parseIn (o.grammar table) text s.start s.stop with
  | .error f => (.error f, records)
  | .ok e =>
    match e.check o table records with
    | (.error f, records) => (.error f, records)
    | (.ok body, records) =>
      if body.type.isVoid then (.error ⟨.voidValue, body.span⟩, records)
      else
        match Lambda.assemble [⟨"", element⟩] body .inferred with
        | .error f => (.error f, records)
        | .ok key => (.ok ⟨key, s.direction⟩, records)

/-- Compiles segments in order. -/
def compileSegments (o : Options) (element : Ty) (table : ParameterTable) (text : List Char) :
    List Segment → RecordCache → Except Failure (List Clause) × RecordCache
  | [], records => (.ok [], records)
  | s :: ss, records =>
    match compileSegment o element table text s records with
    | (.error f, records) => (.error f, records)
    | (.ok clause, records) =>
      match compileSegments o element table text ss records with
      | (.error f, records) => (.error f, records)
      | (.ok clauses, records) => (.ok (clause :: clauses), records)

/-- Compiles an ordering of elements of the given type. -/
def compile (o : Options) (element : Ty) (text : String) (records : RecordCache) :
    Except Failure (List Clause) × RecordCache :=
  match ParameterTable.make [⟨"", element⟩] (some 0) with
  | .error f => (.error f, records)
  | .ok table =>
    match segments text.toList with
    | .error f => (.error f, records)
    | .ok ss => compileSegments o element table text.toList ss records

end QueryExpr.Ordering
