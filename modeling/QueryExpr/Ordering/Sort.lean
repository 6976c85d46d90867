/-
# Ordering elements

All keys of an element are evaluated, clause after clause, before those of the
next element. The elements are then sorted by their first keys, those with
equal first keys by their second keys, and so on; elements with equal keys
keep their order.

Key definitions: `Ordering.Direction.compare`, `Ordering.compareKeyLists`,
`Ordering.keyLists`, `Ordering.sort`.
-/
import QueryExpr.Eval
import QueryExpr.Ordering.Clause
import QueryExpr.Ordering.Stable

namespace QueryExpr.Ordering

/-- The order of two keys in a direction. -/
def Direction.compare (d : Direction) (a b : Value) : Ordering :=
  match d with
  | .ascending => a.compareKeys b
  | .descending => b.compareKeys a

/-- The order of two lists of keys: that of the first keys that differ, each
place having its own direction. -/
def compareKeyLists : List Direction → List Value → List Value → Ordering
  | d :: ds, a :: as, b :: bs => (d.compare a b).then (compareKeyLists ds as bs)
  | _, _, _ => .eq

/-- The keys of an element. -/
def keyList (host : Host) (clauses : List Clause) (element : Value) : Eval (List Value) :=
  Eval.values (clauses.map fun c => c.key.invoke host [element])

/-- The keys of several elements. -/
def keyLists (host : Host) (clauses : List Clause) : List Value → Eval (List (List Value))
  | [] => return []
  | v :: vs => do
    let keys ← keyList host clauses v
    let rest ← keyLists host clauses vs
    return keys :: rest

/-- The elements in the order of the clauses. -/
def sort (host : Host) (clauses : List Clause) (elements : List Value) : Eval (List Value) := do
  let keys ← keyLists host clauses elements
  let directions := clauses.map (·.direction)
  let sorted :=
    stableSort (fun a b => compareKeyLists directions a.1 b.1) (keys.zip elements)
  return sorted.map (·.2)

end QueryExpr.Ordering
