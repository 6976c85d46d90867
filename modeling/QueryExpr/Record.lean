/-
# Synthesized record types

A record type is made for each list of named types that is asked for, once:
the same names with the same types in the same order give the same record
type. Record types are numbered from one in the order of their making, and a
number is never used again, not even after the cache is emptied. A list with
an impossible or a repeated name makes no record type.

Key definitions: `Properties`, `Properties.fault`, `RecordCache`,
`RecordCache.find?`, `RecordCache.request`, `RecordCache.reset`.
Key theorems: `RecordCache.request_hit`, `RecordCache.request_invalid`.
-/
import QueryExpr.Ty
import QueryExpr.Failure

namespace QueryExpr

/-- Named types in order: the signature of a record. -/
abbrev Properties := List (String × Ty)

namespace Properties

/-- Whether two signatures have the same names with the same types in the
same order. -/
def same : Properties → Properties → Bool
  | [], [] => true
  | (n, t) :: ps, (m, u) :: qs => n == m && t == u && same ps qs
  | _, _ => false

/-- The first fault of a signature whose properties before this point are
`seen`. -/
def faultAfter (seen : List String) : Properties → Option Cause
  | [] => none
  | (name, _) :: ps =>
    if !Text.isPropertyName name.toList then some (.propertyName name)
    else if seen.contains name then some (.duplicateProperty name)
    else faultAfter (seen ++ [name]) ps

/-- The first fault of a signature: a name that no property can have, or one
that is there already. -/
def fault (ps : Properties) : Option Cause := faultAfter [] ps

end Properties

/-- The record types made so far, newest first, and how many were ever made. -/
structure RecordCache where
  entries : List RecordType
  synthesized : Nat

namespace RecordCache

/-- The cache before the first request. -/
def empty : RecordCache := ⟨[], 0⟩

/-- The record type already made for a signature. -/
def find? (c : RecordCache) (ps : Properties) : Option RecordType :=
  c.entries.find? fun r => ps.same r.properties

/-- The number of record types in the cache. -/
def size (c : RecordCache) : Nat := c.entries.length

/-- The record type of a signature. It is made on the first request; a faulty
signature leaves the cache as it is. -/
def request (c : RecordCache) (ps : Properties) : Except Cause RecordType × RecordCache :=
  match c.find? ps with
  | some r => (.ok r, c)
  | none =>
    match ps.fault with
    | some cause => (.error cause, c)
    | none =>
      let r : RecordType := ⟨c.synthesized + 1, ps⟩
      (.ok r, ⟨r :: c.entries, c.synthesized + 1⟩)

/-- Forgets the record types, and goes on counting. -/
def reset (c : RecordCache) : RecordCache := ⟨[], c.synthesized⟩

theorem request_hit {c : RecordCache} {ps : Properties} {r : RecordType}
    (h : c.find? ps = some r) : c.request ps = (.ok r, c) := by
  simp [request, h]

theorem request_invalid {c : RecordCache} {ps : Properties} {cause : Cause}
    (h : c.find? ps = none) (hf : ps.fault = some cause) :
    c.request ps = (.error cause, c) := by
  simp [request, h, hf]

end RecordCache
end QueryExpr
