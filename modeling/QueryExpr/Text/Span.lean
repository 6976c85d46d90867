/-
# Spans of text

A span marks a stretch of an expression's text by its start and its length,
both counted in characters. Every token, every node of a tree and every
failure carries one.

Key definitions: `Span`, `Span.ofBounds`, `Span.union`, `Span.shift`.
Key theorems: `Span.stop_ofBounds`, `Span.union_comm`.
-/

namespace QueryExpr

/-- A stretch of text: `length` characters from position `start` on. -/
structure Span where
  start : Nat
  length : Nat
  deriving DecidableEq, Repr, Inhabited

namespace Span

/-- The position behind the last character. -/
def stop (s : Span) : Nat := s.start + s.length

/-- The span from `start` up to, and without, `stop`. -/
def ofBounds (start stop : Nat) : Span := ⟨start, stop - start⟩

/-- The span at `position` that covers nothing. -/
def empty (position : Nat) : Span := ⟨position, 0⟩

/-- Whether the span covers nothing. -/
def isEmpty (s : Span) : Bool := s.length == 0

/-- Whether `position` is one of the characters covered. -/
def covers (s : Span) (position : Nat) : Bool := s.start ≤ position && position < s.stop

/-- The smallest span that reaches over both. -/
def union (a b : Span) : Span := ofBounds (min a.start b.start) (max a.stop b.stop)

/-- The span moved `distance` characters to the right. -/
def shift (distance : Nat) (s : Span) : Span := ⟨s.start + distance, s.length⟩

/-- The bounds as a half-open interval, `[start, stop)`. -/
def interval (s : Span) : String := "[" ++ toString s.start ++ ", " ++ toString s.stop ++ ")"

/-- The bounds as a range, `start..stop`. -/
def range (s : Span) : String := toString s.start ++ ".." ++ toString s.stop

theorem stop_ofBounds {a b : Nat} (h : a ≤ b) : (ofBounds a b).stop = b := by
  simp [ofBounds, stop]; omega

theorem union_comm (a b : Span) : a.union b = b.union a := by
  simp [union, Nat.min_comm, Nat.max_comm]

end Span
end QueryExpr
