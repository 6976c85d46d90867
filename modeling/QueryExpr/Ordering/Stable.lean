/-
# Stable sorting

Sorting by a comparison that keeps the order of what is equal. Each item goes
behind everything that it is not before.

Key definitions: `insertFromEnd`, `stableSort`.
Key theorems: `stableSort_perm`, `stableSort_length`.
-/

namespace QueryExpr.Ordering

variable {α : Type}

/-- Puts an item into a list that is sorted backwards: in front of everything
that it is not before. -/
def insertFromEnd (compare : α → α → Ordering) (x : α) : List α → List α
  | [] => [x]
  | y :: ys => if compare x y == .lt then y :: insertFromEnd compare x ys else x :: y :: ys

/-- The items in order, equal ones in their old order. -/
def stableSort (compare : α → α → Ordering) (xs : List α) : List α :=
  (xs.foldl (fun sorted x => insertFromEnd compare x sorted) []).reverse

theorem insertFromEnd_perm (compare : α → α → Ordering) (x : α) :
    ∀ ys : List α, (insertFromEnd compare x ys).Perm (x :: ys)
  | [] => .refl _
  | y :: ys => by
    unfold insertFromEnd
    split
    · exact ((insertFromEnd_perm compare x ys).cons y).trans (.swap x y ys)
    · exact .refl _

theorem foldl_insertFromEnd_perm (compare : α → α → Ordering) :
    ∀ xs sorted : List α,
      (xs.foldl (fun sorted x => insertFromEnd compare x sorted) sorted).Perm (sorted ++ xs)
  | [], sorted => by simp
  | x :: xs, sorted =>
    (foldl_insertFromEnd_perm compare xs _).trans
      (((insertFromEnd_perm compare x sorted).append_right xs).trans List.perm_middle.symm)

theorem stableSort_perm (compare : α → α → Ordering) (xs : List α) :
    (stableSort compare xs).Perm xs :=
  (List.reverse_perm _).trans (foldl_insertFromEnd_perm compare xs [])

theorem stableSort_length (compare : α → α → Ordering) (xs : List α) :
    (stableSort compare xs).length = xs.length := (stableSort_perm compare xs).length_eq

end QueryExpr.Ordering
