/-
# What stable sorting comes to

A comparison that is a total preorder puts any two items in order or calls them
equal. Sorted by it, the items stand in that order, and equal ones in the order
they had before. That makes the sorted list unique, and it may as well be found
by sorting what the items are labels of.

Sorting by one comparison what has been sorted by another one is sorting by both,
the later one first.

Key definitions: `Keeps`.
Key theorems: `stableSort_pairwise`, `eq_stableSort`, `stableSort_map`,
`stableSort_stableSort`, `stableSort_forall₂`.
-/
import Mathlib.Data.List.Forall2
import Mathlib.Order.Compare
import QueryExpr.Ordering.Stable

namespace QueryExpr.Ordering

variable {α β : Type} {cmp : α → α → Ordering} {r : α → α → Prop}

/-- The order of a sorted list: one item is before another, or it is equal to it
and was before it. -/
def Keeps (cmp : α → α → Ordering) (r : α → α → Prop) (a b : α) : Prop :=
  cmp a b = .lt ∨ cmp a b = .eq ∧ r a b

theorem Keeps.isLE {a b : α} (h : Keeps cmp r a b) : (cmp a b).isLE := by
  rcases h with h | ⟨h, -⟩ <;> rw [h] <;> rfl

/-- An item that another one is not before, and that came first, goes first. -/
theorem Keeps.of_not_lt [Std.OrientedCmp cmp] {a x : α} (hr : r a x) (h : cmp x a ≠ .lt) :
    Keeps cmp r a x := by
  rw [@Std.OrientedCmp.eq_swap _ cmp] at h
  unfold Keeps
  cases hax : cmp a x with
  | lt => exact .inl rfl
  | eq => exact .inr ⟨rfl, hr⟩
  | gt => rw [hax] at h; exact absurd rfl h

/-- An item keeps a list sorted backwards that it comes later than. -/
theorem insertFromEnd_pairwise [Std.TransCmp cmp] (x : α) :
    ∀ ys : List α, (∀ y ∈ ys, r y x) → ys.Pairwise (fun a b => Keeps cmp r b a) →
      (insertFromEnd cmp x ys).Pairwise fun a b => Keeps cmp r b a
  | [], _, _ => List.pairwise_singleton _ _
  | y :: ys, hr, hs => by
    have hrest : ∀ a ∈ ys, Keeps cmp r a y := fun a => List.rel_of_pairwise_cons hs
    unfold insertFromEnd
    split
    · rename_i hlt
      have hx : Keeps cmp r x y := .inl (beq_iff_eq.mp hlt)
      refine .cons (fun a ha => ?_) (insertFromEnd_pairwise x ys
        (fun a ha => hr a (.tail _ ha)) hs.of_cons)
      rcases List.mem_cons.mp ((insertFromEnd_perm cmp x ys).mem_iff.mp ha) with rfl | ha
      · exact hx
      · exact hrest a ha
    · rename_i hlt
      have hy : Keeps cmp r y x := .of_not_lt (hr y (.head _)) (mt beq_iff_eq.mpr hlt)
      refine .cons (fun a ha => ?_) hs
      rcases List.mem_cons.mp ha with rfl | hmem
      · exact hy
      · -- what stands behind `y` is not behind `x`, as it is not behind `y`
        refine .of_not_lt (hr a ha) fun hxa => ?_
        have hle : (cmp a x).isLE := Std.TransCmp.isLE_trans (hrest a hmem).isLE hy.isLE
        rw [@Std.OrientedCmp.eq_swap _ cmp, hxa] at hle
        cases hle

/-- Items that come later than what is sorted, in the order they come in, are put
into it one after the other. -/
theorem foldl_insertFromEnd_pairwise [Std.TransCmp cmp] :
    ∀ xs sorted : List α, xs.Pairwise r → (∀ y ∈ sorted, ∀ x ∈ xs, r y x) →
      sorted.Pairwise (fun a b => Keeps cmp r b a) →
      (xs.foldl (fun sorted x => insertFromEnd cmp x sorted) sorted).Pairwise
        fun a b => Keeps cmp r b a
  | [], _, _, _, hs => hs
  | x :: xs, sorted, hr, hlater, hs => by
    refine foldl_insertFromEnd_pairwise xs _ hr.of_cons (fun y hy z hz => ?_)
      (insertFromEnd_pairwise x sorted (fun y hy => hlater y hy x (.head _)) hs)
    rcases List.mem_cons.mp ((insertFromEnd_perm cmp x sorted).mem_iff.mp hy) with rfl | hy
    · exact List.rel_of_pairwise_cons hr hz
    · exact hlater y hy z (.tail _ hz)

/-- **Sorted items stand in order, and equal ones in the order they had.** -/
theorem stableSort_pairwise [Std.TransCmp cmp] {xs : List α} (h : xs.Pairwise r) :
    (stableSort cmp xs).Pairwise (Keeps cmp r) :=
  List.pairwise_reverse.mpr (foldl_insertFromEnd_pairwise xs [] h (by simp) .nil)

/-- Items that are all equal are left in their order. -/
theorem stableSort_of_eq (h : ∀ a b, cmp a b = .eq) (xs : List α) : stableSort cmp xs = xs := by
  have hinsert : ∀ (x : α) (ys : List α), insertFromEnd cmp x ys = x :: ys := by
    intro x ys
    cases ys with
    | nil => rfl
    | cons y ys =>
      rw [insertFromEnd, h]
      rfl
  have hfold : ∀ xs sorted : List α,
      xs.foldl (fun sorted x => insertFromEnd cmp x sorted) sorted = xs.reverse ++ sorted := by
    intro xs
    induction xs with
    | nil => exact fun _ => rfl
    | cons x xs ih =>
      intro sorted
      rw [List.foldl_cons, hinsert, ih, List.reverse_cons, List.append_assoc]
      rfl
  rw [stableSort, hfold, List.append_nil, List.reverse_reverse]

theorem Keeps.asymm [Std.OrientedCmp cmp] (hr : ∀ a b, r a b → ¬ r b a) {a b : α}
    (h : Keeps cmp r a b) : ¬ Keeps cmp r b a := by
  have hswap : cmp b a = (cmp a b).swap := Std.OrientedCmp.eq_swap
  rintro (h' | ⟨h', hba⟩) <;> rcases h with h | ⟨h, hab⟩ <;> rw [hswap, h] at h'
  · cases h'
  · cases h'
  · cases h'
  · exact hr a b hab hba

/-- There is one list only in which the items stand in order, and equal ones in the
order they had. -/
theorem eq_stableSort [Std.TransCmp cmp] {xs ys : List α} (hr : ∀ a b, r a b → ¬ r b a)
    (hxs : xs.Pairwise r) (hperm : ys.Perm xs) (hys : ys.Pairwise (Keeps cmp r)) :
    ys = stableSort cmp xs :=
  (hperm.trans (stableSort_perm cmp xs).symm).eq_of_pairwise
    (fun _ _ _ _ h h' => absurd h' (h.asymm hr)) hys (stableSort_pairwise hxs)

theorem insertFromEnd_map (f : β → α) (x : β) : ∀ ys : List β,
    insertFromEnd cmp (f x) (ys.map f) =
      (insertFromEnd (fun a b => cmp (f a) (f b)) x ys).map f
  | [] => rfl
  | y :: ys => by
    simp only [List.map_cons, insertFromEnd]
    split
    · rw [insertFromEnd_map f x ys, List.map_cons]
    · rfl

theorem foldl_insertFromEnd_map (f : β → α) : ∀ xs sorted : List β,
    (xs.map f).foldl (fun sorted x => insertFromEnd cmp x sorted) (sorted.map f) =
      (xs.foldl (fun sorted x => insertFromEnd (fun a b => cmp (f a) (f b)) x sorted) sorted).map f
  | [], _ => rfl
  | x :: xs, sorted => by
    rw [List.map_cons, List.foldl_cons, insertFromEnd_map, foldl_insertFromEnd_map f xs]
    rfl

/-- Items are sorted by sorting their labels. -/
theorem stableSort_map (f : β → α) (xs : List β) :
    stableSort cmp (xs.map f) = (stableSort (fun a b => cmp (f a) (f b)) xs).map f := by
  unfold stableSort
  rw [List.map_reverse, ← foldl_insertFromEnd_map f xs []]
  rfl

/-- **Sorting twice.** Items sorted by one comparison and then by another are in the
order of the later one, and those that it does not tell apart in the order of the
earlier one. -/
theorem stableSort_stableSort {cmp' : α → α → Ordering} [Std.TransCmp cmp] [Std.TransCmp cmp']
    (xs : List α) :
    stableSort cmp (stableSort cmp' xs) = stableSort (compareLex cmp cmp') xs := by
  -- items are told apart by their places, so that there is one sorted list only
  have htrans (f : α → α → Ordering) [Std.TransCmp f] :
      Std.TransCmp fun a b : α × Nat => f a.1 b.1 :=
    { eq_swap := Std.OrientedCmp.eq_swap, isLE_trans := Std.TransCmp.isLE_trans }
  have := htrans cmp
  have := htrans cmp'
  have := htrans (compareLex cmp cmp')
  let r (a b : α × Nat) : Prop := a.2 < b.2
  have hr : ∀ a b, r a b → ¬ r b a := fun _ _ => Nat.lt_asymm
  have hxs : xs.zipIdx.Pairwise r := by
    have hplaces : (xs.zipIdx.map Prod.snd).Pairwise (· < ·) := by
      rw [List.zipIdx_map_snd]
      exact List.pairwise_lt_range'
    exact List.pairwise_map.mp hplaces
  have hsorted : (stableSort (fun a b => cmp a.1 b.1)
      (stableSort (fun a b => cmp' a.1 b.1) xs.zipIdx)).Pairwise
        (Keeps (fun a b => compareLex cmp cmp' a.1 b.1) r) := by
    refine (stableSort_pairwise (stableSort_pairwise hxs)).imp fun {a b} h => ?_
    unfold Keeps compareLex
    rw [Ordering.then_eq_lt, Ordering.then_eq_eq]
    rcases h with h | ⟨h, h' | ⟨h', hab⟩⟩
    · exact .inl (.inl h)
    · exact .inl (.inr ⟨h, h'⟩)
    · exact .inr ⟨⟨h, h'⟩, hab⟩
  have heq := eq_stableSort hr hxs ((stableSort_perm _ _).trans (stableSort_perm _ _)) hsorted
  have hmap : xs.zipIdx.map Prod.fst = xs := List.zipIdx_map_fst 0 xs
  calc stableSort cmp (stableSort cmp' xs)
      = (stableSort (fun a b => cmp a.1 b.1)
          (stableSort (fun a b => cmp' a.1 b.1) xs.zipIdx)).map Prod.fst := by
        rw [← stableSort_map, ← stableSort_map, hmap]
    _ = stableSort (compareLex cmp cmp') xs := by
        rw [heq, ← stableSort_map, hmap]

/-! ### Items that compare alike -/

section Alike

variable {cmp' : β → β → Ordering} {R : α → β → Prop}
  (h : ∀ a b a' b', R a a' → R b b' → cmp a b = cmp' a' b')
include h

theorem insertFromEnd_forall₂ {x : α} {y : β} (hxy : R x y) {xs : List α} {ys : List β}
    (hs : List.Forall₂ R xs ys) :
    List.Forall₂ R (insertFromEnd cmp x xs) (insertFromEnd cmp' y ys) := by
  induction hs with
  | nil => exact .cons hxy .nil
  | cons hab hs ih =>
    unfold insertFromEnd
    rw [h _ _ _ _ hxy hab]
    split
    · exact .cons hab ih
    · exact .cons hxy (.cons hab hs)

/-- Items that compare as others do are sorted as those are. -/
theorem stableSort_forall₂ {xs : List α} {ys : List β} (hs : List.Forall₂ R xs ys) :
    List.Forall₂ R (stableSort cmp xs) (stableSort cmp' ys) := by
  have hfold : ∀ {xs : List α} {ys : List β}, List.Forall₂ R xs ys →
      ∀ sorted sorted', List.Forall₂ R sorted sorted' →
        List.Forall₂ R (xs.foldl (fun sorted x => insertFromEnd cmp x sorted) sorted)
          (ys.foldl (fun sorted x => insertFromEnd cmp' x sorted) sorted') := by
    intro xs ys hs
    induction hs with
    | nil => exact fun _ _ hsorted => hsorted
    | cons hab _ ih => exact fun _ _ hsorted => ih _ _ (insertFromEnd_forall₂ h hab hsorted)
  exact List.rel_reverse (hfold hs [] [] .nil)

end Alike

end QueryExpr.Ordering
