/-
# Choosing by least cost

A candidate is chosen if it can be passed the arguments at less cost than every
other one. So a further candidate that costs as much as one that is there already
keeps that one from being chosen, and changes nothing else. Parameters of the same
types cost the same.

Key definitions: `passingCost?`, `Chosen`, `Ty.Alike`.
Key theorems: `selectOverload_eq_found_iff`, `chosen_iff`, `chosen_insert_iff`,
`Check.choose_insert_tied`, `Check.choose_insert_untied`, `passingCost?_alike`.
-/
import QueryExpr.Proofs.CallTyping
import QueryExpr.Proofs.OverloadChoice

namespace QueryExpr

/-! ### The cost of a candidate -/

/-- The total cost of passing the arguments as parameters of the given types, if
there are as many and each can be passed. -/
def passingCost? (es : List Term) (ts : List Ty) : Option Nat :=
  if ts.length == es.length then
    totalCost? (fun i t => es[i]?.bind (·.assignmentCost? t)) 0 ts
  else none

section

variable {es : List Term} {candidates : List (List Ty)} {i n : Nat}

/-- The applicable candidates of the arguments. -/
def applicableCosts (es : List Term) (candidates : List (List Ty)) : List (Nat × Nat) :=
  applicable (fun i t => es[i]?.bind (·.assignmentCost? t)) es.length candidates

theorem applicableCosts_eq (es : List Term) (candidates : List (List Ty)) :
    applicableCosts es candidates =
      candidates.zipIdx.filterMap fun c => (passingCost? es c.1).map (c.2, ·) := by
  unfold applicableCosts applicable
  congr 1
  funext c
  unfold passingCost?
  obtain ⟨ts, i⟩ := c
  by_cases h : (ts.length == es.length) = true
  · simp only [if_pos h]
  · simp only [if_neg h, Option.map_none]

theorem mem_applicableCosts_iff : (i, n) ∈ applicableCosts es candidates ↔
    ∃ ts, candidates[i]? = some ts ∧ passingCost? es ts = some n := by
  rw [applicableCosts_eq, List.mem_filterMap]
  constructor
  · rintro ⟨⟨ts, j⟩, hj, hcost⟩
    obtain ⟨m, hm, heq⟩ := Option.map_eq_some_iff.mp hcost
    cases heq
    exact ⟨ts, List.mem_zipIdx_iff_getElem?.mp hj, hm⟩
  · rintro ⟨ts, hts, hcost⟩
    exact ⟨(ts, i), List.mem_zipIdx_iff_getElem?.mpr hts, by simp [hcost]⟩

/-! ### What is chosen -/

theorem selectOverload_eq_none_iff :
    selectOverload candidates es = .noneApplicable ↔ applicableCosts es candidates = [] :=
  resolveOverload_eq_none_iff

/-- **The candidate of least cost is chosen**, if there is no other of that cost. -/
theorem selectOverload_eq_found_iff : selectOverload candidates es = .found i ↔
    ∃ n, (i, n) ∈ applicableCosts es candidates ∧
      ∀ c ∈ applicableCosts es candidates, c ≠ (i, n) → n < c.2 :=
  resolveOverload_eq_found_iff

end

/-! ### Candidates that carry their parameters -/

section

variable {α : Type} {parameters : α → List Ty} {es : List Term} {xs before after : List α}
  {x g h : α}

/-- The arguments are passed to the candidate. -/
def Chosen (xs : List α) (parameters : α → List Ty) (es : List Term) (x : α) : Prop :=
  ∃ i, selectOverload (xs.map parameters) es = .found i ∧ xs[i]? = some x

theorem mem_applicableCosts_map_iff {i n : Nat} : (i, n) ∈ applicableCosts es (xs.map parameters) ↔
    ∃ y, xs[i]? = some y ∧ passingCost? es (parameters y) = some n := by
  rw [mem_applicableCosts_iff, List.getElem?_map]
  constructor
  · rintro ⟨ts, hts, hcost⟩
    obtain ⟨y, hy, rfl⟩ := Option.map_eq_some_iff.mp hts
    exact ⟨y, hy, hcost⟩
  · rintro ⟨y, hy, hcost⟩
    exact ⟨_, by rw [hy]; rfl, hcost⟩

/-- What is at another place than the element in the middle is before or behind it. -/
theorem mem_of_getElem?_ne {j : Nat} {y : α} (hj : (before ++ x :: after)[j]? = some y)
    (hne : j ≠ before.length) : y ∈ before ++ after := by
  rcases Nat.lt_or_gt_of_ne hne with hlt | hgt
  · rw [List.getElem?_append_left hlt] at hj
    exact List.mem_append_left _ (List.mem_of_getElem? hj)
  · rw [List.getElem?_append_right (Nat.le_of_lt hgt), List.getElem?_cons,
      if_neg (by omega)] at hj
    exact List.mem_append_right _ (List.mem_of_getElem? hj)

/-- **What is chosen costs less than everything else.** -/
theorem chosen_iff : Chosen xs parameters es x ↔
    ∃ before after n, xs = before ++ x :: after ∧ passingCost? es (parameters x) = some n ∧
      ∀ y ∈ before ++ after, ∀ m, passingCost? es (parameters y) = some m → n < m := by
  constructor
  · rintro ⟨i, hfound, hx⟩
    obtain ⟨n, hn, hleast⟩ := selectOverload_eq_found_iff.mp hfound
    obtain ⟨x', hx', hcost⟩ := mem_applicableCosts_map_iff.mp hn
    obtain rfl : x = x' := Option.some.inj (hx.symm.trans hx')
    have hless : ∀ j y m, j ≠ i → xs[j]? = some y → passingCost? es (parameters y) = some m →
        n < m := by
      intro j y m hne hy hm
      have hm' := mem_applicableCosts_map_iff.mpr ⟨y, hy, hm⟩
      exact hleast (j, m) hm' fun heq => hne (by cases heq; rfl)
    obtain ⟨hi, rfl⟩ := List.getElem?_eq_some_iff.mp hx
    refine ⟨xs.take i, xs.drop (i + 1), n, by simp, hcost, fun y hy m hm => ?_⟩
    rcases List.mem_append.mp hy with hy | hy
    · obtain ⟨j, hj, rfl⟩ := List.mem_take_iff_getElem.mp hy
      exact hless j _ m (by omega) (List.getElem?_eq_getElem (by omega)) hm
    · obtain ⟨j, hj, rfl⟩ := List.mem_drop_iff_getElem.mp hy
      exact hless (i + 1 + j) _ m (by omega) (List.getElem?_eq_getElem (by omega)) hm
  · rintro ⟨before, after, n, rfl, hcost, hleast⟩
    refine ⟨before.length, selectOverload_eq_found_iff.mpr ⟨n, ?_, fun c hc hne => ?_⟩, by simp⟩
    · exact mem_applicableCosts_map_iff.mpr ⟨x, by simp, hcost⟩
    · obtain ⟨j, m⟩ := c
      obtain ⟨y, hy, hm⟩ := mem_applicableCosts_map_iff.mp hc
      refine hleast y (mem_of_getElem?_ne hy fun hj => hne ?_) m hm
      subst hj
      obtain rfl : x = y := by simpa using hy
      rw [Option.some.inj (hcost.symm.trans hm)]

/-- Nothing else costs as much as what is chosen. -/
theorem Chosen.eq_of_cost (hx : Chosen xs parameters es x) (hg : g ∈ xs)
    (hcost : passingCost? es (parameters g) = passingCost? es (parameters x)) : g = x := by
  obtain ⟨l, r, n, rfl, hn, hleast⟩ := chosen_iff.mp hx
  by_cases heq : g = x
  · exact heq
  · have hother : g ∈ l ++ r := by grind
    exact absurd (hleast g hother n (hcost.trans hn)) (Nat.lt_irrefl n)

theorem noneApplicable_iff : selectOverload (xs.map parameters) es = .noneApplicable ↔
    ∀ y ∈ xs, passingCost? es (parameters y) = none := by
  rw [selectOverload_eq_none_iff, List.eq_nil_iff_forall_not_mem]
  constructor
  · intro hnone y hy
    obtain ⟨i, hi⟩ := List.mem_iff_getElem?.mp hy
    cases hm : passingCost? es (parameters y) with
    | none => rfl
    | some m => exact absurd (mem_applicableCosts_map_iff.mpr ⟨y, hi, hm⟩) (hnone (i, m))
  · rintro hnone ⟨i, m⟩ hc
    obtain ⟨y, hy, hm⟩ := mem_applicableCosts_map_iff.mp hc
    rw [hnone y (List.mem_of_getElem? hy)] at hm
    cases hm

/-! ### A further candidate -/

/-- A place in a list is one in the list with a further element. -/
theorem split_with {l r : List α} (hsplit : before ++ after = l ++ x :: r) (h : α) :
    ∃ l' r', before ++ h :: after = l' ++ x :: r' ∧
      ∀ y, y ∈ l' ++ r' ↔ y = h ∨ y ∈ l ++ r := by
  rcases List.append_eq_append_iff.mp hsplit with ⟨mid, rfl, hmid⟩ | ⟨mid, rfl, hmid⟩
  · exact ⟨before ++ h :: mid, r, by simp [hmid], fun y => by grind⟩
  · cases mid with
    | nil =>
      rw [List.nil_append] at hmid
      exact ⟨l ++ [h], r, by simp [← hmid], fun y => by grind⟩
    | cons z mid =>
      obtain ⟨rfl, rfl⟩ := List.cons.inj hmid
      exact ⟨l, mid ++ h :: after, by simp, fun y => by grind⟩

/-- A place in a list with a further element is that of the element, or one in the
list without it. -/
theorem split_without {l r : List α} (hsplit : before ++ h :: after = l ++ x :: r) :
    (before = l ∧ h = x ∧ after = r) ∨
      ∃ l' r', before ++ after = l' ++ x :: r' ∧ ∀ y, y ∈ l ++ r ↔ y = h ∨ y ∈ l' ++ r' := by
  rcases List.append_eq_append_iff.mp hsplit with ⟨mid, rfl, hmid⟩ | ⟨mid, rfl, hmid⟩
  · cases mid with
    | nil =>
      obtain ⟨rfl, rfl⟩ := List.cons.inj hmid
      exact .inl ⟨by simp, rfl, rfl⟩
    | cons z mid =>
      obtain ⟨rfl, rfl⟩ := List.cons.inj hmid
      exact .inr ⟨before ++ mid, r, by simp, fun y => by grind⟩
  · cases mid with
    | nil =>
      obtain ⟨rfl, rfl⟩ := List.cons.inj hmid
      exact .inl ⟨by simp, rfl, rfl⟩
    | cons z mid =>
      obtain ⟨rfl, rfl⟩ := List.cons.inj hmid
      exact .inr ⟨l, mid ++ after, by simp, fun y => by grind⟩

/-- A further candidate that costs as much as one that is there keeps that one from
being chosen, and no other. -/
theorem chosen_insert_iff (hg : g ∈ before ++ after)
    (hcost : passingCost? es (parameters g) = passingCost? es (parameters h)) :
    Chosen (before ++ h :: after) parameters es x ↔
      Chosen (before ++ after) parameters es x ∧
        passingCost? es (parameters x) ≠ passingCost? es (parameters h) := by
  constructor
  · intro hx
    obtain ⟨l, r, n, hsplit, hn, hleast⟩ := chosen_iff.mp hx
    have hother : ∀ y ∈ l ++ r, passingCost? es (parameters x) ≠ passingCost? es (parameters y) :=
      fun y hy heq => Nat.lt_irrefl n (hleast y hy n (heq ▸ hn))
    rcases split_without hsplit with ⟨rfl, rfl, rfl⟩ | ⟨l', r', hsplit', hmem⟩
    · -- the further candidate itself is not chosen beside the other one
      exact absurd hcost.symm (hother g hg)
    · refine ⟨chosen_iff.mpr ⟨l', r', n, hsplit', hn, fun y hy => ?_⟩, ?_⟩
      · exact hleast y ((hmem y).mpr (.inr hy))
      · exact hother h ((hmem h).mpr (.inl rfl))
  · rintro ⟨hx, hne⟩
    obtain ⟨l, r, n, hsplit, hn, hleast⟩ := chosen_iff.mp hx
    obtain ⟨l', r', hsplit', hmem⟩ := split_with hsplit h
    refine chosen_iff.mpr ⟨l', r', n, hsplit', hn, fun y hy m hm => ?_⟩
    rcases (hmem y).mp hy with rfl | hy
    · have hgx : g ≠ x := by
        rintro rfl
        exact hne hcost
      exact hleast g (by grind) m (hcost.trans hm)
    · exact hleast y hy m hm

/-- At most one candidate is chosen. -/
theorem Chosen.unique {y : α} (hx : Chosen xs parameters es x) (hy : Chosen xs parameters es y) :
    x = y := by
  obtain ⟨i, hi, hxi⟩ := hx
  obtain ⟨j, hj, hyj⟩ := hy
  obtain rfl : i = j := Resolution.found.inj (hi.symm.trans hj)
  exact Option.some.inj (hxi.symm.trans hyj)

namespace Check

variable {name owner : String} {span : Span}

theorem choose_of_chosen (hx : Chosen xs parameters es x) :
    choose xs parameters es name owner span = pure x := by
  obtain ⟨i, hi, hxi⟩ := hx
  unfold choose
  simp only [hi, hxi]

theorem choose_of_not_chosen (hx : ∀ x, ¬ Chosen xs parameters es x) :
    choose xs parameters es name owner span =
      if ∀ y ∈ xs, passingCost? es (parameters y) = none then fail (.noMethod name owner) span
      else fail (.ambiguousMethod name owner) span := by
  unfold choose
  cases hsel : selectOverload (xs.map parameters) es with
  | found i =>
    obtain ⟨n, hn, -⟩ := selectOverload_eq_found_iff.mp hsel
    obtain ⟨y, hy, -⟩ := mem_applicableCosts_map_iff.mp hn
    exact absurd ⟨i, hsel, hy⟩ (hx y)
  | noneApplicable => rw [if_pos (noneApplicable_iff.mp hsel)]
  | ambiguous =>
    rw [if_neg fun hnone => ?_]
    rw [noneApplicable_iff.mpr hnone] at hsel
    cases hsel

/-- A further candidate that costs as much as the one that is chosen makes the
choice ambiguous. -/
theorem choose_insert_tied (hx : Chosen (before ++ after) parameters es x)
    (htied : passingCost? es (parameters x) = passingCost? es (parameters h)) :
    choose (before ++ h :: after) parameters es name owner span =
      fail (.ambiguousMethod name owner) span := by
  obtain ⟨l, r, n, hsplit, hn, -⟩ := chosen_iff.mp hx
  have hmem : x ∈ before ++ after := by simp [hsplit]
  rw [choose_of_not_chosen fun y hy => ?_, if_neg fun hnone => ?_]
  · rw [hnone x (by grind)] at hn
    cases hn
  · obtain ⟨hy, hne⟩ := (chosen_insert_iff hmem htied).mp hy
    exact hne (hx.unique hy ▸ htied)

/-- A further candidate that costs as much as one that is not chosen changes
nothing. -/
theorem choose_insert_untied (hg : g ∈ before ++ after)
    (hcost : passingCost? es (parameters g) = passingCost? es (parameters h))
    (huntied : ∀ x, Chosen (before ++ after) parameters es x →
      passingCost? es (parameters x) ≠ passingCost? es (parameters h)) :
    choose (before ++ h :: after) parameters es name owner span =
      choose (before ++ after) parameters es name owner span := by
  by_cases hx : ∃ x, Chosen (before ++ after) parameters es x
  · obtain ⟨x, hx⟩ := hx
    rw [choose_of_chosen hx,
      choose_of_chosen ((chosen_insert_iff hg hcost).mpr ⟨hx, huntied x hx⟩)]
  · have hnot : ∀ x, ¬ Chosen (before ++ after) parameters es x := fun x h => hx ⟨x, h⟩
    have hnone : (∀ y ∈ before ++ h :: after, passingCost? es (parameters y) = none) ↔
        ∀ y ∈ before ++ after, passingCost? es (parameters y) = none := by
      refine ⟨fun hall y hy => hall y (by grind), fun hall y hy => ?_⟩
      by_cases hyh : y = h
      · rw [hyh, ← hcost]
        exact hall g hg
      · exact hall y (by grind)
    rw [choose_of_not_chosen hnot,
      choose_of_not_chosen fun x hx => hnot x ((chosen_insert_iff hg hcost).mp hx).1]
    simp only [hnone]

end Check
end

/-! ### Parameters of the same types -/

/-- The types are the same, and null is a value of both or of neither. -/
def Ty.Alike (t u : Ty) : Prop := (t == u) = true ∧ t.acceptsNull = u.acceptsNull

namespace Ty

variable {t u : Ty}

theorem beq_congr_right (s : Ty) (h : (t == u) = true) : (s == t) = (s == u) :=
  Bool.eq_iff_iff.mpr ⟨fun hs => beq_trans hs h, fun hs => beq_trans hs (beq_symm h)⟩

theorem beq_congr_left (s : Ty) (h : (t == u) = true) : (t == s) = (u == s) :=
  Bool.eq_iff_iff.mpr ⟨fun hs => beq_trans (beq_symm h) hs, fun hs => beq_trans h hs⟩

theorem isBaseOf_congr (s : Ty) (h : (t == u) = true) : isBaseOf t s = isBaseOf u s := by
  unfold isBaseOf
  simp only [beq_congr_right _ h]

theorem convertsByReference_congr (s : Ty) (h : (t == u) = true) :
    convertsByReference s t = convertsByReference s u := by
  unfold convertsByReference
  rw [beq_congr_right s h, beq_congr_left object h, isBaseOf_congr s h]

/-- What converts to a type converts to one like it. -/
theorem Alike.converts_eq (s : Ty) (h : t.Alike u) : s.converts t = s.converts u := by
  obtain ⟨hbeq, hnull⟩ := h
  have heq := beq_congr_right s hbeq
  have hbase := isBaseOf_congr s hbeq
  have hsame : t.same u = true := hbeq
  cases t <;> cases u <;> simp only [same, Bool.false_eq_true] at hsame
  case prim.prim p q => rw [beq_iff_eq.mp hsame]
  case nullable.nullable p q => rw [beq_iff_eq.mp hsame]
  case null.null => rfl
  case void.void => rfl
  case sequence.sequence e f =>
    unfold converts
    rw [heq]
    cases s with
    | cls n ps ms is element b v =>
      cases element <;> simp only [convertsByReference_congr _ hsame, hbase]
    | _ => simp only [convertsByReference_congr _ hsame, hnull]
  case array.array e f =>
    unfold converts
    rw [heq]
    cases s <;> simp only [convertsByReference_congr _ hsame, hbase, hnull]
  all_goals
    unfold converts
    rw [heq]
    cases s <;> simp only [hnull, hbase]

/-- A term is passed at the same cost as either of two types that are alike. -/
theorem Alike.assignmentCost?_eq (e : Term) (h : t.Alike u) :
    e.assignmentCost? t = e.assignmentCost? u := by
  have hprim : t.primitive? = u.primitive? := by
    have hsame : t.same u = true := h.1
    cases t <;> cases u <;> simp only [same, Bool.false_eq_true] at hsame <;>
      first | rfl | rw [beq_iff_eq.mp hsame]
  unfold Term.assignmentCost? conversionCost? Term.fits
  rw [beq_congr_right _ h.1, h.converts_eq, hprim]

end Ty

theorem totalCost?_alike (cost : Nat → Ty → Option Nat)
    (hcost : ∀ i (t u : Ty), t.Alike u → cost i t = cost i u) {ts us : List Ty}
    (h : List.Forall₂ Ty.Alike ts us) (i : Nat) : totalCost? cost i ts = totalCost? cost i us := by
  induction h generalizing i with
  | nil => rfl
  | cons ht _ ih => rw [totalCost?, totalCost?, hcost i _ _ ht, ih]

/-- **Parameters of the same types cost the same.** -/
theorem passingCost?_alike (es : List Term) {ts us : List Ty} (h : List.Forall₂ Ty.Alike ts us) :
    passingCost? es ts = passingCost? es us := by
  unfold passingCost?
  rw [h.length_eq, totalCost?_alike _ (fun i t u htu => ?_) h]
  cases es[i]? with
  | none => rfl
  | some e => exact htu.assignmentCost?_eq e

end QueryExpr
