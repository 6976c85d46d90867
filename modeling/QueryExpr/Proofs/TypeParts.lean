/-
# Equality and parts of types

The equality of types that the checker asks for (`same`) is an equivalence,
though a coarser one than being equal: classes compare by their names and
records by their numbers alone.

The parts of a type are the types it is declared with: elements, the types
of properties and bases, and what methods, indexers and delegates take and
return. A property of types holds throughout a type if it holds of the type,
its parts, their parts, and so on.

Key definitions: `Ty.parts`, `Ty.Within`, `Ty.Throughout`, `Ty.Solid`.
Key theorems: `Ty.beq_refl`, `Ty.beq_symm`, `Ty.beq_trans`,
`Ty.Throughout.member`, `Ty.Throughout.methods`.
-/
import QueryExpr.Ty.Conversion

namespace QueryExpr.Ty

/-! ### Equality -/

mutual
theorem same_refl : ∀ t : Ty, t.same t = true
  | .prim _ | .nullable _ => by simp [same]
  | .null | .void => rfl
  | .sequence e | .array e => by simpa [same] using same_refl e
  | .cls .. | .record .. => by simp [same]
  | .delegate n ns ts r => by simp [same, sameAll_refl ts, same_refl r]

theorem sameAll_refl : ∀ ts : List Ty, sameAll ts ts = true
  | [] => rfl
  | t :: ts => by simp [sameAll, same_refl t, sameAll_refl ts]
end

mutual
theorem same_symm : ∀ {t u : Ty}, t.same u = true → u.same t = true
  | .prim _, u, h | .nullable _, u, h => by
    cases u <;> simp_all [same]
  | .null, u, h | .void, u, h => by
    cases u <;> simp_all [same]
  | .sequence e, u, h | .array e, u, h => by
    cases u <;> simp_all [same]
    exact same_symm h
  | .cls .., u, h | .record .., u, h => by
    cases u <;> simp_all [same]
  | .delegate n ns ts r, u, h => by
    cases u <;> simp_all [same]
    exact ⟨sameAll_symm h.1.2, same_symm h.2⟩

theorem sameAll_symm : ∀ {ts us : List Ty}, sameAll ts us = true → sameAll us ts = true
  | [], us, h => by cases us <;> simp_all [sameAll]
  | t :: ts, us, h => by
    cases us with
    | nil => simp [sameAll] at h
    | cons u us =>
      simp only [sameAll, Bool.and_eq_true] at h ⊢
      exact ⟨same_symm h.1, sameAll_symm h.2⟩
end

mutual
theorem same_trans : ∀ {t u v : Ty}, t.same u = true → u.same v = true → t.same v = true
  | .prim _, u, v, h, h' | .nullable _, u, v, h, h' | .null, u, v, h, h'
  | .void, u, v, h, h' | .cls .., u, v, h, h' | .record .., u, v, h, h' => by
    cases u <;> simp only [same, Bool.false_eq_true] at h <;>
      cases v <;> simp_all [same]
  | .sequence e, u, v, h, h' | .array e, u, v, h, h' => by
    cases u <;> simp only [same, Bool.false_eq_true] at h
    cases v <;> simp only [same, Bool.false_eq_true] at h'
    simp only [same]
    exact same_trans h h'
  | .delegate n ns ts r, u, v, h, h' => by
    cases u <;> simp only [same, Bool.false_eq_true, Bool.and_eq_true, beq_iff_eq] at h
    cases v <;> simp only [same, Bool.false_eq_true, Bool.and_eq_true, beq_iff_eq] at h'
    obtain ⟨⟨⟨rfl, rfl⟩, hts⟩, hr⟩ := h
    obtain ⟨⟨⟨rfl, rfl⟩, hts'⟩, hr'⟩ := h'
    simp [same, sameAll_trans hts hts', same_trans hr hr']

theorem sameAll_trans : ∀ {ts us vs : List Ty},
    sameAll ts us = true → sameAll us vs = true → sameAll ts vs = true
  | [], us, vs, h, h' => by cases us <;> simp_all [sameAll]
  | t :: ts, us, vs, h, h' => by
    cases us with
    | nil => simp [sameAll] at h
    | cons u us =>
      cases vs with
      | nil => simp [sameAll] at h'
      | cons v vs =>
        simp only [sameAll, Bool.and_eq_true] at h h' ⊢
        exact ⟨same_trans h.1 h'.1, sameAll_trans h.2 h'.2⟩
end

@[simp] theorem beq_refl (t : Ty) : (t == t) = true := same_refl t

theorem beq_symm {t u : Ty} (h : (t == u) = true) : (u == t) = true := same_symm h

theorem beq_trans {t u v : Ty} (h : (t == u) = true) (h' : (u == v) = true) : (t == v) = true :=
  same_trans h h'

theorem beq_prim {t : Ty} {p : Prim} (h : (t == .prim p) = true) : t = .prim p := by
  change t.same (.prim p) = true at h
  cases t <;> simp_all [same]

/-! ### Parts -/

/-- The types that a type is declared with. -/
def parts : Ty → List Ty
  | .prim _ | .nullable _ | .null | .void => []
  | .sequence e | .array e => [e]
  | .cls _ properties methods indexers element base _ =>
    properties.map (·.2) ++ methods.flatMap (fun m => m.2.2 :: m.2.1) ++
      indexers.flatMap (fun i => i.2 :: i.1) ++ element.toList ++ base.toList
  | .record _ properties => properties.map (·.2)
  | .delegate _ _ types returns => returns :: types

/-- The type `u` is `t`, a part of it, a part of a part, and so on. -/
inductive Within (u : Ty) : Ty → Prop
  | refl : Within u u
  | part {t v : Ty} : v ∈ t.parts → Within u v → Within u t

/-- What is within a type is the type or is within a part of it. -/
theorem Within.cases_parts {u t : Ty} (h : Within u t) : u = t ∨ ∃ v ∈ t.parts, Within u v := by
  cases h with
  | refl => exact .inl rfl
  | part hv hu => exact .inr ⟨_, hv, hu⟩

/-- Nothing else is within a type that is not declared with others. -/
theorem Within.eq_of_parts {u t : Ty} (h : Within u t) (ht : t.parts = []) : u = t := by
  rcases h.cases_parts with h | ⟨v, hv, -⟩
  · exact h
  · rw [ht] at hv
    cases hv

/-- The property holds of the type and of everything within it. -/
def Throughout (P : Ty → Prop) (t : Ty) : Prop := ∀ u, Within u t → P u

/-- What the type is declared with where a value is wanted has values: its
properties, elements and indexers are not `Void`. -/
def Solid (t : Ty) : Prop :=
  (∀ p ∈ t.ownProperties, p.2.isVoid = false) ∧ (∀ e, t.element? = some e → e.isVoid = false) ∧
    ∀ s ∈ t.ownIndexers, s.returns.isVoid = false

namespace Throughout

variable {P : Ty → Prop} {t u : Ty}

theorem here (h : t.Throughout P) : P t := h t .refl

theorem part (h : t.Throughout P) (hu : u ∈ t.parts) : u.Throughout P :=
  fun v hv => h v (.part hu hv)

theorem of_parts (h : P t) (hp : ∀ u ∈ t.parts, u.Throughout P) : t.Throughout P := by
  intro u hu
  cases hu with
  | refl => exact h
  | part hv hu => exact hp _ hv _ hu

theorem mono {Q : Ty → Prop} (h : t.Throughout P) (hPQ : ∀ u, P u → Q u) : t.Throughout Q :=
  fun u hu => hPQ u (h u hu)

theorem element (h : t.Throughout P) (he : t.element? = some u) : u.Throughout P := by
  refine h.part ?_
  cases t <;> simp_all [element?, parts]

theorem ownProperty {p : String × Ty} (h : t.Throughout P) (hp : p ∈ t.ownProperties) :
    p.2.Throughout P := by
  refine h.part ?_
  cases t with
  | cls => simp only [parts, List.mem_append, List.mem_map]; exact .inl (.inl (.inl (.inl ⟨p, hp, rfl⟩)))
  | record => exact List.mem_map.mpr ⟨p, hp, rfl⟩
  | _ => simp [ownProperties] at hp

theorem base (h : t.Throughout P) (hb : t.base? = some u) : u.Throughout P := by
  refine h.part ?_
  cases t <;> simp_all [base?, parts]

/-- The bases of a type are within it. -/
theorem chain : ∀ {t : Ty}, t.Throughout P → ∀ u ∈ t.chain, u.Throughout P
  | .cls n ps ms is e (some b) v, h, u, hu => by
    rw [chain_eq] at hu
    rcases List.mem_cons.mp hu with rfl | hu
    · exact h
    · exact chain (t := b) (h.base rfl) u hu
  | .cls n ps ms is e none v, h, u, hu => by
    rw [List.mem_singleton.mp hu]
    exact h
  | .prim _, h, u, hu | .nullable _, h, u, hu | .null, h, u, hu | .void, h, u, hu
  | .sequence _, h, u, hu | .array _, h, u, hu | .record _ _, h, u, hu
  | .delegate _ _ _ _, h, u, hu => by
    rw [List.mem_singleton.mp hu]
    exact h

/-- A member found in the chain is a property of a type of the chain. -/
theorem member {name : String} (h : t.Throughout P) (hm : t.member? name = some u) :
    u.Throughout P := by
  obtain ⟨v, hv, hp⟩ := List.exists_of_findSome?_eq_some hm
  obtain ⟨l, l', hl, -⟩ := List.lookup_eq_some_iff.mp hp
  exact (h.chain v hv).ownProperty (p := (name, u)) (by simp [hl])

theorem methods {name : String} {s : Signature} (h : t.Throughout P) (hs : s ∈ t.methods name) :
    s.returns.Throughout P ∧ ∀ u ∈ s.parameters, u.Throughout P := by
  obtain ⟨v, hv, hm⟩ := List.mem_flatMap.mp hs
  have h' := h.chain v hv
  cases v with
  | cls n ps ms is e b iv =>
    simp only [ownMethods, List.mem_map, List.mem_filter] at hm
    obtain ⟨m, ⟨hm, -⟩, rfl⟩ := hm
    have hp : ∀ u ∈ m.2.2 :: m.2.1, u ∈ (Ty.cls n ps ms is e b iv).parts := fun u hu => by
      simp only [parts, List.mem_append, List.mem_flatMap]
      exact .inl (.inl (.inl (.inr ⟨m, hm, hu⟩)))
    exact ⟨h'.part (hp _ List.mem_cons_self), fun u hu => h'.part (hp _ (List.mem_cons_of_mem _ hu))⟩
  | _ => simp [ownMethods] at hm

theorem ownIndexer {s : Signature} (h : t.Throughout P) (hs : s ∈ t.ownIndexers) :
    s.returns.Throughout P ∧ ∀ u ∈ s.parameters, u.Throughout P := by
  cases t with
  | cls n ps ms is e b iv =>
    obtain ⟨i, hi, rfl⟩ := List.mem_map.mp hs
    have hp : ∀ u ∈ i.2 :: i.1, u ∈ (Ty.cls n ps ms is e b iv).parts := fun u hu => by
      simp only [parts, List.mem_append, List.mem_flatMap]
      exact .inl (.inl (.inr ⟨i, hi, hu⟩))
    exact ⟨h.part (hp _ List.mem_cons_self), fun u hu => h.part (hp _ (List.mem_cons_of_mem _ hu))⟩
  | _ => simp [ownIndexers] at hs

end Throughout

end QueryExpr.Ty
