/-
# What the rules of conversion give

The common types that the checker looks for (promotions, unified types, types
of equality, negation and summation) are types that each side may be passed
as. What is common to numbers is again a type of numbers.

Key theorems: `Ty.converts_cases`, `Ty.promote?_cases`,
`Term.isAssignable_iff`, `Ty.unify?_converts`, `Ty.unify?_assignable`,
`Ty.equality?_assignable`.
-/
import QueryExpr.Proofs.TypeParts
import QueryExpr.Typing.Sequence

namespace QueryExpr

namespace Ty

/-! ### Single conversions -/

@[simp] theorem converts_refl (t : Ty) : t.converts t = true := by simp [converts]

theorem converts_of_beq {t u : Ty} (h : (t == u) = true) : t.converts u = true := by
  simp [converts, h]

theorem converts_void (t : Ty) (h : t.converts .void = true) : t.isVoid = true := by
  cases t with
  | void => rfl
  | _ => simp [converts, BEq.beq, same] at h

theorem convertsExplicitly_of_converts {t u : Ty} (h : t.converts u = true) :
    t.convertsExplicitly u = true := by
  simp [convertsExplicitly, h]

theorem null_converts {t : Ty} (h : t.acceptsNull = true) : Ty.null.converts t = true := by
  cases t with
  | prim p => cases p <;> simp_all [converts, acceptsNull, Prim.isValueType]
  | void => simp [acceptsNull] at h
  | _ => simp_all [converts]

theorem toNullable?_converts {t u : Ty} (h : t.toNullable? = some u) : t.converts u = true := by
  cases t with
  | prim p =>
    simp only [toNullable?] at h
    split at h <;> cases h
    · simp_all [converts, Prim.widens_refl]
    · exact converts_refl _
  | _ =>
    simp only [toNullable?] at h
    split at h <;> cases h
    exact converts_refl _

theorem toNullable?_acceptsNull {t u : Ty} (h : t.toNullable? = some u) :
    u.acceptsNull = true := by
  cases t with
  | prim p =>
    simp only [toNullable?] at h
    split at h <;> cases h
    · rfl
    · simp_all [acceptsNull]
  | _ =>
    simp only [toNullable?] at h
    split at h <;> cases h
    assumption

/-! ### Numbers -/

theorem isNumberLike_isValueType {p : Prim} (h : p.isNumberLike = true) :
    p.isValueType = true := by
  cases p <;> simp_all [Prim.isNumberLike, Prim.isNumeric, Prim.isValueType]

theorem isNumberLike_of_mem_promotions {p : Prim} (h : p ∈ promotions) :
    p.isNumberLike = true := by
  simp only [promotions, List.mem_cons, List.not_mem_nil, or_false] at h
  rcases h with rfl | rfl | rfl | rfl | rfl | rfl | rfl <;> rfl

@[simp] theorem primitive?_lift (p : Prim) (n : Bool) : (lift p n).primitive? = some p := by
  cases n <;> rfl

@[simp] theorem isNullable_lift (p : Prim) (n : Bool) : (lift p n).isNullable = n := by
  cases n <;> rfl

theorem eq_lift_of_primitive? {t : Ty} {p : Prim} (h : t.primitive? = some p) :
    t = lift p t.isNullable := by
  cases t <;> simp_all [primitive?, lift, isNullable]

theorem eq_lift_of_beq {t : Ty} {p : Prim} {n : Bool} (h : (t == lift p n) = true) :
    t = lift p n := by
  change t.same (lift p n) = true at h
  cases n <;> cases t <;> simp_all [lift, same]

/-- A number widens to a number, and to the nullable form of one. -/
theorem converts_lift {t : Ty} {p q : Prim} {n : Bool} (hp : t.primitive? = some p)
    (hv : p.isValueType = true) (hw : p.widens q = true) (hn : t.isNullable = true → n = true) :
    t.converts (lift q n) = true := by
  rw [eq_lift_of_primitive? hp] at hn ⊢
  cases ht : t.isNullable with
  | false => cases n <;> simp [lift, converts, hv, hw] <;> cases q <;> simp [hw]
  | true =>
    rw [ht, isNullable_lift] at hn
    rw [hn rfl]
    simp [lift, converts, hv, hw]

/-- **How a type converts to another**: they are the same, or the other is
`Object`, or the type is that of null, or primitive types widen, or elements
convert by reference, or the other is a base. -/
theorem converts_cases {t u : Ty} (h : t.converts u = true) :
    (t == u) = true ∨ u = .object ∨ (t = .null ∧ u.acceptsNull = true) ∨
      (∃ p q n m, t = lift p n ∧ u = lift q m ∧ p.widens q = true ∧ (n = true → m = true) ∧
        (m = true → p.isValueType = true)) ∨
      (∃ e f, t.element? = some e ∧ u = .sequence f ∧ convertsByReference e f = true) ∨
      (∃ e f, t = .array e ∧ u = .array f ∧ convertsByReference e f = true) ∨
      isBaseOf u t = true := by
  unfold converts at h
  rw [Bool.or_eq_true] at h
  rcases h with h | h
  · exact .inl h
  · refine .inr ?_
    split at h
    · cases h
    · cases h
    · exact .inl rfl
    · exact .inr (.inl ⟨rfl, h⟩)
    · exact .inr (.inr (.inl ⟨_, _, false, false, rfl, rfl, h, by simp, by simp⟩))
    · rw [Bool.and_eq_true] at h
      exact .inr (.inr (.inl ⟨_, _, false, true, rfl, rfl, h.2, by simp, by simp [h.1]⟩))
    · rw [Bool.and_eq_true] at h
      exact .inr (.inr (.inl ⟨_, _, true, true, rfl, rfl, h.2, by simp, by simp [h.1]⟩))
    · exact .inr (.inr (.inr (.inl ⟨_, _, rfl, rfl, h⟩)))
    · exact .inr (.inr (.inr (.inl ⟨_, _, rfl, rfl, h⟩)))
    · rw [Bool.and_eq_true] at h
      exact .inr (.inr (.inr (.inr (.inl ⟨_, _, rfl, rfl, h.2⟩))))
    · rw [Bool.or_eq_true] at h
      rcases h with h | h
      · exact .inr (.inr (.inr (.inl ⟨_, _, rfl, rfl, h⟩)))
      · exact .inr (.inr (.inr (.inr (.inr h))))
    · exact .inr (.inr (.inr (.inr (.inr h))))
    · cases h

/-- How a type is converted to a primitive one that is asked for: as it is, or
between numbers, or without its nullability, or from `Object`. -/
theorem convertsExplicitly_cases {t : Ty} {q : Prim} (h : t.convertsExplicitly (.prim q) = true) :
    t.converts (.prim q) = true ∨
      (∃ p n, t = lift p n ∧ (p.isNumberLike = true ∧ q.isNumberLike = true ∨ p = q)) ∨
      (t == object) = true := by
  unfold convertsExplicitly at h
  rw [Bool.or_eq_true, Bool.and_eq_true, Bool.or_eq_true, Bool.or_eq_true] at h
  rcases h with h | ⟨-, (h | h) | h⟩
  · exact .inl h
  · refine .inr (.inl ?_)
    cases t with
    | prim p => exact ⟨p, false, rfl, by simpa [primitive?] using h⟩
    | nullable p => exact ⟨p, true, rfl, by simpa [primitive?] using h⟩
    | _ => cases h
  · exact .inr (.inr h)
  · cases h

/-- A promotion is a type of numbers that both sides widen to. -/
theorem promote?_cases {l r t : Ty} {a : Bool} (h : promote? l r a = some t) :
    ∃ p q c, l.primitive? = some p ∧ r.primitive? = some q ∧ p.isNumberLike = true ∧
      q.isNumberLike = true ∧ c.isNumberLike = true ∧ p.widens c = true ∧ q.widens c = true ∧
      t = lift c (l.isNullable || r.isNullable) ∧ (a = true → c ∈ promotions) := by
  unfold promote? at h
  split at h
  · rename_i p q hp hq
    split at h
    · cases h
    · rename_i hn
      have hn : p.isNumberLike = true ∧ q.isNumberLike = true := by simpa using hn
      split at h
      · rename_i ha
        cases h
        have ha : a = false ∧ p = q := by simpa using ha
        obtain ⟨rfl, rfl⟩ := ha
        exact ⟨p, p, p, hp, hq, hn.1, hn.1, hn.1, p.widens_refl, p.widens_refl, rfl, by simp⟩
      · obtain ⟨c, hc, rfl⟩ := Option.map_eq_some_iff.mp h
        have hw := List.find?_some hc
        have hm := (List.mem_filter.mp (List.mem_of_find?_eq_some hc)).1
        rw [Bool.and_eq_true] at hw
        exact ⟨p, q, c, hp, hq, hn.1, hn.2, isNumberLike_of_mem_promotions hm, hw.1, hw.2, rfl,
          fun _ => hm⟩
  · cases h

theorem promote?_converts {l r t : Ty} {a : Bool} (h : promote? l r a = some t) :
    l.converts t = true ∧ r.converts t = true := by
  obtain ⟨p, q, c, hp, hq, hnp, hnq, -, hpc, hqc, rfl, -⟩ := promote?_cases h
  exact ⟨converts_lift hp (isNumberLike_isValueType hnp) hpc (by simp_all),
    converts_lift hq (isNumberLike_isValueType hnq) hqc (by simp_all)⟩

/-- What a number is negated as is a number of a type with negation. -/
theorem negation?_cases {t u : Ty} (h : t.negation? = some u) :
    ∃ p q, t.primitive? = some p ∧ u = lift q t.isNullable ∧ p.isNumberLike = true ∧
      p.widens q = true ∧
      q ∈ [Prim.int .int32, .int .int64, .single, .double, .decimal] := by
  simp only [negation?] at h
  obtain ⟨q, hq, rfl⟩ := Option.map_eq_some_iff.mp h
  split at hq <;> cases hq <;> exact ⟨_, _, ‹_›, rfl, rfl, rfl, by simp⟩

/-- What a number is negated as is negated as itself. -/
theorem negation?_self {t u : Ty} (h : t.negation? = some u) :
    u.negation? = some u ∧ t.converts u = true ∧ ∃ q n, u = lift q n := by
  obtain ⟨p, q, hp, rfl, hn, hw, hq⟩ := negation?_cases h
  refine ⟨?_, converts_lift hp (isNumberLike_isValueType hn) hw id, q, _, rfl⟩
  simp only [List.mem_cons, List.not_mem_nil, or_false] at hq
  rcases hq with rfl | rfl | rfl | rfl | rfl <;> simp [negation?]

theorem accumulator?_cases {t u : Ty} (h : t.accumulator? = some u) :
    ∃ p q, t.primitive? = some p ∧ u = lift q t.isNullable ∧ p.isNumberLike = true ∧
      p.widens q = true ∧
      q ∈ [Prim.int .int32, .int .int64, .single, .double, .decimal] := by
  simp only [accumulator?] at h
  obtain ⟨q, hq, rfl⟩ := Option.map_eq_some_iff.mp h
  split at hq <;> cases hq <;> exact ⟨_, _, ‹_›, rfl, rfl, rfl, by simp⟩

end Ty

/-! ### Terms -/

namespace Term

theorem fits_not_void {e : Term} {t : Ty} (h : e.fits t = true) : t.isVoid = false := by
  unfold fits at h
  cases t <;> simp_all [Ty.primitive?, Ty.isVoid]

theorem isAssignable_iff {e : Term} {t : Ty} :
    e.isAssignable t = true ↔ e.type.converts t = true ∨ e.fits t = true := by
  unfold isAssignable assignmentCost? Ty.conversionCost?
  by_cases h : (e.type == t) = true
  · simp [h, Ty.converts_of_beq h]
  · by_cases h' : e.type.converts t = true
    · simp [h, h']
    · by_cases hf : e.fits t = true <;> simp [h, h', hf]

theorem isAssignable_of_converts {e : Term} {t : Ty} (h : e.type.converts t = true) :
    e.isAssignable t = true := isAssignable_iff.mpr (.inl h)

@[simp] theorem type_withSpan (e : Term) (span : Span) : (e.withSpan span).type = e.type := by
  cases e <;> rfl

theorem convertTo_self (e : Term) : e.convertTo e.type = e := by simp [convertTo]

/-- The type of a converted term is the wanted one. -/
theorem type_convertTo_beq (e : Term) (t : Ty) : ((e.convertTo t).type == t) = true := by
  rw [type_convertTo]
  split
  · assumption
  · exact Ty.beq_refl t

end Term

namespace Ty

/-! ### Common types -/

theorem unify?_converts {t u : Ty} {e : Term} (h : unify? t e = some u) : t.converts u = true := by
  unfold unify? at h
  split at h
  · cases h; exact converts_refl t
  split at h
  · rename_i hn
    cases t <;> simp_all [isNull]
    exact null_converts (toNullable?_acceptsNull h)
  split at h
  · exact toNullable?_converts h
  split at h
  · rename_i hp
    cases h
    exact (promote?_converts hp).1
  split at h
  · cases h; exact converts_refl t
  split at h
  · cases h; assumption
  · cases h

theorem unify?_assignable {t u : Ty} {e : Term} (h : unify? t e = some u) :
    e.isAssignable u = true := by
  unfold unify? at h
  split at h
  · rename_i ht
    cases h
    exact Term.isAssignable_of_converts (converts_of_beq (beq_symm ht))
  split at h
  · exact Term.isAssignable_of_converts (toNullable?_converts h)
  split at h
  · rename_i hn
    refine Term.isAssignable_of_converts ?_
    cases ht : e.type <;> simp_all [isNull]
    exact null_converts (toNullable?_acceptsNull h)
  split at h
  · rename_i hp
    cases h
    exact Term.isAssignable_of_converts (promote?_converts hp).2
  split at h
  · cases h; assumption
  split at h
  · cases h
    exact Term.isAssignable_of_converts (converts_refl _)
  · cases h

theorem equality?_assignable {l r : Term} {t : Ty} (h : equality? l r = some t) :
    l.isAssignable t = true ∧ r.isAssignable t = true := by
  unfold equality? at h
  split at h
  · rename_i hp
    cases h
    have := promote?_converts hp
    exact ⟨Term.isAssignable_of_converts this.1, Term.isAssignable_of_converts this.2⟩
  split at h
  · rename_i ht
    cases h
    exact ⟨Term.isAssignable_of_converts (converts_refl _),
      Term.isAssignable_of_converts (converts_of_beq (beq_symm ht))⟩
  split at h
  · rename_i hn
    refine ⟨Term.isAssignable_of_converts ?_, Term.isAssignable_of_converts (toNullable?_converts h)⟩
    cases ht : l.type <;> simp_all [isNull]
    exact null_converts (toNullable?_acceptsNull h)
  split at h
  · rename_i hn
    refine ⟨Term.isAssignable_of_converts (toNullable?_converts h), Term.isAssignable_of_converts ?_⟩
    cases ht : r.type <;> simp_all [isNull]
    exact null_converts (toNullable?_acceptsNull h)
  split at h
  · cases h
    exact ⟨Term.isAssignable_of_converts (converts_refl _), ‹_›⟩
  split at h
  · cases h
    exact ⟨‹_›, Term.isAssignable_of_converts (converts_refl _)⟩
  · cases h

end Ty
end QueryExpr
