/-
# Types brought to one

Several types are brought to one from the first one on, each time by the common type
of two. Two types have the same common type either way round. What comes of several
that convert to it is one type in every order, unless they are numbers that mix: with
nothing but numbers and null among them, it is what the numbers are brought to; if not,
it is one of the types, and no other type that all of them convert to.

Key definitions: `Ty.join?`, `Ty.joinAll?`, `Ty.IsOther`, `Ty.NullJoined`,
`Ty.Shaped`, `Ty.elementType?`.
Key theorems: `Ty.join?_comm`, `Ty.joinAll?_numbers`, `Ty.eq_of_shaped`,
`Ty.elementType?_perm`, `Ty.exists_perm_elementType?`.
-/
import QueryExpr.Proofs.ComparedTypes
import QueryExpr.Proofs.PromotedNumbers

namespace QueryExpr

/-- What numbers widen to are numbers and `Object`. -/
theorem Prim.eq_object_of_widens {p q : Prim} (h : p.widens q = true) (hp : p.isNumberLike = true)
    (hq : q.isNumberLike = false) : q = .object := by
  revert p q
  decide +kernel

/-- What has no null widens to `Object`, if to anything that has. -/
theorem Prim.eq_object_of_widens_null {p q : Prim} (h : p.widens q = true)
    (hp : p.isValueType = true) (hq : q.isValueType = false) : q = .object := by
  revert p q
  decide +kernel

theorem Prim.isNumberLike_of_widens {p q : Prim} (h : p.widens q = true)
    (hq : q.isNumberLike = true) : p.isNumberLike = true := by
  revert p q
  decide +kernel

namespace Ty

/-- The common type of two types. -/
def join? (t u : Ty) : Option Ty :=
  if t == u then some t
  else if t.isNull then u.toNullable?
  else if u.isNull then t.toNullable?
  else
    match promote? t u false with
    | some v => some v
    | none => if u.converts t then some t else if t.converts u then some u else none

/-- The common type of several types, from the first one on. -/
def joinAll? (t : Ty) (us : List Ty) : Option Ty := us.foldlM join? t

/-- The type of numbers that this is, or is the nullable form of. -/
def number? (t : Ty) : Option Prim := t.primitive?.filter Prim.isNumberLike

/-- The types of numbers among the given ones. -/
def numbers (ts : List Ty) : List Prim := ts.filterMap number?

/-- The type is neither that of null nor one of numbers. -/
def IsOther (t : Ty) : Prop := t.isNull = false ∧ t.number? = none

variable {t u v w x : Ty} {ts us : List Ty} {p q : Prim} {n m : Bool}

/-! ### Terms and their types -/

/-- Terms are brought to the common type of their types. -/
theorem unify?_eq_join? {D : Discipline} {s : Scopes} {e : Term} (he : e.Typed D s) :
    unify? t e = join? t e.type := by
  unfold unify? join?
  cases hp : promote? t e.type false with
  | some v => rfl
  | none =>
    have hassign : e.isAssignable t = e.type.converts t :=
      Bool.eq_iff_iff.mpr ⟨IsBasic.converts_of_isAssignable he hp, Term.isAssignable_of_converts⟩
    simp only [hassign]

theorem bestOf_ok_iff {D : Discipline} {s : Scopes} {es : List Term}
    (hes : ∀ e ∈ es, e.Typed D s) :
    bestOf t es = .ok v ↔ joinAll? t (es.map (·.type)) = some v := by
  induction es generalizing t with
  | nil => simp [bestOf, joinAll?]
  | cons e es ih =>
    obtain ⟨he, hes⟩ := List.forall_mem_cons.mp hes
    rw [bestOf, unify?_eq_join? he, joinAll?, List.map_cons, List.foldlM_cons]
    cases join? t e.type with
    | none => constructor <;> intro h <;> cases h
    | some u => exact ih hes

/-! ### Kinds of types -/

theorem number?_lift (hp : p.isNumberLike = true) : (lift p n).number? = some p := by
  rw [number?, primitive?_lift, Option.filter_some, if_pos hp]

theorem number?_eq_some (h : t.number? = some p) :
    p.isNumberLike = true ∧ t = lift p t.isNullable := by
  obtain ⟨hp, hn⟩ := Option.filter_eq_some_iff.mp h
  exact ⟨hn, eq_lift_of_primitive? hp⟩

theorem isOther_lift : (lift p n).IsOther ↔ p.isNumberLike = false := by
  unfold IsOther number?
  rw [primitive?_lift, Option.filter_some]
  cases n <;> cases p.isNumberLike <;> simp [lift, isNull]

theorem isNull_lift : (lift p n).isNull = false := by
  cases n <;> rfl

theorem isNull_of_ne (h : t ≠ .null) : t.isNull = false := by
  cases t <;> first | rfl | exact absurd rfl h

theorem ne_null_of_isNull (h : t.isNull = false) : t ≠ .null := by
  rintro rfl
  cases h

/-- A type is that of null, or one of numbers, or another one. -/
theorem kinds (t : Ty) :
    t = .null ∨ (∃ p n, p.isNumberLike = true ∧ t = lift p n) ∨ t.IsOther := by
  cases hn : t.number? with
  | some p =>
    obtain ⟨hp, ht⟩ := number?_eq_some hn
    exact .inr (.inl ⟨p, _, hp, ht⟩)
  | none =>
    by_cases hnull : t = .null
    · exact .inl hnull
    · exact .inr (.inr ⟨isNull_of_ne hnull, hn⟩)

/-- Two types: one of them is that of null, or one is not of numbers, or both are. -/
theorem pair_kinds (t u : Ty) :
    t = .null ∨ u = .null ∨
      (t.isNull = false ∧ u.isNull = false ∧ (t.number? = none ∨ u.number? = none)) ∨
      ∃ p n q m, p.isNumberLike = true ∧ q.isNumberLike = true ∧ t = lift p n ∧ u = lift q m := by
  rcases t.kinds with ht | ⟨p, n, hp, rfl⟩ | ht
  · exact .inl ht
  · rcases u.kinds with hu | ⟨q, m, hq, rfl⟩ | hu
    · exact .inr (.inl hu)
    · exact .inr (.inr (.inr ⟨p, n, q, m, hp, hq, rfl, rfl⟩))
    · exact .inr (.inr (.inl ⟨isNull_lift, hu.1, .inr hu.2⟩))
  · by_cases hu : u = .null
    · exact .inr (.inl hu)
    · exact .inr (.inr (.inl ⟨ht.1, isNull_of_ne hu, .inl ht.2⟩))

theorem promote?_of_not_number (h : t.number? = none ∨ u.number? = none) :
    promote? t u false = none := by
  cases hp : promote? t u false with
  | none => rfl
  | some v =>
    obtain ⟨p, q, -, ht, hu, hnp, hnq, -⟩ := promote?_cases hp
    rw [eq_lift_of_primitive? ht, eq_lift_of_primitive? hu, number?_lift hnp, number?_lift hnq] at h
    rcases h with h | h <;> cases h

theorem promote?_numbers (hp : p.isNumberLike = true) (hq : q.isNumberLike = true) :
    promote? (lift p n) (lift q m) false = some (lift (p.promoted q) (n || m)) := by
  have hsome : promote? (lift p n) (lift q m) false ≠ none :=
    promote?_isSome (primitive?_lift p n) hp (primitive?_lift q m) hq
  unfold promote? Prim.promoted at *
  simp only [primitive?_lift, isNullable_lift, hp, hq, Bool.and_self, Bool.not_true, Bool.not_false,
    Bool.false_eq_true, if_false, Bool.true_and] at hsome ⊢
  cases hpq : p == q with
  | true => rfl
  | false =>
    simp only [hpq, Bool.false_eq_true, if_false, ne_eq, Option.map_eq_none_iff] at hsome ⊢
    obtain ⟨c, hc⟩ := Option.ne_none_iff_exists'.mp hsome
    rw [hc]
    rfl

/-! ### Two types -/

theorem join?_null_left (u : Ty) : join? .null u = u.toNullable? := by
  cases u <;> rfl

theorem join?_null_right (t : Ty) : join? t .null = t.toNullable? := by
  cases t <;> rfl

theorem join?_lift (hp : p.isNumberLike = true) (hq : q.isNumberLike = true) :
    join? (lift p n) (lift q m) = some (lift (p.promoted q) (n || m)) := by
  unfold join?
  rw [promote?_numbers hp hq, isNull_lift, isNull_lift]
  split
  · rename_i hs
    have heq := eq_lift_of_beq hs
    obtain rfl : p = q := by simpa using congrArg primitive? heq
    obtain rfl : n = m := by simpa using congrArg isNullable heq
    rw [Prim.promoted_self, Bool.or_self]
  · rfl

/-- Two types that are not both of numbers have one of them for their common type. -/
theorem join?_plain (ht : t.isNull = false) (hu : u.isNull = false)
    (h : t.number? = none ∨ u.number? = none) :
    join? t u = if u.converts t then some t else if t.converts u then some u else none := by
  unfold join?
  rw [promote?_of_not_number h, ht, hu]
  split
  · rename_i hs
    rw [converts_of_beq (beq_symm hs)]
    rfl
  · rfl

/-- **The common type of two types is the same either way round.** -/
theorem join?_comm (hm : OnePerName ts) (ht : t.Throughout (Occurs ts))
    (hu : u.Throughout (Occurs ts)) : join? t u = join? u t := by
  rcases pair_kinds t u with rfl | rfl | ⟨htn, hun, hplain⟩ | ⟨p, n, q, m, hp, hq, rfl, rfl⟩
  · rw [join?_null_left, join?_null_right]
  · rw [join?_null_left, join?_null_right]
  · rw [join?_plain htn hun hplain, join?_plain hun htn hplain.symm]
    cases htu : t.converts u <;> cases hut : u.converts t <;> try rfl
    rw [converts_antisymm hm ht hu (ne_null_of_isNull htn) (ne_null_of_isNull hun) htu hut]
  · rw [join?_lift hp hq, join?_lift hq hp, Prim.promoted_comm, Bool.or_comm]

/-! ### Types with null -/

theorem toNullable?_lift (hp : p.isValueType = true) :
    (lift p n).toNullable? = some (lift p true) := by
  cases n with
  | true => rfl
  | false => simp [lift, toNullable?, hp]

/-- A type with null is the type itself, unless that is predefined and has no null. -/
theorem toNullable?_cases (h : t.toNullable? = some w) :
    w = t ∧ t.acceptsNull = true ∨
      ∃ p, p.isValueType = true ∧ t = lift p false ∧ w = lift p true := by
  cases t with
  | prim p =>
    simp only [toNullable?] at h
    split at h <;> cases h
    · exact .inr ⟨p, ‹_›, rfl, rfl⟩
    · exact .inl ⟨rfl, by simp_all [acceptsNull]⟩
  | _ =>
    simp only [toNullable?] at h
    split at h <;> cases h
    exact .inl ⟨rfl, ‹_›⟩

theorem toNullable?_toNullable? (h : t.toNullable? = some w) : w.toNullable? = some w := by
  rcases toNullable?_cases h with ⟨rfl, -⟩ | ⟨p, -, -, rfl⟩
  · exact h
  · rfl

theorem IsOther.toNullable? (ht : t.IsOther) (h : t.toNullable? = some w) : w.IsOther := by
  rcases toNullable?_cases h with ⟨rfl, -⟩ | ⟨p, -, rfl, rfl⟩
  · exact ht
  · exact isOther_lift.mpr (isOther_lift.mp ht)

/-- The type `w` is `t`, or `t` with null if null is among the given types. -/
def NullJoined (ts : List Ty) (t w : Ty) : Prop := w = t ∨ .null ∈ ts ∧ t.toNullable? = some w

theorem NullJoined.mono (h : NullJoined ts t w) (hsub : ts ⊆ us) : NullJoined us t w :=
  h.imp_right fun ⟨hnull, hw⟩ => ⟨hsub hnull, hw⟩

theorem NullJoined.isOther (h : NullJoined ts t w) (ht : t.IsOther) : w.IsOther := by
  rcases h with rfl | ⟨-, hw⟩
  · exact ht
  · exact ht.toNullable? hw

/-- What converts to a type with null does so with null. -/
theorem converts_of_toNullable? (h : t.converts u = true) (hu : u.acceptsNull = true)
    (hw : t.toNullable? = some w) : w.converts u = true := by
  rcases toNullable?_cases hw with ⟨rfl, -⟩ | ⟨p, hp, rfl, rfl⟩
  · exact h
  rcases lift_converts_cases h with rfl | rfl | ⟨q, m, rfl, hpq, -, -⟩
  · rw [acceptsNull_lift, hp] at hu
    cases hu
  · exact converts_object rfl
  · cases m with
    | true => exact lift_converts hpq (fun _ => rfl) fun _ => hp
    | false =>
      rw [acceptsNull_lift, Bool.false_or, Bool.not_eq_true'] at hu
      rw [Prim.eq_object_of_widens_null hpq hp hu]
      exact converts_object rfl

/-! ### Conversions between kinds -/

/-- A number converts to numbers and to `Object` alone. -/
theorem number_converts_cases (hp : p.isNumberLike = true) (h : (lift p n).converts u = true)
    (hu : u.IsOther) : ∃ m, u = lift .object m := by
  rcases lift_converts_cases h with rfl | rfl | ⟨q, m, rfl, hpq, -, -⟩
  · cases (isOther_lift.mp hu).symm.trans hp
  · exact ⟨false, rfl⟩
  · exact ⟨m, congrArg (lift · m) (Prim.eq_object_of_widens hpq hp (isOther_lift.mp hu))⟩

/-- To numbers, nothing but null and numbers converts, and what extends them. -/
theorem isBaseOf_of_converts_number (hq : q.isNumberLike = true) (ht : t.IsOther)
    (h : t.converts (lift q m) = true) : isBaseOf (lift q m) t = true := by
  rcases converts_cases h with hs | ho | ⟨rfl, -⟩ | ⟨p, q', n, m', rfl, hlift, hpq, -⟩ |
    ⟨e, f, -, hseq, -⟩ | ⟨e, f, -, harr, -⟩ | hb
  · rw [eq_lift_of_beq hs] at ht
    cases (isOther_lift.mp ht).symm.trans hq
  · have hobject : q = .object :=
      Option.some.inj ((primitive?_lift q m).symm.trans (congrArg primitive? ho))
    rw [hobject] at hq
    cases hq
  · cases ht.1
  · obtain rfl : q = q' := by simpa using congrArg primitive? hlift
    cases (isOther_lift.mp ht).symm.trans (Prim.isNumberLike_of_widens hpq hq)
  · cases m <;> cases hseq
  · cases m <;> cases harr
  · exact hb

/-! ### Several numbers -/

/-- The type is that of null or a nullable form. -/
def isOptional (t : Ty) : Bool := t.isNull || t.isNullable

theorem isOptional_lift : (lift p n).isOptional = n := by
  cases n <;> rfl

theorem numbers_null (ts : List Ty) : numbers (.null :: ts) = numbers ts := rfl

theorem numbers_lift (hp : p.isNumberLike = true) (ts : List Ty) :
    numbers (lift p n :: ts) = p :: numbers ts :=
  List.filterMap_cons_some (number?_lift hp)

theorem isNumberLike_numbers (ts : List Ty) : ∀ p ∈ numbers ts, p.isNumberLike = true := by
  intro p hp
  obtain ⟨x, -, hx⟩ := List.mem_filterMap.mp hp
  exact (number?_eq_some hx).1

theorem joinAll?_cons (t u : Ty) (us : List Ty) :
    joinAll? t (u :: us) = (join? t u).bind (joinAll? · us) := List.foldlM_cons

theorem joinAll?_concat (t u : Ty) (us : List Ty) :
    joinAll? t (us ++ [u]) = (joinAll? t us).bind (join? · u) := by
  rw [joinAll?, List.foldlM_append]
  refine congrArg _ (funext fun v => ?_)
  rw [List.foldlM_cons]
  cases join? v u <;> rfl

/-- A number, and further numbers and null, are brought to what the numbers are brought
to. -/
theorem joinAll?_lift (hp : p.isNumberLike = true) (hus : ∀ u ∈ us, ¬ u.IsOther) :
    joinAll? (lift p n) us =
      some (lift (p.promotedAll (numbers us)) (n || us.any isOptional)) := by
  induction us generalizing p n with
  | nil =>
    rw [List.any_nil, Bool.or_false]
    rfl
  | cons u us ih =>
    obtain ⟨hu, hrest⟩ := List.forall_mem_cons.mp hus
    rw [joinAll?_cons, List.any_cons]
    rcases u.kinds with rfl | ⟨q, m, hq, rfl⟩ | hou
    · rw [join?_null_right, toNullable?_lift (isNumberLike_isValueType hp), Option.bind_some,
        ih hp hrest, numbers_null, Bool.true_or, isOptional, isNull, Bool.true_or, Bool.true_or,
        Bool.or_true]
    · rw [join?_lift hp hq, Option.bind_some, ih (Prim.widens_promoted hp hq).2.2 hrest,
        numbers_lift hq, isOptional_lift, Bool.or_assoc]
      rfl
    · exact absurd hou hu

/-- Null, and then numbers and null, are brought to null, or to what the numbers are
brought to. -/
theorem joinAll?_null (hus : ∀ u ∈ us, ¬ u.IsOther) :
    joinAll? .null us = some (match numbers us with
      | [] => .null
      | p :: ps => lift (p.promotedAll ps) true) := by
  induction us with
  | nil => rfl
  | cons u us ih =>
    obtain ⟨hu, hrest⟩ := List.forall_mem_cons.mp hus
    rw [joinAll?_cons, join?_null_left]
    rcases u.kinds with rfl | ⟨q, m, hq, rfl⟩ | hou
    · exact ih hrest
    · rw [toNullable?_lift (isNumberLike_isValueType hq), Option.bind_some, joinAll?_lift hq hrest,
        numbers_lift hq, Bool.true_or]
    · exact absurd hou hu

/-- **Numbers and null are brought to what the numbers are brought to**, which is
nullable if any of them is. -/
theorem joinAll?_numbers (hts : ∀ u ∈ t :: us, ¬ u.IsOther) :
    joinAll? t us = some (match numbers (t :: us) with
      | [] => .null
      | p :: ps => lift (p.promotedAll ps) ((t :: us).any isOptional)) := by
  obtain ⟨ht, hus⟩ := List.forall_mem_cons.mp hts
  rcases t.kinds with rfl | ⟨p, n, hp, rfl⟩ | hot
  · exact joinAll?_null hus
  · rw [joinAll?_lift hp hus, numbers_lift hp, List.any_cons, isOptional_lift]
  · exact absurd hot ht

/-! ### What several types are brought to -/

theorem join?_plain_cases (ht : t.isNull = false) (hu : u.isNull = false)
    (h : t.number? = none ∨ u.number? = none) (hw : join? t u = some w) :
    w = t ∧ u.converts t = true ∨ w = u ∧ t.converts u = true := by
  rw [join?_plain ht hu h] at hw
  split at hw
  · exact .inl ⟨(Option.some.inj hw).symm, ‹_›⟩
  · split at hw
    · exact .inr ⟨(Option.some.inj hw).symm, ‹_›⟩
    · cases hw

/-- What types are brought to: null, or a type of numbers, which is nullable for a
reason, or one of the others, with null if null is among them. -/
inductive Shaped (ts : List Ty) : Ty → Prop
  | null : .null ∈ ts → Shaped ts .null
  | number {q : Prim} {n : Bool} : q.isNumberLike = true → (∃ x ∈ ts, x.number? ≠ none) →
      Shaped ts (lift q n)
  | other {x v : Ty} : x ∈ ts → x.IsOther → NullJoined ts x v → Shaped ts v

namespace Shaped

theorem of_mem (h : t ∈ ts) : Shaped ts t := by
  rcases t.kinds with rfl | ⟨p, n, hp, rfl⟩ | ht
  · exact .null h
  · exact .number hp ⟨_, h, by rw [number?_lift hp]; nofun⟩
  · exact .other h ht (.inl rfl)

theorem join? (h : Shaped ts v) (hu : u ∈ ts) (hw : v.join? u = some w) : Shaped ts w := by
  cases h with
  | null hnull =>
    rw [join?_null_left] at hw
    rcases u.kinds with rfl | ⟨q, m, hq, rfl⟩ | hou
    · cases hw
      exact .null hnull
    · cases (toNullable?_lift (isNumberLike_isValueType hq)).symm.trans hw
      exact .number hq ⟨_, hu, by rw [number?_lift hq]; nofun⟩
    · exact .other hu hou (.inr ⟨hnull, hw⟩)
  | number hq hx =>
    rcases u.kinds with rfl | ⟨q', m, hq', rfl⟩ | hou
    · rw [join?_null_right] at hw
      cases (toNullable?_lift (isNumberLike_isValueType hq)).symm.trans hw
      exact .number hq hx
    · cases (join?_lift hq hq').symm.trans hw
      exact .number (Prim.widens_promoted hq hq').2.2 hx
    · rcases join?_plain_cases isNull_lift hou.1 (.inr hou.2) hw with ⟨rfl, -⟩ | ⟨rfl, -⟩
      · exact .number hq hx
      · exact .of_mem hu
  | @other x _ hx hox hv =>
    by_cases hnull : u = .null
    · subst hnull
      rw [join?_null_right] at hw
      rcases hv with rfl | ⟨-, hv⟩
      · exact .other hx hox (.inr ⟨hu, hw⟩)
      · cases (toNullable?_toNullable? hv).symm.trans hw
        exact .other hx hox (.inr ⟨hu, hv⟩)
    · have hov : v.IsOther := hv.isOther hox
      rcases join?_plain_cases hov.1 (isNull_of_ne hnull) (.inl hov.2) hw with ⟨rfl, -⟩ | ⟨rfl, -⟩
      · exact .other hx hox hv
      · exact .of_mem hu

theorem joinAll? (h : Shaped ts v) (hus : ∀ u ∈ us, u ∈ ts) (hw : v.joinAll? us = some w) :
    Shaped ts w := by
  induction us generalizing v with
  | nil =>
    cases hw
    exact h
  | cons u us ih =>
    obtain ⟨hu, hus⟩ := List.forall_mem_cons.mp hus
    rw [joinAll?_cons] at hw
    obtain ⟨x, hx, hw⟩ := Option.bind_eq_some_iff.mp hw
    exact ih (h.join? hu hx) hus hw

end Shaped

theorem eq_null_of_join? (h : join? t u = some .null) : t = .null ∧ u = .null := by
  have hnull {t : Ty} (h : t.toNullable? = some .null) : t = .null := by
    rcases toNullable?_cases h with ⟨h, -⟩ | ⟨p, -, -, h⟩
    · exact h.symm
    · cases h
  rcases pair_kinds t u with rfl | rfl | ⟨ht, hu, hplain⟩ | ⟨p, n, q, m, hp, hq, rfl, rfl⟩
  · rw [join?_null_left] at h
    exact ⟨rfl, hnull h⟩
  · rw [join?_null_right] at h
    exact ⟨hnull h, rfl⟩
  · rcases join?_plain_cases ht hu hplain h with ⟨h, -⟩ | ⟨h, -⟩
    · exact absurd h.symm (ne_null_of_isNull ht)
    · exact absurd h.symm (ne_null_of_isNull hu)
  · rw [join?_lift hp hq] at h
    exact absurd (Option.some.inj h) (ne_null_of_isNull isNull_lift)

/-- Nothing but null is brought to null. -/
theorem eq_null_of_joinAll? (h : joinAll? t us = some .null) : ∀ u ∈ t :: us, u = .null := by
  induction us generalizing t with
  | nil =>
    cases h
    exact List.forall_mem_singleton.mpr rfl
  | cons u us ih =>
    rw [joinAll?_cons] at h
    obtain ⟨x, hx, h⟩ := Option.bind_eq_some_iff.mp h
    obtain ⟨rfl, hus⟩ := List.forall_mem_cons.mp (ih h)
    obtain ⟨rfl, rfl⟩ := eq_null_of_join? hx
    exact List.forall_mem_cons.mpr ⟨rfl, List.forall_mem_cons.mpr ⟨rfl, hus⟩⟩

/-! ### Two orders -/

namespace OnePerName

/-- Predefined types may be added to types of one for each name. -/
theorem cons_lift (hm : OnePerName ts) (p : Prim) (n : Bool) : OnePerName (lift p n :: ts) := by
  have occurs {u : Ty} (h : Occurs (lift p n :: ts) u) : u = lift p n ∨ Occurs ts u := by
    obtain ⟨t, ht, hu⟩ := h
    rcases List.mem_cons.mp ht with rfl | ht
    · exact .inl (hu.eq_of_parts (by cases n <;> rfl))
    · exact .inr ⟨t, ht, hu⟩
  intro t u ht hu h
  rcases occurs hu with rfl | hu
  · exact eq_lift_of_beq h
  · rcases occurs ht with rfl | ht
    · exact (eq_lift_of_beq (beq_symm h)).symm
    · exact hm ht hu h

theorem mono (hm : OnePerName ts) (hsub : us ⊆ ts) : OnePerName us := by
  rintro t u ⟨x, hx, ht⟩ ⟨y, hy, hu⟩ h
  exact hm ⟨x, hsub hx, ht⟩ ⟨y, hsub hy, hu⟩ h

/-- What one of the types is with null may be added. -/
theorem exists_nullJoined (hm : OnePerName ts) (hx : x ∈ ts) (hw : NullJoined ts x w) :
    ∃ us, OnePerName us ∧ w ∈ us ∧ ts ⊆ us := by
  rcases hw with rfl | ⟨-, hw⟩
  · exact ⟨ts, hm, hx, List.Subset.refl ts⟩
  · rcases toNullable?_cases hw with ⟨rfl, -⟩ | ⟨p, -, -, rfl⟩
    · exact ⟨ts, hm, hx, List.Subset.refl ts⟩
    · exact ⟨_, hm.cons_lift p true, List.mem_cons_self, List.subset_cons_self ..⟩

end OnePerName

theorem throughout_of_mem (h : t ∈ ts) : t.Throughout (Occurs ts) := fun _ hu => ⟨t, h, hu⟩

/-- What a type is with null converts to whatever it and null convert to. -/
theorem NullJoined.converts (hw : NullJoined ts x w) (hx : x ∈ ts)
    (hall : ∀ x ∈ ts, x.converts v = true) : w.converts v = true := by
  rcases hw with rfl | ⟨hnull, hw⟩
  · exact hall _ hx
  · exact converts_of_toNullable? (hall x hx) (null_converts_iff.mp (hall _ hnull)) hw

/-- Two of the other types that types are brought to are one. -/
theorem eq_of_others (hm : OnePerName ts) {x x' : Ty} (hx : x ∈ ts) (hox : x.IsOther)
    (hw : NullJoined ts x w) (hx' : x' ∈ ts) (hox' : x'.IsOther) (hv : NullJoined ts x' v)
    (hall : ∀ x ∈ ts, x.converts w = true) (hall' : ∀ x ∈ ts, x.converts v = true) : w = v := by
  obtain ⟨us, hm, hwus, hsub⟩ := hm.exists_nullJoined hx hw
  obtain ⟨us', hm', hvus, hsub'⟩ := hm.exists_nullJoined (hsub hx') (hv.mono hsub)
  exact converts_antisymm hm' (throughout_of_mem (hsub' hwus)) (throughout_of_mem hvus)
    (ne_null_of_isNull (hw.isOther hox).1) (ne_null_of_isNull (hv.isOther hox').1)
    (hw.converts hx hall') (hv.converts hx' hall)

/-- Numbers are not brought to numbers in one order and to another type in another. -/
theorem not_number_and_other (hq : q.isNumberLike = true) (hx : x ∈ ts) (hxn : x.number? ≠ none)
    {y : Ty} (hy : y ∈ ts) (hoy : y.IsOther) (hv : NullJoined ts y v)
    (hall : ∀ x ∈ ts, x.converts (lift q n) = true) (hall' : ∀ x ∈ ts, x.converts v = true) :
    False := by
  obtain ⟨p, hp⟩ := Option.ne_none_iff_exists'.mp hxn
  obtain ⟨hpn, hxp⟩ := number?_eq_some hp
  have hxv := hall' x hx
  rw [hxp] at hxv
  obtain ⟨m, rfl⟩ := number_converts_cases hpn hxv (hv.isOther hoy)
  -- it is `Object` that converts to a number
  obtain ⟨m', rfl⟩ : ∃ m', y = lift .object m' := by
    rcases hv with h | ⟨-, h⟩
    · exact ⟨m, h.symm⟩
    · rcases toNullable?_cases h with ⟨h, -⟩ | ⟨p, hp, -, h⟩
      · exact ⟨m, h.symm⟩
      · have hobject : Prim.object = p := by simpa using congrArg primitive? h
        rw [← hobject] at hp
        cases hp
  have hbase := isBaseOf_of_converts_number hq hoy (hall _ hy)
  cases m' <;> cases hbase

/-- A chain of bases has one end. -/
theorem eq_of_mem_bases : ∀ {t u v : Ty}, u ∈ t.bases → v ∈ t.bases → u.bases = [] →
    v.bases = [] → u = v
  | .cls _ _ _ _ _ (some b) _, u, v, hu, hv, hub, hvb => by
    rcases List.mem_cons.mp hu with rfl | hu <;> rcases List.mem_cons.mp hv with rfl | hv
    · rfl
    · rw [hub] at hv
      cases hv
    · rw [hvb] at hu
      cases hu
    · exact eq_of_mem_bases (t := b) hu hv hub hvb
  | .cls _ _ _ _ _ none _, u, v, hu, _, _, _ => by cases hu
  | .prim _, _, _, hu, _, _, _ | .nullable _, _, _, hu, _, _, _ | .null, _, _, hu, _, _, _
  | .void, _, _, hu, _, _, _ | .sequence _, _, _, hu, _, _, _ | .array _, _, _, hu, _, _, _
  | .record _ _, _, _, hu, _, _, _ | .delegate _ _ _ _, _, _, hu, _, _, _ => by cases hu

/-- A predefined base is the end of a chain. -/
theorem mem_bases_of_lift (h : isBaseOf (lift p n) t = true) : lift p n ∈ t.bases := by
  obtain ⟨b, hb, hbl⟩ := List.any_eq_true.mp h
  rwa [eq_lift_of_beq hbl] at hb

theorem bases_lift : (lift p n).bases = [] := by
  cases n <;> rfl

/-- **What types are brought to that convert to it, in two orders**, is one type, or
both are types of numbers and there is nothing but numbers and null. -/
theorem eq_of_shaped (hm : OnePerName ts) (hw : Shaped ts w) (hv : Shaped ts v)
    (hwn : w ≠ .null) (hvn : v ≠ .null) (hall : ∀ x ∈ ts, x.converts w = true)
    (hall' : ∀ x ∈ ts, x.converts v = true) : w = v ∨ ∀ x ∈ ts, ¬ x.IsOther := by
  cases hw with
  | null => exact absurd rfl hwn
  | @number q n hq hx =>
    obtain ⟨x, hx, hxn⟩ := hx
    cases hv with
    | null => exact absurd rfl hvn
    | @number q' n' hq' _ =>
      -- what is no number extends both
      refine or_iff_not_imp_right.mpr fun hother => ?_
      obtain ⟨y, hy, hoy⟩ : ∃ y ∈ ts, y.IsOther := by simpa using hother
      exact eq_of_mem_bases
        (mem_bases_of_lift (isBaseOf_of_converts_number hq hoy (hall y hy)))
        (mem_bases_of_lift (isBaseOf_of_converts_number hq' hoy (hall' y hy))) bases_lift bases_lift
    | other hy hoy hv => exact (not_number_and_other hq hx hxn hy hoy hv hall hall').elim
  | other hy hoy hw =>
    cases hv with
    | null => exact absurd rfl hvn
    | number hq hx =>
      obtain ⟨x, hx, hxn⟩ := hx
      exact (not_number_and_other hq hx hxn hy hoy hw hall' hall).elim
    | other hy' hoy' hv => exact .inl (eq_of_others hm hy hoy hw hy' hoy' hv hall hall')

/-! ### The type of elements -/

/-- The type of the elements of an array without a type of its own: what they are
brought to, if all of them convert to it, and `Object` where that is null. -/
def elementType? : List Ty → Option Ty
  | [] => some object
  | t :: us =>
    ((joinAll? t us).map fun v => if v.isNull then object else v).filter fun v =>
      (t :: us).all (·.converts v)

theorem elementType?_cons : elementType? (t :: us) = some v ↔
    ∃ w, joinAll? t us = some w ∧ v = (if w.isNull then object else w) ∧
      ∀ x ∈ t :: us, x.converts v = true := by
  unfold elementType?
  rw [Option.filter_eq_some_iff, Option.map_eq_some_iff, List.all_eq_true]
  constructor
  · rintro ⟨⟨w, hw, hv⟩, hall⟩
    exact ⟨w, hw, hv.symm, hall⟩
  · rintro ⟨w, hw, hv, hall⟩
    exact ⟨⟨w, hw, hv.symm⟩, hall⟩

/-- What two orders bring types to, null apart. -/
theorem elementType?_cases (h : elementType? (t :: us) = some v) :
    (∀ x ∈ t :: us, x = .null) ∧ v = object ∨
      v ≠ .null ∧ joinAll? t us = some v ∧ Shaped (t :: us) v ∧
        ∀ x ∈ t :: us, x.converts v = true := by
  obtain ⟨w, hw, hv, hall⟩ := elementType?_cons.mp h
  by_cases hnull : w = .null
  · subst hnull
    exact .inl ⟨eq_null_of_joinAll? hw, hv⟩
  · rw [isNull_of_ne hnull] at hv
    obtain rfl : v = w := hv
    exact .inr ⟨hnull, hw, (Shaped.of_mem List.mem_cons_self).joinAll?
      (fun _ hu => List.mem_cons_of_mem _ hu) hw, hall⟩

theorem Shaped.mono (h : Shaped ts v) (hsub : ts ⊆ us) : Shaped us v := by
  cases h with
  | null h => exact .null (hsub h)
  | number hq hx =>
    obtain ⟨x, hx, hxn⟩ := hx
    exact .number hq ⟨x, hsub hx, hxn⟩
  | other hx hox hv => exact .other (hsub hx) hox (hv.mono hsub)

/-- Only null comes of null. -/
theorem Shaped.eq_null (h : Shaped ts v) (hnull : ∀ x ∈ ts, x = .null) : v = .null := by
  cases h with
  | null => rfl
  | number _ hx =>
    obtain ⟨x, hx, hxn⟩ := hx
    rw [hnull x hx] at hxn
    exact absurd rfl hxn
  | other hx hox _ =>
    rw [hnull _ hx] at hox
    cases hox.1

/-- **The type of elements does not depend on their order**, where it has one in both
orders, unless they are numbers that mix. -/
theorem elementType?_perm {ts' : List Ty} (hm : OnePerName ts) (h : ts.Perm ts')
    (hv : elementType? ts = some v) (hw : elementType? ts' = some w) :
    v = w ∨ (∀ x ∈ ts, ¬ x.IsOther) ∧ Prim.Mixed (numbers ts) := by
  match ts, ts' with
  | [], [] => exact .inl (Option.some.inj (hv.symm.trans hw))
  | [], _ :: _ => cases List.nil_perm.mp h
  | _ :: _, [] => cases List.perm_nil.mp h
  | t :: us, t' :: us' =>
    rcases elementType?_cases hv with ⟨hnull, rfl⟩ | ⟨hvn, hv, hvs, hall⟩ <;>
      rcases elementType?_cases hw with ⟨hnull', rfl⟩ | ⟨hwn, hw, hws, hall'⟩
    · exact .inl rfl
    · exact absurd (hws.eq_null fun x hx => hnull x (h.mem_iff.mpr hx)) hwn
    · exact absurd (hvs.eq_null fun x hx => hnull' x (h.mem_iff.mp hx)) hvn
    rcases eq_of_shaped hm hvs (hws.mono h.symm.subset) hvn hwn hall
      (fun x hx => hall' x (h.mem_iff.mp hx)) with heq | hnone
    · exact .inl heq
    refine or_iff_not_imp_right.mpr fun hmixed => ?_
    have hnumbers : (numbers (t :: us)).Perm (numbers (t' :: us')) := h.filterMap number?
    have hv := hv.symm.trans (joinAll?_numbers hnone)
    have hw := hw.symm.trans (joinAll?_numbers fun x hx => hnone x (h.mem_iff.mpr hx))
    have hlike := isNumberLike_numbers (t :: us)
    rcases hps : numbers (t :: us) with _ | ⟨p, ps⟩ <;>
      rcases hqs : numbers (t' :: us') with _ | ⟨q, qs⟩ <;>
      rw [hps] at hv <;> rw [hqs] at hw <;> rw [hps, hqs] at hnumbers
    · exact absurd (Option.some.inj hv) hvn
    · cases List.nil_perm.mp hnumbers
    · cases List.perm_nil.mp hnumbers
    · rw [hps] at hlike
      have hsame := Prim.promotedAll_perm hnumbers hlike fun hmix => hmixed ⟨hnone, hps ▸ hmix⟩
      rw [Option.some.inj hv, Option.some.inj hw]
      dsimp only
      rw [hsame, h.any_eq]

/-! ### Numbers that mix -/

/-- Numbers and null have a type in every order. -/
theorem elementType?_numbers (hts : ∀ u ∈ ts, ¬ u.IsOther) :
    elementType? ts = some (match numbers ts with
      | [] => object
      | p :: ps => lift (p.promotedAll ps) (ts.any isOptional)) := by
  match ts with
  | [] => rfl
  | t :: us =>
    refine elementType?_cons.mpr ⟨_, joinAll?_numbers hts, ?_, ?_⟩
    · cases numbers (t :: us) with
      | nil => rfl
      | cons p ps => rw [isNull_lift]; rfl
    · intro x hx
      have hlike := isNumberLike_numbers (t :: us)
      rcases x.kinds with rfl | ⟨q, n, hq, rfl⟩ | hox
      · have hany : (t :: us).any isOptional = true := List.any_eq_true.mpr ⟨_, hx, rfl⟩
        rw [hany]
        cases numbers (t :: us) <;> rfl
      · have hmem : q ∈ numbers (t :: us) := List.mem_filterMap.mpr ⟨_, hx, number?_lift hq⟩
        rcases hps : numbers (t :: us) with _ | ⟨p, ps⟩ <;> rw [hps] at hmem hlike
        · cases hmem
        · have hwidens := (Prim.widens_promotedAll (hlike p List.mem_cons_self)
            fun r hr => hlike r (List.mem_cons_of_mem _ hr)).2 q hmem
          refine lift_converts hwidens (fun hn => ?_) fun _ => isNumberLike_isValueType hq
          exact List.any_eq_true.mpr ⟨_, hx, isOptional_lift.trans hn⟩
      · exact absurd hox (hts x hx)

/-- **Numbers that mix have different types in different orders.** -/
theorem exists_perm_elementType? (hts : ∀ u ∈ ts, ¬ u.IsOther) (h : Prim.Mixed (numbers ts)) :
    ∃ us vs v w, us.Perm ts ∧ vs.Perm ts ∧ elementType? us = some v ∧
      elementType? vs = some w ∧ v ≠ w := by
  obtain ⟨p, ps, q, qs, hps, hqs, hne⟩ := Prim.exists_perm_of_mixed (isNumberLike_numbers ts) h
  obtain ⟨us, hus, hpus⟩ := exists_perm_filterMap hps
  obtain ⟨vs, hvs, hqvs⟩ := exists_perm_filterMap hqs
  have hu := elementType?_numbers fun u hu => hts u (hus.mem_iff.mp hu)
  have hv := elementType?_numbers fun u hu => hts u (hvs.mem_iff.mp hu)
  rw [numbers, hpus] at hu
  rw [numbers, hqvs] at hv
  refine ⟨us, vs, _, _, hus, hvs, hu, hv, fun heq => hne ?_⟩
  simpa using congrArg primitive? heq

end Ty
end QueryExpr
