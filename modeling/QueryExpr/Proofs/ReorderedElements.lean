/-
# Elements in another order

An array of checked elements has an order in which it is rejected, although others are
accepted, where two of its elements have no common type but both convert to a third
one. If classes extend nothing but classes, that is the only reason: an array is
accepted in every order just if every two of its elements make one. Where two orders
are accepted, the elements have one type in both, unless they are numbers that mix.
The branches of a conditional may be exchanged.

Key definitions: `Ty.ExtendsClasses`, `Ty.Settled`, `Check.Accepts`.
Key theorems: `Ty.elementType?_of_pairs`, `Check.accepts_newArray`,
`Check.accepts_conditional`, `Check.array_reordered`.
-/
import Mathlib.Data.List.Induction
import QueryExpr.Proofs.JoinedTypes
import QueryExpr.Proofs.Referents

namespace QueryExpr

/-- What widens to a type without null that is no number is that type. -/
theorem Prim.eq_of_widens_plain {p q : Prim} (h : p.widens q = true) (hv : q.isValueType = true)
    (hq : q.isNumberLike = false) : p = q := by
  revert p q
  decide +kernel

namespace Ty

/-- The type extends no predefined type but `Object`. -/
def ExtendsClasses (t : Ty) : Prop := ∀ p n, lift p n ∈ t.bases → p = .object

variable {t u v w x y : Ty} {ts us : List Ty} {p q : Prim} {n m : Bool}

/-! ### What converts to predefined types -/

/-- To predefined types, but for `Object`, nothing but predefined types and null
converts. -/
theorem ExtendsClasses.converts_lift (ht : t.ExtendsClasses) (hp : p ≠ .object)
    (h : t.converts (lift p m) = true) :
    t = .null ∨ ∃ q n, t = lift q n ∧ q.widens p = true ∧ (n = true → m = true) := by
  rcases converts_cases h with hs | ho | ⟨rfl, -⟩ | ⟨q, p', n, m', rfl, hlift, hqp, hnm, -⟩ |
    ⟨e, f, -, hseq, -⟩ | ⟨e, f, -, harr, -⟩ | hb
  · exact .inr ⟨p, m, eq_lift_of_beq hs, p.widens_refl, id⟩
  · exact absurd (Option.some.inj ((primitive?_lift p m).symm.trans (congrArg primitive? ho))) hp
  · exact .inl rfl
  · obtain rfl : p = p' := by simpa using congrArg primitive? hlift
    obtain rfl : m = m' := by simpa using congrArg isNullable hlift
    exact .inr ⟨q, n, rfl, hqp, hnm⟩
  · cases m <;> cases hseq
  · cases m <;> cases harr
  · exact absurd (ht p m (mem_bases_of_lift hb)) hp

/-- Nothing but null and numbers converts to a number. -/
theorem ExtendsClasses.not_converts_number (ht : t.ExtendsClasses) (hot : t.IsOther)
    (hq : q.isNumberLike = true) : t.converts (lift q m) = false := by
  by_contra h
  have hobject : q ≠ .object := by
    rintro rfl
    cases hq
  rcases ht.converts_lift hobject (by simpa using h) with rfl | ⟨p, n, rfl, hpq, -⟩
  · cases hot.1
  · cases (isOther_lift.mp hot).symm.trans (Prim.isNumberLike_of_widens hpq hq)

/-- What converts to a type converts to the one with null. -/
theorem ExtendsClasses.converts_toNullable? (ht : t.ExtendsClasses) (h : t.converts x = true)
    (hw : x.toNullable? = some w) : t.converts w = true := by
  rcases toNullable?_cases hw with ⟨rfl, -⟩ | ⟨p, hp, rfl, rfl⟩
  · exact h
  have hobject : p ≠ .object := by
    rintro rfl
    cases hp
  rcases ht.converts_lift hobject h with rfl | ⟨q, n, rfl, hqp, -⟩
  · exact null_converts rfl
  · exact lift_converts hqp (fun _ => rfl) fun _ => Prim.isValueType_of_widens hqp hp

/-! ### Every two -/

/-- The types are brought to one that is not of numbers, and convert to it. -/
def Settled (ts : List Ty) (v : Ty) : Prop :=
  (∃ x ∈ ts, x.IsOther ∧ NullJoined ts x v) ∧ ∀ y ∈ ts, y.converts v = true

theorem Settled.isOther (h : Settled ts v) : v.IsOther := by
  obtain ⟨⟨x, -, hox, hv⟩, -⟩ := h
  exact hv.isOther hox

/-- What converts to what types have been brought to changes nothing. -/
theorem Settled.join?_of_converts (h : Settled ts v) (hu : u ≠ .null) (huv : u.converts v = true) :
    join? v u = some v ∧ Settled (u :: ts) v := by
  obtain ⟨⟨x, hx, hox, hv⟩, hall⟩ := id h
  refine ⟨?_, ⟨x, List.mem_cons_of_mem _ hx, hox, hv.mono (List.subset_cons_self ..)⟩,
    List.forall_mem_cons.mpr ⟨huv, hall⟩⟩
  rw [join?_plain h.isOther.1 (isNull_of_ne hu) (.inl h.isOther.2), if_pos huv]

/-- Null changes nothing but that the type has null. -/
theorem Settled.exists_join?_null (hclass : ∀ t ∈ ts, t.ExtendsClasses)
    (hpairs : ∀ t ∈ ts, join? t .null ≠ none) (h : Settled ts v) :
    ∃ w, join? v .null = some w ∧ Settled (.null :: ts) w := by
  obtain ⟨⟨x, hx, hox, hv⟩, hall⟩ := h
  obtain ⟨w, hw⟩ := Option.ne_none_iff_exists'.mp (hpairs x hx)
  rw [join?_null_right] at hw
  have hall' : ∀ y ∈ .null :: ts, y.converts w = true :=
    List.forall_mem_cons.mpr ⟨null_converts (toNullable?_acceptsNull hw), fun y hy => by
      rcases hv with rfl | ⟨-, hv⟩
      · exact (hclass y hy).converts_toNullable? (hall y hy) hw
      · exact Option.some.inj (hv.symm.trans hw) ▸ hall y hy⟩
  refine ⟨w, ?_, ⟨x, List.mem_cons_of_mem _ hx, hox, .inr ⟨List.mem_cons_self, hw⟩⟩, hall'⟩
  rw [join?_null_right]
  rcases hv with rfl | ⟨-, hv⟩
  · exact hw
  · rw [toNullable?_toNullable? hv, ← hw, ← hv]

/-- A further type that none of the types brought to one has to be converted from has
null if null is among them. -/
theorem acceptsNull_of_pairs (hcx : x.ExtendsClasses) (hox : x.IsOther) (hou : u.IsOther)
    (hxu : x.converts u = true) (hne : x ≠ u) (hpair : join? .null u ≠ none) :
    u.acceptsNull = true := by
  obtain ⟨w, hw⟩ := Option.ne_none_iff_exists'.mp hpair
  rw [join?_null_left] at hw
  rcases toNullable?_cases hw with ⟨-, h⟩ | ⟨p, hp, rfl, -⟩
  · exact h
  have hobject : p ≠ .object := by
    rintro rfl
    cases hp
  rcases hcx.converts_lift hobject hxu with rfl | ⟨q, n, rfl, hqp, hn⟩
  · cases hox.1
  · have hq := Prim.eq_of_widens_plain hqp hp (isOther_lift.mp hou)
    cases n with
    | true => cases hn rfl
    | false => exact absurd (congrArg (lift · false) hq) hne

/-- Types that have been brought to one, and a further one that has a common type with
each of them, are brought to one again. -/
theorem Settled.exists_join? (hm : OnePerName (u :: ts))
    (hclass : ∀ t ∈ u :: ts, t.ExtendsClasses)
    (hpairs : ∀ t ∈ ts, join? t u ≠ none) (h : Settled ts v) :
    ∃ w, join? v u = some w ∧ Settled (u :: ts) w := by
  obtain ⟨hcu, hcts⟩ := List.forall_mem_cons.mp hclass
  by_cases hnull : u = .null
  · subst hnull
    exact h.exists_join?_null hcts hpairs
  by_cases huv : u.converts v = true
  · exact ⟨v, h.join?_of_converts hnull huv⟩
  obtain ⟨⟨x, hx, hox, hv⟩, hall⟩ := id h
  obtain ⟨w, hw⟩ := Option.ne_none_iff_exists'.mp (hpairs x hx)
  -- the further type has to be one that all of them convert to
  have hxu : x.converts u = true := by
    rcases join?_plain_cases hox.1 (isNull_of_ne hnull) (.inl hox.2) hw with ⟨-, hux⟩ | ⟨-, hxu⟩
    · refine absurd ?_ huv
      rcases hv with rfl | ⟨-, hv⟩
      · exact hux
      · exact hcu.converts_toNullable? hux hv
    · exact hxu
  have hou : u.IsOther := by
    rcases u.kinds with rfl | ⟨q, m, hq, rfl⟩ | hou
    · exact absurd rfl hnull
    · cases ((hcts x hx).not_converts_number hox hq).symm.trans hxu
    · exact hou
  have hne : x ≠ u := by
    rintro rfl
    exact huv (hall x hx)
  have haccepts (hmem : .null ∈ ts) : u.acceptsNull = true :=
    acceptsNull_of_pairs (hcts x hx) hox hou hxu hne (hpairs _ hmem)
  have hvu : v.converts u = true := by
    rcases hv with rfl | ⟨hmem, hv⟩
    · exact hxu
    · exact converts_of_toNullable? hxu (haccepts hmem) hv
  refine ⟨u, ?_, ⟨u, List.mem_cons_self, hou, .inl rfl⟩,
    List.forall_mem_cons.mpr ⟨converts_refl u, fun y hy => ?_⟩⟩
  · rw [join?_plain h.isOther.1 hou.1 (.inr hou.2), if_neg huv, if_pos hvu]
  by_cases hynull : y = .null
  · subst hynull
    exact null_converts (haccepts hy)
  obtain ⟨w', hw'⟩ := Option.ne_none_iff_exists'.mp (hpairs y hy)
  rcases join?_plain_cases (isNull_of_ne hynull) hou.1 (.inr hou.2) hw' with ⟨-, huy⟩ | ⟨-, hyu⟩
  · -- conversions that lead from a type back to it lead nowhere
    obtain ⟨us, hmus, hvus, hsub⟩ :=
      hm.exists_nullJoined (List.mem_cons_of_mem _ hx) (hv.mono (List.subset_cons_self ..))
    have hvn : v ≠ .null := ne_null_of_isNull h.isOther.1
    have within {t : Ty} (ht : t ∈ us) := throughout_of_mem ht
    have hyus := within (hsub (List.mem_cons_of_mem _ hy))
    have huus := within (hsub List.mem_cons_self)
    rcases rank_lt_of_converts hmus hyus (within hvus) hynull (hall y hy) with rfl | hrank
    · exact hvu
    rcases rank_lt_of_converts hmus (within hvus) huus hvn hvu with rfl | hrank'
    · exact absurd (converts_refl _) huv
    rcases rank_lt_of_converts hmus huus hyus hnull huy with rfl | hrank''
    · exact converts_refl _
    · omega
  · exact hyu

theorem lift_converts_object (hp : p.isNumberLike = true) :
    (lift p n).converts (lift .object m) = true := by
  have hwidens : p.widens .object = true := by simp [Prim.widens]
  cases m with
  | true => exact lift_converts hwidens (fun _ => rfl) fun _ => isNumberLike_isValueType hp
  | false =>
    refine converts_object ?_
    cases n <;> rfl

/-- Numbers and null, and a further type that is none and has a common type with each of
them, are brought to that type, with null if there is nothing else. -/
theorem exists_settled (ht : ∀ x ∈ t :: us, ¬ x.IsOther) (hu : u.IsOther)
    (hclass : u.ExtendsClasses) (hpairs : ∀ x ∈ t :: us, join? x u ≠ none) :
    ∃ v w, joinAll? t us = some v ∧ join? v u = some w ∧ Settled (u :: t :: us) w := by
  have hjoin := joinAll?_numbers ht
  rcases hps : numbers (t :: us) with _ | ⟨p, ps⟩ <;> rw [hps] at hjoin
  · have hnull : ∀ x ∈ t :: us, x = .null := fun x hx => by
      rcases x.kinds with rfl | ⟨q, n, hq, rfl⟩ | hox
      · rfl
      · have hmem : q ∈ numbers (t :: us) := List.mem_filterMap.mpr ⟨_, hx, number?_lift hq⟩
        rw [hps] at hmem
        cases hmem
      · exact absurd hox (ht x hx)
    have hmem : .null ∈ t :: us := hnull t List.mem_cons_self ▸ List.mem_cons_self
    obtain ⟨w, hw⟩ := Option.ne_none_iff_exists'.mp (hpairs _ hmem)
    have hw' := (join?_null_left u).symm.trans hw
    refine ⟨_, w, hjoin, hw, ⟨u, List.mem_cons_self, hu, .inr ⟨List.mem_cons_of_mem _ hmem, hw'⟩⟩,
      List.forall_mem_cons.mpr ⟨toNullable?_converts hw', fun x hx => ?_⟩⟩
    rw [hnull x hx]
    exact null_converts (toNullable?_acceptsNull hw')
  · -- a number converts to what is none, so that this is `Object`
    obtain ⟨x, hx, hxp⟩ : ∃ x ∈ t :: us, x.number? = some p :=
      List.mem_filterMap.mp (hps ▸ List.mem_cons_self : p ∈ numbers (t :: us))
    obtain ⟨hp, hxl⟩ := number?_eq_some hxp
    obtain ⟨w, hw⟩ := Option.ne_none_iff_exists'.mp (hpairs x hx)
    rw [hxl] at hw
    obtain ⟨m, rfl⟩ : ∃ m, u = lift .object m := by
      rcases join?_plain_cases isNull_lift hu.1 (.inr hu.2) hw with ⟨-, h⟩ | ⟨-, h⟩
      · cases (hclass.not_converts_number hu hp).symm.trans h
      · exact number_converts_cases hp h hu
    have hlike := isNumberLike_numbers (t :: us)
    rw [hps] at hlike
    have hq := (Prim.widens_promotedAll (hlike p List.mem_cons_self)
      fun r hr => hlike r (List.mem_cons_of_mem _ hr)).1
    refine ⟨_, lift .object m, hjoin, ?_, ⟨_, List.mem_cons_self, hu, .inl rfl⟩,
      List.forall_mem_cons.mpr ⟨converts_refl _, fun y hy => ?_⟩⟩
    · rw [join?_plain isNull_lift hu.1 (.inr hu.2), hclass.not_converts_number hu hq,
        lift_converts_object hq]
      rfl
    · rcases y.kinds with rfl | ⟨q, n, hq, rfl⟩ | hoy
      · cases m <;> rfl
      · exact lift_converts_object hq
      · exact absurd hoy (ht y hy)

theorem Settled.of_mem_iff (h : Settled ts v) (hmem : ∀ x, x ∈ us ↔ x ∈ ts) : Settled us v := by
  obtain ⟨⟨x, hx, hox, hv⟩, hall⟩ := h
  exact ⟨⟨x, (hmem x).mpr hx, hox, hv.mono fun y hy => (hmem y).mpr hy⟩,
    fun y hy => hall y ((hmem y).mp hy)⟩

/-- Types that are not all null or numbers, every two of which have a common type, are
brought to one that all of them convert to. -/
theorem exists_joinAll? (hm : OnePerName (t :: us)) (hclass : ∀ x ∈ t :: us, x.ExtendsClasses)
    (hpairs : ∀ x ∈ t :: us, ∀ y ∈ t :: us, join? x y ≠ none) (hother : ∃ x ∈ t :: us, x.IsOther) :
    ∃ v, joinAll? t us = some v ∧ Settled (t :: us) v := by
  induction us using List.reverseRecOn with
  | nil =>
    obtain ⟨x, hx, hox⟩ := hother
    obtain rfl := List.mem_singleton.mp hx
    exact ⟨x, rfl, ⟨x, hx, hox, .inl rfl⟩, List.forall_mem_singleton.mpr (converts_refl x)⟩
  | append_singleton us u ih =>
    have hlast (x : Ty) : x ∈ t :: (us ++ [u]) ↔ x ∈ u :: t :: us :=
      (List.perm_append_singleton u (t :: us)).mem_iff
    have hsub {x : Ty} (hx : x ∈ t :: us) : x ∈ t :: (us ++ [u]) :=
      (hlast x).mpr (List.mem_cons_of_mem _ hx)
    have hu : u ∈ t :: (us ++ [u]) := (hlast u).mpr List.mem_cons_self
    rw [joinAll?_concat]
    by_cases hbefore : ∃ x ∈ t :: us, x.IsOther
    · obtain ⟨v, hv, hset⟩ := ih (hm.mono fun _ => hsub) (fun x hx => hclass x (hsub hx))
        (fun x hx y hy => hpairs x (hsub hx) y (hsub hy)) hbefore
      obtain ⟨w, hw, hset⟩ := hset.exists_join? (hm.mono fun x hx => (hlast x).mpr hx)
        (fun x hx => hclass x ((hlast x).mpr hx)) fun x hx => hpairs x (hsub hx) u hu
      exact ⟨w, by rw [hv, Option.bind_some, hw], hset.of_mem_iff hlast⟩
    · have hnone : ∀ x ∈ t :: us, ¬ x.IsOther := fun x hx hox => hbefore ⟨x, hx, hox⟩
      have hou : u.IsOther := by
        obtain ⟨x, hx, hox⟩ := hother
        rcases List.mem_cons.mp ((hlast x).mp hx) with rfl | hx
        · exact hox
        · exact absurd hox (hnone x hx)
      obtain ⟨v, w, hv, hw, hset⟩ := exists_settled hnone hou (hclass u hu)
        fun x hx => hpairs x (hsub hx) u hu
      exact ⟨w, by rw [hv, Option.bind_some, hw], hset.of_mem_iff hlast⟩

/-- Types every two of which have a common type have a type of elements. -/
theorem elementType?_of_pairs (hm : OnePerName ts) (hclass : ∀ x ∈ ts, x.ExtendsClasses)
    (hpairs : ∀ x ∈ ts, ∀ y ∈ ts, join? x y ≠ none) : elementType? ts ≠ none := by
  by_cases hother : ∃ x ∈ ts, x.IsOther
  · match ts with
    | [] => nofun
    | t :: us =>
      obtain ⟨v, hv, hset⟩ := exists_joinAll? hm hclass hpairs hother
      refine Option.ne_none_iff_exists'.mpr ⟨v, elementType?_cons.mpr ⟨v, hv, ?_, hset.2⟩⟩
      rw [hset.isOther.1]
      rfl
  · rw [elementType?_numbers fun x hx hox => hother ⟨x, hx, hox⟩]
    nofun

/-- Two types that are brought to one convert to it. -/
theorem converts_join? (h : join? t u = some v) : t.converts v = true ∧ u.converts v = true := by
  rcases pair_kinds t u with rfl | rfl | ⟨ht, hu, hplain⟩ | ⟨p, n, q, m, hpn, hqn, rfl, rfl⟩
  · rw [join?_null_left] at h
    exact ⟨null_converts (toNullable?_acceptsNull h), toNullable?_converts h⟩
  · rw [join?_null_right] at h
    exact ⟨toNullable?_converts h, null_converts (toNullable?_acceptsNull h)⟩
  · rcases join?_plain_cases ht hu hplain h with ⟨rfl, hut⟩ | ⟨rfl, htu⟩
    · exact ⟨converts_refl _, hut⟩
    · exact ⟨htu, converts_refl _⟩
  · cases (join?_lift hpn hqn).symm.trans h
    obtain ⟨hpw, hqw, -⟩ := Prim.widens_promoted hpn hqn
    exact ⟨lift_converts hpw (fun h => by rw [h, Bool.true_or])
        fun _ => isNumberLike_isValueType hpn,
      lift_converts hqw (fun h => by rw [h, Bool.or_true]) fun _ => isNumberLike_isValueType hqn⟩

/-- Two elements have a type just if they have a common type. -/
theorem elementType?_pair : elementType? [t, u] ≠ none ↔ join? t u ≠ none := by
  have hjoin : joinAll? t [u] = join? t u := by
    rw [joinAll?_cons]
    cases join? t u <;> rfl
  rw [Option.ne_none_iff_exists', Option.ne_none_iff_exists']
  constructor
  · rintro ⟨v, hv⟩
    obtain ⟨w, hw, -⟩ := elementType?_cons.mp hv
    exact ⟨w, hjoin ▸ hw⟩
  · rintro ⟨w, hw⟩
    refine ⟨_, elementType?_cons.mpr ⟨w, hjoin.trans hw, rfl, ?_⟩⟩
    by_cases hnull : w = .null
    · subst hnull
      obtain ⟨rfl, rfl⟩ := eq_null_of_join? hw
      exact List.forall_mem_cons.mpr ⟨rfl, List.forall_mem_singleton.mpr rfl⟩
    · rw [isNull_of_ne hnull]
      obtain ⟨htw, huw⟩ := converts_join? hw
      exact List.forall_mem_cons.mpr ⟨htw, List.forall_mem_singleton.mpr huw⟩

/-- **Types have a type of elements in every order just if every two of them have one**,
for types that extend nothing but classes. -/
theorem elementType?_every_order (hm : OnePerName ts) (hclass : ∀ x ∈ ts, x.ExtendsClasses) :
    (∀ us, us.Perm ts → elementType? us ≠ none) ↔
      ∀ x ∈ ts, ∀ y ∈ ts, elementType? [x, y] ≠ none := by
  simp only [elementType?_pair]
  constructor
  · intro h x hx y hy
    by_cases hxy : x = y
    · subst hxy
      simp [join?]
    · obtain ⟨us, hus⟩ := exists_perm_cons_cons hx hy hxy
      obtain ⟨v, hv⟩ := Option.ne_none_iff_exists'.mp (h _ hus)
      obtain ⟨w, hw, -⟩ := elementType?_cons.mp hv
      rw [joinAll?_cons] at hw
      obtain ⟨z, hz, -⟩ := Option.bind_eq_some_iff.mp hw
      rw [hz]
      nofun
  · intro h us hus
    have hmem {x : Ty} (hx : x ∈ us) : x ∈ ts := hus.mem_iff.mp hx
    exact elementType?_of_pairs (hm.mono fun _ => hmem) (fun x hx => hclass x (hmem hx))
      fun x hx y hy => h x (hmem hx) y (hmem hy)

/-- What converts to a type goes on to convert to what that is brought to with others,
if it is predefined. -/
theorem lift_converts_joinAll? (h : (lift p n).converts v = true) (hw : joinAll? v us = some w) :
    (lift p n).converts w = true := by
  induction us generalizing v with
  | nil =>
    cases hw
    exact h
  | cons u us ih =>
    rw [joinAll?_cons] at hw
    obtain ⟨x, hx, hw⟩ := Option.bind_eq_some_iff.mp hw
    refine ih ?_ hw
    have hbasic : v.IsBasic := by
      rcases lift_converts_cases h with rfl | rfl | ⟨q, m, rfl, -⟩
      · exact .inr ⟨p, n, rfl⟩
      · exact .inr ⟨.object, false, rfl⟩
      · exact .inr ⟨q, m, rfl⟩
    exact IsBasic.converts_trans (.inr ⟨p, n, rfl⟩) hbasic h (converts_join? hx).1

/-- Predefined types convert to what they are brought to with others. -/
theorem lift_converts_of_mem (hw : joinAll? v us = some w) (hmem : lift p n ∈ v :: us) :
    (lift p n).converts w = true := by
  induction us generalizing v with
  | nil =>
    cases hw
    rw [List.mem_singleton.mp hmem]
    exact converts_refl _
  | cons u us ih =>
    rcases List.mem_cons.mp hmem with rfl | hmem
    · exact lift_converts_joinAll? (converts_refl _) hw
    rw [joinAll?_cons] at hw
    obtain ⟨x, hx, hw'⟩ := Option.bind_eq_some_iff.mp hw
    rcases List.mem_cons.mp hmem with rfl | hmem
    · exact lift_converts_joinAll? (converts_join? hx).2 hw'
    · exact ih hw' (List.mem_cons_of_mem _ hmem)

end Ty

namespace Check

variable {D : Discipline} {s : Scopes} {es : List Term} {e a b : Term} {t : Ty} {c : Context}

/-- The check yields a term of the given type. -/
def Accepts (m : Check Term) (c : Context) (t : Ty) : Prop := ∃ e d, m c = (.ok e, d) ∧ e.type = t

theorem values_pure (h : ∀ e ∈ es, e.type.isVoid = false) (c : Context) :
    values (es.map pure) c = (.ok es, c) := by
  induction es with
  | nil => rfl
  | cons e es ih =>
    obtain ⟨he, hes⟩ := List.forall_mem_cons.mp h
    rw [List.map_cons, values, Step.bind_apply, value_of_ok (m := pure e) (c := c) rfl he]
    dsimp only
    rw [Step.bind_apply, ih hes]
    rfl

theorem convertedAll_ok_iff : (∃ rs d, convertedAll t es c = (.ok rs, d)) ↔
    ∀ e ∈ es, e.isAssignable t = true := by
  induction es with
  | nil => exact ⟨fun _ => List.forall_mem_nil _, fun _ => ⟨[], c, rfl⟩⟩
  | cons e es ih =>
    rw [List.forall_mem_cons, ← ih, convertedAll, Step.bind_apply]
    cases ha : e.isAssignable t with
    | true =>
      have he : converted e t c = (.ok (e.convertTo t), c) := by
        unfold converted Term.coerce?
        rw [ha]
        rfl
      rw [he]
      dsimp only
      rw [Step.bind_apply]
      rcases convertedAll t es c with ⟨f | rs, d⟩
      · exact ⟨nofun, nofun⟩
      · exact ⟨fun _ => ⟨rfl, rs, d, rfl⟩, fun _ => ⟨_, _, rfl⟩⟩
    | false =>
      have he : ∃ f, converted e t c = (.error f, c) := by
        unfold converted Term.coerce?
        rw [ha]
        exact ⟨_, rfl⟩
      obtain ⟨f, hf⟩ := he
      rw [hf]
      exact ⟨nofun, nofun⟩

/-- Elements are brought to their type just if all of them may stand where it is
wanted: none does so only because it is a constant that fits. -/
theorem best_ok_iff (hes : ∀ e ∈ es, Term.Typed D s e) :
    Ty.best es = .ok t ∧ (∀ e ∈ es, e.isAssignable t = true) ↔
      Ty.elementType? (es.map (·.type)) = some t := by
  cases es with
  | nil => exact ⟨fun h => congrArg some (Except.ok.inj h.1),
      fun h => ⟨congrArg Except.ok (Option.some.inj h), List.forall_mem_nil _⟩⟩
  | cons e es =>
    have hbest : Ty.best (e :: es) = .ok t ↔ ∃ w, Ty.joinAll? e.type (es.map (·.type)) = some w ∧
        t = if w.isNull then Ty.object else w := by
      simp only [← Ty.bestOf_ok_iff (List.forall_mem_cons.mp hes).2]
      unfold Ty.best
      dsimp only
      rcases Ty.bestOf e.type es with f | w
      · exact ⟨nofun, nofun⟩
      · exact ⟨fun h => ⟨w, rfl, (Except.ok.inj h).symm⟩,
          fun ⟨w', hw, ht⟩ => by rw [Except.ok.inj hw, ht]⟩
    rw [hbest, List.map_cons, Ty.elementType?_cons]
    constructor
    · rintro ⟨⟨w, hw, ht⟩, hall⟩
      refine ⟨w, hw, ht, fun x hx => ?_⟩
      obtain ⟨a, ha, rfl⟩ : ∃ a ∈ e :: es, a.type = x := List.mem_map.mp hx
      rcases Term.isAssignable_iff.mp (hall a ha) with h | hf
      · exact h
      · obtain ⟨i, j, n, hai, htj⟩ := (hes a ha).fits_cases hf
        have hai : a.type = Ty.lift (.int i) false := hai
        obtain rfl : t = w := by
          cases hnull : w.isNull <;> rw [hnull] at ht
          · exact ht
          · rw [ht] at htj
            cases n <;> cases htj
        rw [hai] at hx ⊢
        exact Ty.lift_converts_of_mem hw hx
    · rintro ⟨w, hw, ht, hall⟩
      exact ⟨⟨w, hw, ht⟩, fun a ha => Term.isAssignable_of_converts
        (hall _ (List.mem_map_of_mem ha))⟩

/-- **An array of checked elements has the elements' type.** -/
theorem accepts_newArray (hes : ∀ e ∈ es, Term.Typed D s e ∧ e.type.isVoid = false) (span : Span) :
    Accepts (newArray none (es.map pure) span) c t ↔
      ∃ u, t = .array u ∧ Ty.elementType? (es.map (·.type)) = some u := by
  have happly : newArray none (es.map pure) span c =
      (ofExcept (Ty.best es) >>= fun u => convertedAll u es >>= fun rs =>
        pure (.newArray rs (.array u) span) : Check Term) c := by
    show (values (es.map pure) >>= fun es => ofExcept (Ty.best es) >>= fun u =>
      convertedAll u es >>= fun rs => pure (.newArray rs (.array u) span) : Check Term) c = _
    rw [Step.bind_apply, values_pure fun e he => (hes e he).2]
  simp only [← best_ok_iff fun e he => (hes e he).1]
  unfold Accepts
  rw [happly, Step.bind_apply, ofExcept_apply]
  rcases Ty.best es with f | u
  · exact ⟨nofun, nofun⟩
  dsimp only
  rw [Step.bind_apply]
  constructor
  · rintro ⟨e, d, h, rfl⟩
    rcases hrs : convertedAll u es c with ⟨f | rs, d'⟩ <;> rw [hrs] at h <;> cases h
    exact ⟨u, rfl, rfl, convertedAll_ok_iff.mp ⟨rs, _, hrs⟩⟩
  · rintro ⟨u', rfl, h, hall⟩
    cases h
    obtain ⟨rs, d, hrs⟩ := (convertedAll_ok_iff (c := c)).mpr hall
    rw [hrs]
    exact ⟨_, d, rfl, rfl⟩

/-- A conditional whose condition is a truth value, with checked branches. -/
theorem conditional_apply {condition : Check Term} {k : Term} {d : Context}
    (ha : Term.Typed D s a ∧ a.type.isVoid = false) (hb : Term.Typed D s b ∧ b.type.isVoid = false)
    (hcondition : value condition c = (.ok k, d)) (hk : (k.type == .boolean) = true)
    (span : Span) : conditional condition (pure a) (pure b) span c =
      (match (Ty.join? a.type b.type).or (Ty.join? b.type a.type) with
        | some t => pure (.conditional k (a.convertTo t) (b.convertTo t) t span)
        | none => fail (.noCommonType a.type.display b.type.display) span : Check Term) d := by
  unfold conditional
  rw [Step.bind_apply, hcondition]
  dsimp only
  rw [hk]
  show (value (pure a) >>= fun a => value (pure b) >>= fun b =>
    match (Ty.unify? a.type b).or (Ty.unify? b.type a) with
    | some t => pure (.conditional k (a.convertTo t) (b.convertTo t) t span)
    | none => fail (.noCommonType a.type.display b.type.display) span : Check Term) d = _
  rw [Step.bind_apply, value_of_ok (m := pure a) (c := d) rfl ha.2]
  dsimp only
  rw [Step.bind_apply, value_of_ok (m := pure b) (c := d) rfl hb.2]
  dsimp only
  rw [Ty.unify?_eq_join? hb.1, Ty.unify?_eq_join? ha.1]

/-- **The type of a conditional is the common type of its branches.** -/
theorem accepts_conditional {condition : Check Term} (ha : Term.Typed D s a ∧ a.type.isVoid = false)
    (hb : Term.Typed D s b ∧ b.type.isVoid = false) (span : Span) :
    Accepts (conditional condition (pure a) (pure b) span) c t ↔
      (∃ k d, value condition c = (.ok k, d) ∧ (k.type == .boolean) = true) ∧
        (Ty.join? a.type b.type).or (Ty.join? b.type a.type) = some t := by
  unfold Accepts
  rcases hcondition : value condition c with ⟨f | k, d⟩
  · unfold conditional
    rw [Step.bind_apply, hcondition]
    exact ⟨nofun, fun ⟨⟨_, _, h, _⟩, _⟩ => by cases h⟩
  cases hk : k.type == .boolean with
  | false =>
    unfold conditional
    rw [Step.bind_apply, hcondition]
    dsimp only
    rw [hk]
    refine ⟨nofun, fun ⟨⟨_, _, h, hk'⟩, _⟩ => ?_⟩
    cases h
    cases hk.symm.trans hk'
  | true =>
    rw [conditional_apply ha hb hcondition hk]
    cases (Ty.join? a.type b.type).or (Ty.join? b.type a.type) with
    | none => exact ⟨nofun, nofun⟩
    | some u =>
      constructor
      · rintro ⟨e, d', h, rfl⟩
        cases h
        exact ⟨⟨k, d, rfl, hk⟩, rfl⟩
      · rintro ⟨-, h⟩
        cases h
        exact ⟨_, d, rfl, rfl⟩

/-- Branches with a common type may be exchanged. -/
theorem accepts_conditional_comm {condition : Check Term}
    (ha : Term.Typed D s a ∧ a.type.isVoid = false) (hb : Term.Typed D s b ∧ b.type.isVoid = false)
    (hcomm : Ty.join? a.type b.type = Ty.join? b.type a.type) (span : Span) :
    Accepts (conditional condition (pure a) (pure b) span) c t ↔
      Accepts (conditional condition (pure b) (pure a) span) c t := by
  rw [accepts_conditional ha hb, accepts_conditional hb ha, hcomm]

/-- **Main result.** For checked elements, over a model with one class for each name:

* the array has the same type in every two orders in which it is accepted, unless the
  elements are numbers that mix, with null or without,
* and such numbers have different types in two orders in which the array is accepted;
* if the types of the elements extend nothing but classes, the array is accepted in
  every order just if every two of its elements make an array that is accepted;
* a conditional is accepted with the same type when its branches are exchanged. -/
theorem array_reordered (hes : ∀ e ∈ es, Term.Typed D s e ∧ e.type.isVoid = false)
    (hm : Ty.OnePerName (es.map (·.type))) (c : Context) (span : Span) :
    let array (es : List Term) := newArray none (es.map pure) span
    let numbers := ∀ e ∈ es, ¬ e.type.IsOther
    let mixed := Prim.Mixed (Ty.numbers (es.map (·.type)))
    (∀ es', es'.Perm es → ∀ t t', Accepts (array es) c t → Accepts (array es') c t' →
      t = t' ∨ numbers ∧ mixed) ∧
    (numbers → mixed → ∃ es₁ es₂ t₁ t₂, es₁.Perm es ∧ es₂.Perm es ∧
      Accepts (array es₁) c t₁ ∧ Accepts (array es₂) c t₂ ∧ t₁ ≠ t₂) ∧
    ((∀ e ∈ es, e.type.ExtendsClasses) →
      ((∀ es', es'.Perm es → ∃ t, Accepts (array es') c t) ↔
        ∀ a ∈ es, ∀ b ∈ es, ∃ t, Accepts (array [a, b]) c t)) ∧
    ∀ a ∈ es, ∀ b ∈ es, ∀ condition t,
      Accepts (conditional condition (pure a) (pure b) span) c t ↔
        Accepts (conditional condition (pure b) (pure a) span) c t := by
  intro array numbers mixed
  have hperm {es' : List Term} (h : es'.Perm es) :
      ∀ e ∈ es', Term.Typed D s e ∧ e.type.isVoid = false := fun e he => hes e (h.mem_iff.mp he)
  have accepts {es' : List Term} (h : es'.Perm es) {t : Ty} :
      Accepts (array es') c t ↔ ∃ u, t = .array u ∧ Ty.elementType? (es'.map (·.type)) = some u :=
    accepts_newArray (hperm h) span
  have htype {e : Term} (he : e ∈ es) : e.type ∈ es.map (·.type) := List.mem_map_of_mem he
  -- another order of the types is one of the elements
  have ordered {us : List Ty} (h : us.Perm (es.map (·.type))) :
      ∃ es' : List Term, es'.Perm es ∧ es'.map (·.type) = us := by
    rw [← List.filterMap_eq_map] at h
    obtain ⟨es', hes', hus⟩ := exists_perm_filterMap h
    exact ⟨es', hes', by rw [← hus, List.filterMap_eq_map]⟩
  refine ⟨fun es' h t t' ht ht' => ?_, fun hn hmix => ?_, fun hclass => ?_, fun a ha b hb k t => ?_⟩
  · obtain ⟨u, rfl, hu⟩ := (accepts (.refl es)).mp ht
    obtain ⟨u', rfl, hu'⟩ := (accepts h).mp ht'
    refine (Ty.elementType?_perm hm (h.map _).symm hu hu').imp (congrArg Ty.array) ?_
    exact fun ⟨hn, hmix⟩ => ⟨fun e he => hn _ (htype he), hmix⟩
  · obtain ⟨us, vs, u, v, hus, hvs, hu, hv, hne⟩ := Ty.exists_perm_elementType? (fun x hx => by
      obtain ⟨e, he, rfl⟩ := List.mem_map.mp hx
      exact hn e he) hmix
    obtain ⟨es₁, h₁, rfl⟩ := ordered hus
    obtain ⟨es₂, h₂, rfl⟩ := ordered hvs
    exact ⟨es₁, es₂, _, _, h₁, h₂, (accepts h₁).mpr ⟨u, rfl, hu⟩, (accepts h₂).mpr ⟨v, rfl, hv⟩,
      fun heq => hne (Ty.array.inj heq)⟩
  · have accepted {es' : List Term} (h : ∀ e ∈ es', e ∈ es) :
        (∃ t, Accepts (array es') c t) ↔ Ty.elementType? (es'.map (·.type)) ≠ none := by
      rw [Option.ne_none_iff_exists']
      constructor
      · rintro ⟨t, ht⟩
        obtain ⟨u, -, hu⟩ := (accepts_newArray (fun e he => hes e (h e he)) span).mp ht
        exact ⟨u, hu⟩
      · rintro ⟨u, hu⟩
        exact ⟨_, (accepts_newArray (fun e he => hes e (h e he)) span).mpr ⟨u, rfl, hu⟩⟩
    have pair {a b : Term} (ha : a ∈ es) (hb : b ∈ es) :
        (∃ t, Accepts (array [a, b]) c t) ↔ Ty.elementType? [a.type, b.type] ≠ none :=
      accepted (List.forall_mem_cons.mpr ⟨ha, List.forall_mem_singleton.mpr hb⟩)
    have hevery := Ty.elementType?_every_order hm fun x hx => by
      obtain ⟨e, he, rfl⟩ := List.mem_map.mp hx
      exact hclass e he
    constructor
    · intro h a ha b hb
      refine (pair ha hb).mpr (hevery.mp (fun us hus => ?_) _ (htype ha) _ (htype hb))
      obtain ⟨es', hes', rfl⟩ := ordered hus
      exact (accepted fun e he => hes'.mem_iff.mp he).mp (h es' hes')
    · intro h es' hes'
      refine (accepted fun e he => hes'.mem_iff.mp he).mpr
        (hevery.mpr (fun x hx y hy => ?_) _ (hes'.map _))
      obtain ⟨a, ha, rfl⟩ := List.mem_map.mp hx
      obtain ⟨b, hb, rfl⟩ := List.mem_map.mp hy
      exact (pair ha hb).mp (h a ha b hb)
  · have hjoin := Ty.join?_comm hm (Ty.throughout_of_mem (htype ha))
      (Ty.throughout_of_mem (htype hb))
    exact accepts_conditional_comm (hes a ha) (hes b hb) hjoin span

/-- Arrays and a conditional of a square and a shape, every square being a shape. -/
theorem array_reordered_shapes :
    let shape : Ty := .cls "Shape" [] [] [] none none false
    let square : Ty := .cls "Square" [] [] [] none (some shape) false
    let c : Context := ⟨.empty, .ofTable ⟨[⟨"x", square⟩, ⟨"y", shape⟩], none⟩⟩
    let x : Term := .parameter "x" square ⟨0, 1⟩
    let y : Term := .parameter "y" shape ⟨3, 1⟩
    let array (es : List Term) := newArray none (es.map pure) ⟨0, 4⟩
    let condition : Check Term := pure (.constant (.boolean true) .boolean ⟨0, 4⟩)
    (∀ es : List Term, es.Perm [x, y] → Accepts (array es) c (.array shape)) ∧
      Accepts (conditional condition (pure y) (pure x) ⟨0, 4⟩) c shape := by
  intro shape square c x y array condition
  have hnamex : "x" ≠ implicitName := by decide
  have hnamey : "y" ≠ implicitName := by decide
  have hxs : c.scopes.Denotes .scoped ⟨"x", .parameter 0, square⟩ :=
    .inr ⟨"x", hnamex, by with_unfolding_all rfl, rfl⟩
  have hys : c.scopes.Denotes .scoped ⟨"y", .parameter 1, shape⟩ :=
    .inr ⟨"y", hnamey, by with_unfolding_all rfl, rfl⟩
  have hx : Term.Typed .scoped c.scopes x := Term.Typed.parameter hxs
  have hy : Term.Typed .scoped c.scopes y := Term.Typed.parameter hys
  have hes : ∀ e ∈ [x, y], Term.Typed .scoped c.scopes e ∧ e.type.isVoid = false := by
    simp only [List.forall_mem_cons]
    exact ⟨⟨hx, rfl⟩, ⟨hy, rfl⟩, List.forall_mem_nil _⟩
  have hmem {u : Ty} (h : Ty.Occurs [square, shape] u) : u = square ∨ u = shape := by
    simpa using Ty.mem_of_occurs (by simp [square, shape, Ty.parts]) h
  have hm : Ty.OnePerName ([x, y].map (·.type)) := fun ht hu h => by
    rcases hmem ht with rfl | rfl <;> rcases hmem hu with rfl | rfl <;>
      first | rfl | exact absurd h (by decide)
  obtain ⟨hsame, -, hevery, hconditional⟩ := array_reordered hes hm c ⟨0, 4⟩
  have hclass : ∀ e ∈ [x, y], e.type.ExtendsClasses := by
    simp only [List.forall_mem_cons]
    refine ⟨fun p n h => ?_, fun p n h => ?_, List.forall_mem_nil _⟩ <;>
      cases n <;> simp [x, y, square, shape, Ty.bases, Ty.lift, Term.type] at h
  have hpairs : ∀ a ∈ [x, y], ∀ b ∈ [x, y], ∃ t, Accepts (array [a, b]) c t := by
    simp only [List.forall_mem_cons]
    exact ⟨⟨⟨_, _, _, rfl, rfl⟩, ⟨_, _, _, rfl, rfl⟩, List.forall_mem_nil _⟩,
      ⟨⟨_, _, _, rfl, rfl⟩, ⟨_, _, _, rfl, rfl⟩, List.forall_mem_nil _⟩, List.forall_mem_nil _⟩
  have hxy : Accepts (array [x, y]) c (.array shape) := ⟨_, _, rfl, rfl⟩
  refine ⟨fun es hperm => ?_, ?_⟩
  · obtain ⟨t, ht⟩ := (hevery hclass).mpr hpairs es hperm
    rcases hsame es hperm _ t hxy ht with rfl | ⟨hnumbers, -⟩
    · exact ht
    · exact absurd ⟨rfl, rfl⟩ (hnumbers x List.mem_cons_self)
  · exact (hconditional x (by simp) y (by simp) condition shape).mp ⟨_, _, rfl, rfl⟩

/-- Two classes and the class that both extend make no array with that class last, and
one in which it stands between them; unsigned numbers make an array of `Decimal` in one
order, and of `UInt64` in the other. -/
theorem array_reordered_rejected :
    let shape : Ty := .cls "Shape" [] [] [] none none false
    let square : Ty := .cls "Square" [] [] [] none (some shape) false
    let circle : Ty := .cls "Circle" [] [] [] none (some shape) false
    let t : ParameterTable := ⟨[⟨"x", square⟩, ⟨"y", circle⟩, ⟨"z", shape⟩,
      ⟨"a", .prim (.int .byte)⟩, ⟨"b", .prim (.int .uint16)⟩, ⟨"c", .prim (.int .uint64)⟩], none⟩
    let named (n : String) (position : Nat) : Expr := .name ⟨n, ⟨position, 1⟩⟩
    let array (es : List Expr) := (Expr.newArray none es ⟨0, 15⟩).check {} t .empty
    array [named "x" 7, named "y" 10, named "z" 13] =
        (.error ⟨.noElementType "Square" "Circle", ⟨10, 1⟩⟩, .empty) ∧
      (∃ e, array [named "x" 7, named "z" 10, named "y" 13] = (.ok e, .empty) ∧
        e.type = .array shape) ∧
      (∃ e, array [named "a" 7, named "b" 10, named "c" 13] = (.ok e, .empty) ∧
        e.type = .array (.prim .decimal)) ∧
      ∃ e, array [named "c" 7, named "b" 10, named "a" 13] = (.ok e, .empty) ∧
        e.type = .array (.prim (.int .uint64)) :=
  ⟨by with_unfolding_all rfl, ⟨_, by with_unfolding_all rfl, rfl⟩,
    ⟨_, by with_unfolding_all rfl, rfl⟩, ⟨_, by with_unfolding_all rfl, rfl⟩⟩

end Check

end QueryExpr
