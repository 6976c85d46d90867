/-
# Types that are safe to work with

A model is distinct if each name of a class and each number of a record stands
for one type, so that types that compare as the same are the same. It is sound
if its types have no `Void` where a value is wanted, too, and its classes are no
value types and extend classes. The discipline of safe types asks for a type of
the model at every place, for null where the type accepts it, and for no
conversion that is asked for and cannot be relied on.

Key definitions: `Ty.isBase`, `Ty.Sound`, `Ty.Occurs`, `DistinctModel`,
`SoundModel`, `Ty.castsSafely`, `Ty.Known`, `Discipline.safe`, `Discipline.Safe`.
Key theorems: `DistinctModel.eq_of_beq`, `Discipline.lawful_safe`,
`SoundModel.safe`.
-/
import QueryExpr.Proofs.WellTyped

namespace QueryExpr

namespace Ty

/-- The types that every object of a class may belong to as well: other
classes, `Object`, and `Void`, which nothing converts to. -/
def isBase : Ty → Bool
  | .cls .. | .prim .object | .nullable .object | .void => true
  | _ => false

/-- Whether the type is a class whose values are never null. -/
def isValueClass : Ty → Bool
  | .cls _ _ _ _ _ _ isValue => isValue
  | _ => false

/-- The type is declared without `Void` where a value is wanted, it is no class
of a value type, and what it extends is a class. -/
structure Sound (t : Ty) : Prop where
  solid : t.Solid
  reference : t.isValueClass = false
  base {b : Ty} : t.base? = some b → b.isBase = true

/-- The type is one of the given ones, or within one of them. -/
def Occurs (ts : List Ty) (u : Ty) : Prop := ∃ t ∈ ts, Within u t

end Ty

/-- Each name and each number stands for one type among the given ones, and all
numbers of records have been given out already. -/
structure DistinctModel (ts : List Ty) (records : RecordCache) : Prop where
  one {t u : Ty} : Ty.Occurs ts t → Ty.Occurs ts u → (t == u) = true → t = u
  made {id : Nat} {ps : Properties} : Ty.Occurs ts (.record id ps) → id ≤ records.synthesized

/-- The given types are sound, each name and each number stands for one type
among them, and all numbers of records have been given out already. -/
structure SoundModel (ts : List Ty) (records : RecordCache) : Prop where
  sound {u : Ty} : Ty.Occurs ts u → u.Sound
  one {t u : Ty} : Ty.Occurs ts t → Ty.Occurs ts u → (t == u) = true → t = u
  made {id : Nat} {ps : Properties} : Ty.Occurs ts (.record id ps) → id ≤ records.synthesized

/-! ### The discipline -/

namespace Ty

/-- Whether a conversion that is asked for keeps to the values of its target,
or fails on null: it does not lead from `Object`, nor from `Boolean?` to
`Boolean`. -/
def castsSafely (source target : Ty) : Bool :=
  !(source == object) && !(source == .nullable .boolean && target == boolean)

/-- Classes are among the given types, and records are as well, or have been
made by now. -/
def Known (ts : List Ty) (made : RecordCache) : Ty → Prop
  | t@(.cls ..) => Occurs ts t
  | .record id ps => Occurs ts (.record id ps) ∨ ⟨id, ps⟩ ∈ made.entries
  | _ => True

end Ty

/-- The discipline of safe types. -/
def Discipline.safe (ts : List Ty) (made : RecordCache) : Discipline where
  type t := t.Sound ∧ t.Known ts made
  value t := t.isVoid = false
  null t := t.acceptsNull = true
  call n := n ≠ implicitName
  cast s t := (∃ p, t = .prim p) ∧ s.convertsExplicitly t = true ∧ s.castsSafely t = true

/-! ### Equality over a distinct model -/

namespace DistinctModel

variable {ts : List Ty} {records made : RecordCache} {t u : Ty}

/-- Record types of one number are one. -/
theorem one_record (hm : DistinctModel ts records) (hg : records.Grows made)
    (hr : ∀ r ∈ records.entries, r.type ∈ ts) {id : Nat} {ps qs : Properties}
    (h : Ty.Known ts made (.record id ps)) (h' : Ty.Known ts made (.record id qs)) : ps = qs := by
  have occurs : ∀ r ∈ records.entries, Ty.Occurs ts r.type := fun r h => ⟨r.type, hr r h, .refl⟩
  have same (ps qs : Properties) : (Ty.record id ps == Ty.record id qs) = true := by
    show (id == id) = true
    simp
  -- a type that occurs and one that was made are one, as new numbers are new
  have mixed {ps qs : Properties} (h : Ty.Occurs ts (.record id ps))
      (h' : (⟨id, qs⟩ : RecordType) ∈ made.entries) : ps = qs := by
    rcases hg.fresh.2 _ h' with h' | ⟨hlt, -⟩
    · have := hm.one h (occurs _ h') (same ps qs)
      cases this
      rfl
    · have := hm.made h
      simp only at hlt
      omega
  rcases h with h | h <;> rcases h' with h' | h'
  · have := hm.one h h' (same ps qs)
    cases this
    rfl
  · exact mixed h h'
  · exact (mixed h' h).symm
  · have hid : ∀ r ∈ records.entries, r.id ≤ records.synthesized := fun r h => hm.made (occurs r h)
    have h1 : ∀ r ∈ records.entries, ∀ r' ∈ records.entries, r.id = r'.id → r = r' := by
      rintro ⟨i, ps⟩ hr ⟨j, qs⟩ hr' rfl
      have := hm.one (occurs _ hr) (occurs _ hr') (by show (i == i) = true; simp)
      cases this
      rfl
    have := hg.one hid h1 _ h _ h' rfl
    cases this
    rfl

mutual
theorem eq_of_same (hm : DistinctModel ts records) (hg : records.Grows made)
    (hr : ∀ r ∈ records.entries, r.type ∈ ts) :
    ∀ {t u : Ty}, t.Throughout (Ty.Known ts made) → u.Throughout (Ty.Known ts made) →
      t.same u = true → t = u
  | .prim _, u, _, _, h | .nullable _, u, _, _, h | .null, u, _, _, h | .void, u, _, _, h => by
    cases u <;> simp_all [Ty.same]
  | .sequence e, u, ht, hu, h => by
    cases u <;> simp only [Ty.same, Bool.false_eq_true] at h
    rw [eq_of_same hm hg hr (ht.element rfl) (hu.element rfl) h]
  | .array e, u, ht, hu, h => by
    cases u <;> simp only [Ty.same, Bool.false_eq_true] at h
    rw [eq_of_same hm hg hr (ht.element rfl) (hu.element rfl) h]
  | .cls .., u, ht, hu, h => by
    cases u <;> simp only [Ty.same, Bool.false_eq_true] at h
    exact hm.one ht.here hu.here h
  | .record id ps, u, ht, hu, h => by
    cases u <;> simp only [Ty.same, Bool.false_eq_true, beq_iff_eq] at h
    subst h
    rw [hm.one_record hg hr ht.here hu.here]
  | .delegate n ns ts' t, u, ht, hu, h => by
    cases u <;> simp only [Ty.same, Bool.false_eq_true, Bool.and_eq_true, beq_iff_eq] at h
    obtain ⟨⟨⟨rfl, rfl⟩, hts⟩, h⟩ := h
    rw [eq_of_same hm hg hr (ht.part List.mem_cons_self) (hu.part List.mem_cons_self) h,
      eq_of_sameAll hm hg hr (fun v hv => ht.part (List.mem_cons_of_mem _ hv))
        (fun v hv => hu.part (List.mem_cons_of_mem _ hv)) hts]

theorem eq_of_sameAll (hm : DistinctModel ts records) (hg : records.Grows made)
    (hr : ∀ r ∈ records.entries, r.type ∈ ts) :
    ∀ {vs us : List Ty}, (∀ t ∈ vs, t.Throughout (Ty.Known ts made)) →
      (∀ u ∈ us, u.Throughout (Ty.Known ts made)) → Ty.sameAll vs us = true → vs = us
  | [], us, _, _, h => by cases us <;> simp_all [Ty.sameAll]
  | v :: vs, us, hv, hu, h => by
    cases us with
    | nil => simp [Ty.sameAll] at h
    | cons u us =>
      simp only [Ty.sameAll, Bool.and_eq_true] at h
      rw [eq_of_same hm hg hr (hv v List.mem_cons_self) (hu u List.mem_cons_self) h.1,
        eq_of_sameAll hm hg hr (fun t ht => hv t (List.mem_cons_of_mem _ ht))
          (fun t ht => hu t (List.mem_cons_of_mem _ ht)) h.2]
end

/-- **Over a distinct model types that compare as the same are the same.** -/
theorem eq_of_beq (hm : DistinctModel ts records) (hg : records.Grows made)
    (hr : ∀ r ∈ records.entries, r.type ∈ ts) (ht : t.Throughout (Ty.Known ts made))
    (hu : u.Throughout (Ty.Known ts made)) (h : (t == u) = true) : t = u :=
  hm.eq_of_same hg hr ht hu h

end DistinctModel

namespace SoundModel

variable {ts : List Ty} {records made : RecordCache} (hm : SoundModel ts records)
include hm

theorem distinct : DistinctModel ts records := ⟨hm.one, hm.made⟩

theorem admits {t : Ty} (h : ∀ u, Ty.Within u t → Ty.Occurs ts u) :
    (Discipline.safe ts made).Admits t := by
  intro u hu
  have ho := h u hu
  refine ⟨hm.sound ho, ?_⟩
  cases u with
  | cls => exact ho
  | record => exact .inl ho
  | _ => trivial

/-- The given types are types of the discipline. -/
theorem admits_mem {t : Ty} (h : t ∈ ts) : (Discipline.safe ts made).Admits t :=
  hm.admits fun _ hu => ⟨t, h, hu⟩

end SoundModel

namespace Ty

/-- The bases of a sound class may be bases. -/
theorem isBase_of_mem_bases : ∀ {t b : Ty}, t.Throughout Sound → b ∈ t.bases → b.isBase = true
  | .cls n ps ms is e (some b') isValue, b, h, hb => by
    rcases List.mem_cons.mp hb with rfl | hb
    · exact h.here.base rfl
    · exact isBase_of_mem_bases (t := b') (h.base rfl) hb
  | .cls _ _ _ _ _ none _, b, _, hb => by cases hb
  | .prim _, b, _, hb | .nullable _, b, _, hb | .null, b, _, hb | .void, b, _, hb
  | .sequence _, b, _, hb | .array _, b, _, hb | .record _ _, b, _, hb
  | .delegate _ _ _ _, b, _, hb => by cases hb

/-- What a type serves as by being a base may be a base. -/
theorem isBase_of_isBaseOf {t u : Ty} (ht : t.Throughout Sound) (h : isBaseOf u t = true) :
    u.isBase = true := by
  obtain ⟨b, hb, hbu⟩ := List.any_eq_true.mp h
  have hbase := isBase_of_mem_bases ht hb
  change b.same u = true at hbu
  cases b <;> simp only [isBase, Bool.false_eq_true] at hbase <;> cases u <;>
    simp_all [same, isBase]

/-- A type that is the same as one that accepts null accepts it. -/
theorem acceptsNull_of_beq {t u : Ty} (hu : u.Sound) (h : t.acceptsNull = true)
    (hs : (t == u) = true) : u.acceptsNull = true := by
  have hs : t.same u = true := hs
  have hv := hu.reference
  cases t <;> cases u <;> simp_all [same, acceptsNull, isValueClass]

/-- A sound type that may be a base has null among its values, or is `Void`. -/
theorem acceptsNull_of_isBase {t : Ty} (ht : t.Sound) (h : t.isBase = true) (hv : t ≠ .void) :
    t.acceptsNull = true := by
  have hr := ht.reference
  unfold isBase at h
  split at h
  · simpa [acceptsNull, isValueClass] using hr
  · rfl
  · rfl
  · exact absurd rfl hv
  · cases h

/-- What accepts null converts to what accepts it. -/
theorem acceptsNull_of_converts {t u : Ty} (ht : t.Throughout Sound) (hu : u.Sound)
    (h : t.acceptsNull = true) (hc : t.converts u = true) : u.acceptsNull = true := by
  rcases converts_cases hc with hs | rfl | ⟨-, hn⟩ | ⟨p, q, n, m, rfl, rfl, hw, hn, -⟩ |
    ⟨e, f, -, rfl, -⟩ | ⟨e, f, -, rfl, -⟩ | hb
  · exact acceptsNull_of_beq hu h hs
  · rfl
  · exact hn
  · cases m with
    | true => rfl
    | false =>
      have hn : n = false := by simpa using hn
      subst hn
      cases p <;> cases q <;> simp_all [lift, acceptsNull, Prim.isValueType, Prim.widens]
  · rfl
  · rfl
  · refine acceptsNull_of_isBase hu (isBase_of_isBaseOf ht hb) ?_
    rintro rfl
    have hv := converts_void t hc
    cases t <;> simp_all [isVoid, acceptsNull]

end Ty

namespace Discipline

variable {ts : List Ty} {made : RecordCache}

theorem sound_prim (p : Prim) : (Ty.prim p).Sound :=
  ⟨by simp [Ty.Solid, Ty.ownProperties, Ty.element?, Ty.ownIndexers], rfl, fun h => by cases h⟩

theorem sound_null : Ty.null.Sound :=
  ⟨by simp [Ty.Solid, Ty.ownProperties, Ty.element?, Ty.ownIndexers], rfl, fun h => by cases h⟩

theorem lawful_safe : (safe ts made).Lawful where
  prim p := ⟨sound_prim p, trivial⟩
  nullable p := ⟨⟨by simp [Ty.Solid, Ty.ownProperties, Ty.element?, Ty.ownIndexers], rfl,
    fun h => by cases h⟩, trivial⟩
  ofNull := ⟨sound_null, trivial⟩
  sequence h := ⟨⟨lawful_solid.sequence h, rfl, fun h => by cases h⟩, trivial⟩
  array h := ⟨⟨lawful_solid.array h, rfl, fun h => by cases h⟩, trivial⟩
  valued h := h
  converted h hc := lawful_solid.converted h hc
  property h hp := lawful_solid.property h.1.solid hp
  element h he := lawful_solid.element h.1.solid he
  indexer h hs := lawful_solid.indexer h.1.solid hs
  named h := h
  acceptsNull h := h
  convertsNull ht hu := Ty.acceptsNull_of_converts (ht.mono fun _ h => h.1) hu.here.1
  castsNull {p q} hp hc := by
    obtain ⟨-, hc, hs⟩ := hc
    rcases Ty.convertsExplicitly_cases hc with hc | ⟨r, n, hr, hn⟩ | ho
    · exact Ty.acceptsNull_of_converts (.of_parts (sound_prim p) (List.forall_mem_nil _))
        (sound_prim q) hp hc
    · cases n <;> cases hr
      rcases hn with ⟨hn, -⟩ | rfl
      · have hv := Ty.isNumberLike_isValueType hn
        have hv' : p.isValueType = false := by simpa [safe, Ty.acceptsNull] using hp
        rw [hv] at hv'
        cases hv'
      · exact hp
    · simp [Ty.castsSafely, ho] at hs
  castsNullType {p} hc := by
    obtain ⟨-, hc, -⟩ := hc
    rcases Ty.convertsExplicitly_cases hc with hc | ⟨r, n, hr, -⟩ | ho
    · exact Ty.acceptsNull_of_converts (.of_parts sound_null (List.forall_mem_nil _))
        (sound_prim p) rfl hc
    · cases n <;> cases hr
    · cases ho

theorem grants_safe : (safe ts made).Grants Ty.castsSafely := fun _ p hs hc => ⟨⟨p, rfl⟩, hc, hs⟩

/-- What a discipline has to grant for the values of its types to keep to
them: types that compare as the same are the same, and there is nothing but
what is safe. -/
structure Safe (D : Discipline) : Prop where
  lawful : D.Lawful
  exact {t u : Ty} : D.Admits t → D.Admits u → (t == u) = true → t = u
  sound {t : Ty} : D.type t → t.Sound
  value {t : Ty} : D.value t → t.isVoid = false
  null {t : Ty} : D.null t → t.acceptsNull = true
  call {n : String} : D.call n → n ≠ implicitName
  cast {t u : Ty} : D.cast t u →
    (∃ p, u = .prim p) ∧ t.convertsExplicitly u = true ∧ t.castsSafely u = true

theorem Safe.throughout {D : Discipline} (hD : D.Safe) {t : Ty} (h : D.Admits t) :
    t.Throughout Ty.Sound := h.mono fun _ => hD.sound

end Discipline

/-- **The discipline of a sound model is safe.** -/
theorem SoundModel.safe {ts : List Ty} {records made : RecordCache}
    (hm : SoundModel ts records) (hg : records.Grows made)
    (hr : ∀ r ∈ records.entries, r.type ∈ ts) : (Discipline.safe ts made).Safe where
  lawful := Discipline.lawful_safe
  exact ht hu := hm.distinct.eq_of_beq hg hr (ht.mono fun _ h => h.2) (hu.mono fun _ h => h.2)
  sound h := h.1
  value h := h
  null h := h
  call h := h
  cast h := h

end QueryExpr
