/-
# Types over two caches

The same text can be checked over two caches of record types. What it comes to over
the one corresponds to what it comes to over the other: declared types are what they
are, and the records that were made stand for each other, under numbers of their own,
if their properties do. Nothing that is asked of types tells corresponding types apart:
two types are the same just if those that they correspond to are.

Key definitions: `RecordCache.Serves`, `Caches`, `Ty.Corresponds`, `Caches.Sound`.
Key theorems: `RecordCache.Serves.requested`, `Ty.Corresponds.unique`, `Caches.Sound.beq`,
`Caches.Sound.request`.
-/
import QueryExpr.Proofs.AggregateForms
import QueryExpr.Proofs.RecordRuns
import QueryExpr.Proofs.SafeTypes

namespace QueryExpr

/-! ### Caches that serve declared types -/

/-- Among the given types there is a record of the number. -/
def Ty.Declares (ts : List Ty) (id : Nat) : Prop := ∃ ps, Occurs ts (.record id ps)

/-- The given types and those of the records in a cache. -/
def RecordCache.types (ts : List Ty) (c : RecordCache) : List Ty :=
  ts ++ c.entries.map RecordType.type

/-- The cache has grown from one over which each name and each number stands for one
type, and what its records are made of is known. -/
structure RecordCache.Serves (ts : List Ty) (c : RecordCache) : Prop where
  orderly : c.Orderly
  model : ∃ base : RecordCache, DistinctModel (base.types ts) base ∧ base.Grows c ∧
    ∀ r ∈ c.entries, r.type.Throughout (Ty.Known (base.types ts) c)

namespace Ty

variable {ts us : List Ty} {c d : RecordCache} {t : Ty}

theorem Occurs.mono {u : Ty} (hsub : ∀ t ∈ ts, t ∈ us) (h : Occurs ts u) : Occurs us u := by
  obtain ⟨t, ht, hu⟩ := h
  exact ⟨t, hsub t ht, hu⟩

/-- More types and more records are known with more of them. -/
theorem Known.mono (hsub : ∀ t ∈ ts, t ∈ us) (hmem : ∀ r ∈ c.entries, r ∈ d.entries)
    (h : t.Known ts c) : t.Known us d := by
  cases t with
  | cls => exact Occurs.mono hsub h
  | record id ps => exact h.imp (Occurs.mono hsub) (hmem _)
  | _ => trivial

theorem Within.trans {u v : Ty} (h : Within u v) (h' : Within v t) : Within u t := by
  induction h' with
  | refl => exact h
  | part hv _ ih => exact .part hv ih

/-- What is within given types is known from the start. -/
theorem Occurs.known (h : Occurs ts t) : t.Throughout (Known ts .empty) := by
  intro u hu
  obtain ⟨v, hv, hwithin⟩ := h
  have hoccurs : Occurs ts u := ⟨v, hv, hu.trans hwithin⟩
  cases u with
  | cls => exact hoccurs
  | record => exact .inl hoccurs
  | _ => trivial

end Ty

namespace RecordCache

variable {ts : List Ty} {c d : RecordCache} {ps qs : Properties} {r s : RecordType} {t u : Ty}

theorem mem_types (h : t ∈ ts) : t ∈ c.types ts := List.mem_append_left _ h

/-- A cache over which each name and each number stands for one type serves them. -/
theorem Serves.of_model (ho : c.Orderly) (hm : DistinctModel (c.types ts) c) : c.Serves ts where
  orderly := ho
  model := ⟨c, hm, .refl, fun r hr => by
    have hmem : r.type ∈ c.types ts := List.mem_append_right _ (List.mem_map_of_mem hr)
    exact (Ty.Occurs.known ⟨_, hmem, .refl⟩).mono fun _ h =>
      h.mono (fun _ h => h) fun _ h => by cases h⟩

/-- A signature of known types is that of the record it is the same as. -/
theorem Serves.eq_of_same (h : c.Serves ts) (hps : ∀ p ∈ ps, p.2.Throughout (Ty.Known ts c))
    (hr : r ∈ c.entries) (hsame : ps.same r.properties = true) : ps = r.properties := by
  obtain ⟨base, hm, hg, hknown⟩ := h.model
  have hrec : ∀ r ∈ base.entries, r.type ∈ base.types ts :=
    fun r hr => List.mem_append_right _ (List.mem_map_of_mem hr)
  have hr' : ∀ p ∈ r.properties, p.2.Throughout (Ty.Known (base.types ts) c) :=
    fun p hp => (hknown r hr).ownProperty (t := r.type) hp
  generalize r.properties = qs at hsame hr'
  induction ps generalizing qs with
  | nil =>
    cases qs with
    | nil => rfl
    | cons => cases hsame
  | cons p ps ih =>
    cases qs with
    | nil => cases hsame
    | cons q qs =>
      simp only [Properties.same, Bool.and_eq_true, beq_iff_eq] at hsame
      obtain ⟨⟨hname, htype⟩, hsame⟩ := hsame
      obtain ⟨hp, hps⟩ := List.forall_mem_cons.mp hps
      obtain ⟨hq, hqs⟩ := List.forall_mem_cons.mp hr'
      have hp : p.2.Throughout (Ty.Known (base.types ts) c) :=
        hp.mono fun _ h => h.mono (fun _ => mem_types) fun _ h => h
      rw [ih hps qs hsame hqs, Prod.ext hname (hm.eq_of_beq hg hrec hp hq htype)]

/-- Known types that compare as the same are the same. -/
theorem Serves.exact (h : c.Serves ts) (ht : t.Throughout (Ty.Known ts c))
    (hu : u.Throughout (Ty.Known ts c)) (hbeq : (t == u) = true) : t = u := by
  obtain ⟨base, hm, hg, -⟩ := h.model
  have known {t : Ty} (ht : t.Throughout (Ty.Known ts c)) :
      t.Throughout (Ty.Known (base.types ts) c) :=
    ht.mono fun _ h => h.mono (fun _ => mem_types) fun _ h => h
  exact hm.eq_of_beq hg (fun r hr => List.mem_append_right _ (List.mem_map_of_mem hr))
    (known ht) (known hu) hbeq

/-- A record in the cache that has a declared number is the declared one. -/
theorem Serves.occurs (h : c.Serves ts) (hr : r ∈ c.entries) (hd : Ty.Declares ts r.id) :
    Ty.Occurs ts r.type := by
  obtain ⟨ps, hps⟩ := hd
  obtain ⟨base, hm, hg, -⟩ := h.model
  have hknown : Ty.Known (base.types ts) c (.record r.id r.properties) := .inr hr
  have hone : r.properties = ps := hm.one_record hg
    (fun r hr => List.mem_append_right _ (List.mem_map_of_mem hr)) hknown
    (.inl (hps.mono fun _ => mem_types))
  rw [RecordType.type, hone]
  exact hps

/-- The declared numbers have been given out. -/
theorem Serves.counted (h : c.Serves ts) {id : Nat} (hd : Ty.Declares ts id) :
    id ≤ c.synthesized := by
  obtain ⟨ps, hps⟩ := hd
  obtain ⟨base, hm, hg, -⟩ := h.model
  exact Nat.le_trans (hm.made (hps.mono fun _ => mem_types)) hg.fresh.1

/-- Requests for known types keep a cache in service. -/
theorem Serves.request (h : c.Serves ts) (hps : ∀ p ∈ ps, p.2.Throughout (Ty.Known ts c)) :
    (c.request ps).2.Serves ts := by
  obtain ⟨base, hm, hg, hknown⟩ := h.model
  refine ⟨h.orderly.request ps, base, hm, hg.trans (.request ps .refl), fun r hr => ?_⟩
  have grown {us : List Ty} {t : Ty} (ht : t.Throughout (Ty.Known us c)) :
      t.Throughout (Ty.Known us (c.request ps).2) :=
    ht.mono fun _ h => h.mono (fun _ h => h) fun _ => mem_request ps
  rcases c.request_cases ps with heq | heq
  · rw [heq] at hr
    exact grown (hknown r hr)
  · rw [heq] at hr
    rcases List.mem_cons.mp hr with rfl | hr
    · refine .of_parts (.inr ?_) fun u hu => ?_
      · rw [heq]
        exact List.mem_cons_self
      · obtain ⟨p, hp, rfl⟩ := List.mem_map.mp hu
        exact grown ((hps p hp).mono fun _ h => h.mono (fun _ => mem_types) fun _ h => h)
    · exact grown (hknown r hr)

/-- What is requested is a record in the cache with the signature. -/
theorem Serves.requested (h : c.Serves ts) (hps : ∀ p ∈ ps, p.2.Throughout (Ty.Known ts c))
    (heq : c.request ps = (.ok r, d)) : d.Serves ts ∧ r ∈ d.entries ∧ r.properties = ps := by
  have hd := h.request hps
  have hgrows := Grows.refl.request (c := c) ps
  rw [heq] at hd hgrows
  obtain ⟨hsame, hr⟩ := request_ok heq
  refine ⟨hd, hr, (hd.eq_of_same (fun p hp => ?_) hr hsame).symm⟩
  exact (hps p hp).mono fun _ h => h.mono (fun _ h => h) fun _ => hgrows.mem

/-- A cache that grows makes no declared record. -/
theorem Serves.mem_iff (h : c.Serves ts) (hg : c.Grows d) (hr : Ty.Occurs ts r.type) :
    r ∈ d.entries ↔ r ∈ c.entries := by
  refine ⟨fun hmem => ?_, hg.mem⟩
  rcases hg.fresh.2 r hmem with hmem | ⟨hlt, -⟩
  · exact hmem
  · exact absurd (h.counted ⟨_, hr⟩) (Nat.not_le_of_lt hlt)

end RecordCache

/-! ### Corresponding types -/

/-- Two caches that the same is checked over. -/
structure Caches where
  left : RecordCache
  right : RecordCache

/-- Both caches come from the earlier ones by requests. -/
structure Caches.Grows (w w' : Caches) : Prop where
  left : w.left.Grows w'.left
  right : w.right.Grows w'.right

/-- The caches the other way round. -/
def Caches.swap (w : Caches) : Caches := ⟨w.right, w.left⟩

/-- The types are the same apart from the numbers of records that were made. -/
inductive Ty.Corresponds (ts : List Ty) (w : Caches) : Ty → Ty → Prop
  | same {t : Ty} : t.Throughout (Known ts .empty) → Corresponds ts w t t
  | sequence {e f : Ty} : Corresponds ts w e f → Corresponds ts w (.sequence e) (.sequence f)
  | array {e f : Ty} : Corresponds ts w e f → Corresponds ts w (.array e) (.array f)
  | record {i j : Nat} {ps qs : Properties} : ⟨i, ps⟩ ∈ w.left.entries →
      ⟨j, qs⟩ ∈ w.right.entries → ¬ Declares ts i → ¬ Declares ts j →
      ps.map (·.1) = qs.map (·.1) →
      (∀ (k : Nat) (t u : Ty), (ps.map (·.2))[k]? = some t → (qs.map (·.2))[k]? = some u →
        Corresponds ts w t u) →
      Corresponds ts w (.record i ps) (.record j qs)

/-- The signatures have the same names, and types that correspond. -/
def Properties.Correspond (ts : List Ty) (w : Caches) : Properties → Properties → Prop :=
  List.Forall₂ fun p q => p.1 = q.1 ∧ p.2.Corresponds ts w q.2

namespace Ty.Corresponds

variable {ts : List Ty} {w w' : Caches} {t t' u u' : Ty}

theorem swap (h : t.Corresponds ts w t') : t'.Corresponds ts w.swap t := by
  induction h with
  | same h => exact .same h
  | sequence _ ih => exact .sequence ih
  | array _ ih => exact .array ih
  | record hi hj hdi hdj hn _ ih =>
    exact .record hj hi hdj hdi hn.symm fun k t u ht hu => ih k u t hu ht

theorem mono (hg : w.Grows w') (h : t.Corresponds ts w t') : t.Corresponds ts w' t' := by
  induction h with
  | same h => exact .same h
  | sequence _ ih => exact .sequence ih
  | array _ ih => exact .array ih
  | record hi hj hdi hdj hn _ ih => exact .record (hg.left.mem hi) (hg.right.mem hj) hdi hdj hn ih

/-- What corresponds to another type is known. -/
theorem known (h : t.Corresponds ts w t') : t.Throughout (Known ts w.left) := by
  induction h with
  | same h => exact h.mono fun _ h => h.mono (fun _ h => h) fun _ h => by cases h
  | sequence _ ih | array _ ih =>
    refine .of_parts trivial fun u hu => ?_
    rw [List.mem_singleton.mp hu]
    exact ih
  | record hi _ _ _ hn _ ih =>
    -- there are as many properties on either side, so that each of them has a counterpart
    refine .of_parts (.inr hi) fun u hu => ?_
    obtain ⟨k, hk, rfl⟩ := List.getElem_of_mem hu
    have hlength := congrArg List.length hn
    simp only [parts, List.length_map] at hk hlength
    exact ih k _ _ (List.getElem?_eq_getElem _) (List.getElem?_eq_getElem (by simpa [← hlength]))

theorem known_right (h : t.Corresponds ts w t') : t'.Throughout (Known ts w.right) := h.swap.known

/-- Declared types correspond to nothing but themselves. -/
theorem eq_of_given (h : t.Corresponds ts w t') (ht : t.Throughout (Known ts .empty)) : t = t' := by
  induction h with
  | same => rfl
  | sequence _ ih | array _ ih => rw [ih (ht.element rfl)]
  | record _ _ hdi =>
    rcases ht.here with hoccurs | hmem
    · exact absurd ⟨_, hoccurs⟩ hdi
    · cases hmem

/-- Types that are declared throughout correspond to themselves. -/
theorem of_mem_given {us : List Ty} (h : ∀ u ∈ us, u.Throughout (Known ts .empty)) :
    List.Forall₂ (Corresponds ts w) us us := List.forall₂_same.mpr fun u hu => .same (h u hu)

end Ty.Corresponds

namespace Properties

variable {ts : List Ty} {w w' : Caches} {ps qs : Properties}

theorem Correspond.names (h : ps.Correspond ts w qs) : ps.map (·.1) = qs.map (·.1) := by
  induction h with
  | nil => rfl
  | cons hp _ ih => rw [List.map_cons, List.map_cons, hp.1, ih]

theorem Correspond.swap (h : ps.Correspond ts w qs) : qs.Correspond ts w.swap ps :=
  List.Forall₂.flip (h.imp fun _ _ h => ⟨h.1.symm, h.2.swap⟩)

theorem Correspond.mono (hg : w.Grows w') (h : ps.Correspond ts w qs) : ps.Correspond ts w' qs :=
  h.imp fun _ _ h => ⟨h.1, h.2.mono hg⟩

theorem Correspond.known (h : ps.Correspond ts w qs) :
    ∀ p ∈ ps, p.2.Throughout (Ty.Known ts w.left) := by
  induction h with
  | nil => exact List.forall_mem_nil _
  | cons hp _ ih => exact List.forall_mem_cons.mpr ⟨hp.2.known, ih⟩

/-- Declared properties correspond to nothing but themselves. -/
theorem Correspond.eq_of_given (h : ps.Correspond ts w qs)
    (hps : ∀ p ∈ ps, p.2.Throughout (Ty.Known ts .empty)) : ps = qs := by
  induction h with
  | nil => rfl
  | cons hp _ ih =>
    obtain ⟨hgiven, hps⟩ := List.forall_mem_cons.mp hps
    rw [ih hps, Prod.ext hp.1 (hp.2.eq_of_given hgiven)]

/-- Names that are the same and types that correspond make up the properties. -/
theorem correspond_of_names (hn : ps.map (·.1) = qs.map (·.1))
    (ht : ∀ (k : Nat) (t u : Ty), (ps.map (·.2))[k]? = some t → (qs.map (·.2))[k]? = some u →
      t.Corresponds ts w u) : ps.Correspond ts w qs := by
  induction ps generalizing qs with
  | nil =>
    cases qs with
    | nil => exact .nil
    | cons => cases hn
  | cons p ps ih =>
    cases qs with
    | nil => cases hn
    | cons q qs =>
      obtain ⟨hp, hn⟩ := List.cons.inj hn
      exact .cons ⟨hp, ht 0 _ _ rfl rfl⟩ (ih hn fun k => ht (k + 1))

theorem Correspond.types (h : ps.Correspond ts w qs) (k : Nat) (t u : Ty)
    (ht : (ps.map (·.2))[k]? = some t) (hu : (qs.map (·.2))[k]? = some u) :
    t.Corresponds ts w u := by
  induction h generalizing k with
  | nil => cases ht
  | cons hp _ ih =>
    cases k with
    | zero =>
      cases ht
      cases hu
      exact hp.2
    | succ k => exact ih k ht hu

end Properties

namespace Ty.Corresponds

variable {ts : List Ty} {w w' : Caches} {t t' u u' : Ty} {i : Nat} {ps : Properties}

/-- **Of two records that two types correspond to, the later cache has only one.** -/
theorem unique (hs : w.right.Serves ts) (h : t.Corresponds ts w t') (h' : t.Corresponds ts w u') :
    t' = u' := by
  induction h generalizing u' with
  | same ht => exact h'.eq_of_given ht
  | @sequence e f h ih =>
    cases h' with
    | same ht => exact ((Corresponds.sequence h).eq_of_given ht).symm
    | sequence h' => rw [ih h']
  | @array e f h ih =>
    cases h' with
    | same ht => exact ((Corresponds.array h).eq_of_given ht).symm
    | array h' => rw [ih h']
  | @record i j ps qs hi hj hdi hdj hn hts ih =>
    cases h' with
    | same ht => exact ((Corresponds.record hi hj hdi hdj hn hts).eq_of_given ht).symm
    | @record _ j' _ qs' _ hj' _ _ hn' hts' =>
      have hnames : qs.map (·.1) = qs'.map (·.1) := hn.symm.trans hn'
      have hlength : qs.length = qs'.length := by simpa using congrArg List.length hnames
      have hlength' : ps.length = qs.length := by simpa using congrArg List.length hn
      have hqs : qs = qs' := by
        refine List.ext_getElem hlength fun k hk hk' => Prod.ext ?_ ?_
        · simpa [hk, hk'] using congrArg (·[k]?) hnames
        · have hkp : k < ps.length := hlength'.symm ▸ hk
          exact ih k ps[k].2 qs[k].2 (by simp [hkp]) (by simp [hk])
            (hts' k _ _ (by simp [hkp]) (by simp [hk']))
      -- a cache has one record for a signature
      subst hqs
      have hsame := hs.orderly.eq_of_same hj hj' (Properties.same_refl qs)
      exact congrArg RecordType.type hsame

end Ty.Corresponds

/-! ### Two caches at work -/

/-- Both caches serve the declared types, and of the declared records they have the
same. -/
structure Caches.Sound (ts : List Ty) (w : Caches) : Prop where
  left : w.left.Serves ts
  right : w.right.Serves ts
  agree : ∀ r : RecordType, Ty.Occurs ts r.type → (r ∈ w.left.entries ↔ r ∈ w.right.entries)

namespace Caches.Sound

variable {ts : List Ty} {w : Caches} {t t' u u' : Ty} {ps qs : Properties} {r s : RecordType}
  {d : RecordCache}

theorem swap (hw : w.Sound ts) : w.swap.Sound ts :=
  ⟨hw.right, hw.left, fun r hr => (hw.agree r hr).symm⟩

/-- Caches that grow keep agreeing on the declared records. -/
theorem grows (hw : w.Sound ts) {w' : Caches} (hg : w.Grows w') (hl : w'.left.Serves ts)
    (hr : w'.right.Serves ts) : w'.Sound ts where
  left := hl
  right := hr
  agree _ hoccurs := (hw.left.mem_iff hg.left hoccurs).trans
    ((hw.agree _ hoccurs).trans (hw.right.mem_iff hg.right hoccurs).symm)

/-- **Two types are the same just if those that they correspond to are.** -/
theorem beq (hw : w.Sound ts) (ht : t.Corresponds ts w t') (hu : u.Corresponds ts w u') :
    (t == u) = (t' == u') := by
  rw [Bool.eq_iff_iff]
  constructor
  · intro h
    obtain rfl := hw.left.exact ht.known hu.known h
    rw [ht.unique hw.right hu]
    exact u'.beq_refl
  · intro h
    obtain rfl := hw.right.exact ht.known_right hu.known_right h
    rw [ht.swap.unique hw.left hu.swap]
    exact u.beq_refl

/-- A declared record stands for itself only. -/
theorem eq_of_declared (hw : w.Sound ts) (hr : r ∈ w.left.entries) (hs : s ∈ w.right.entries)
    (hp : Properties.Correspond ts w r.properties s.properties) (hd : Ty.Declares ts r.id) :
    r = s := by
  have hoccurs := hw.left.occurs hr hd
  have hgiven : ∀ p ∈ r.properties, p.2.Throughout (Ty.Known ts .empty) :=
    fun p hp => hoccurs.known.ownProperty (t := r.type) hp
  have hr' := (hw.agree r hoccurs).mp hr
  refine hw.right.orderly.eq_of_same hr' hs ?_
  rw [← hp.eq_of_given hgiven]
  exact Properties.same_refl _

/-- Records with corresponding properties correspond. -/
theorem record (hw : w.Sound ts) (hr : r ∈ w.left.entries) (hs : s ∈ w.right.entries)
    (hp : Properties.Correspond ts w r.properties s.properties) :
    r.type.Corresponds ts w s.type := by
  by_cases hd : Ty.Declares ts r.id
  · obtain rfl := hw.eq_of_declared hr hs hp hd
    exact .same (hw.left.occurs hr hd).known
  · by_cases hd' : Ty.Declares ts s.id
    · exact absurd (hw.swap.eq_of_declared hs hr hp.swap hd' ▸ hd') hd
    · exact .record hr hs hd hd' hp.names hp.types

/-- **What is requested of the one cache can be requested of the other one**, and the
two records correspond. -/
theorem request (hw : w.Sound ts) (hp : ps.Correspond ts w qs)
    (h : w.left.request ps = (.ok r, d)) :
    ∃ s d', w.right.request qs = (.ok s, d') ∧ Caches.Sound ts ⟨d, d'⟩ ∧
      w.Grows ⟨d, d'⟩ ∧ r.type.Corresponds ts ⟨d, d'⟩ s.type := by
  obtain ⟨hleft, hr, rfl⟩ := hw.left.requested hp.known h
  have hfault : Properties.fault qs = none :=
    (Properties.faultAfter_of_names [] hp.names).symm.trans
      ((Properties.fault_eq_none_iff _).mpr (hleft.orderly.valid r hr))
  obtain ⟨s, d', h'⟩ : ∃ s d', w.right.request qs = (.ok s, d') := by
    rcases w.right.request_outcomes qs with ⟨s, -, h'⟩ | ⟨cause, -, hc, -⟩ | ⟨-, -, h'⟩
    · exact ⟨s, _, h'⟩
    · rw [hfault] at hc
      cases hc
    · exact ⟨_, _, h'⟩
  obtain ⟨hright, hs, rfl⟩ := hw.right.requested hp.swap.known h'
  have hgrows : w.Grows ⟨d, d'⟩ := by
    have hd := RecordCache.Grows.refl.request (c := w.left) r.properties
    have hd' := RecordCache.Grows.refl.request (c := w.right) s.properties
    rw [h] at hd
    rw [h'] at hd'
    exact ⟨hd, hd'⟩
  have hsound := hw.grows hgrows hleft hright
  exact ⟨s, d', h', hsound, hgrows, hsound.record hr hs (hp.mono hgrows)⟩

end Caches.Sound
end QueryExpr
