/-
# Chains of conversions

Where one type converts to a second and that to a third, the first converts to
the third, with three exceptions. Two of them are about types whose values are
never null. Null converts to a class, but not to a base of it that has no null. And
elements that are never null are references to what they extend, but not to
`Object`, so that a sequence of them is one of what they extend, and that one of
`Object`, while it is none itself. The third is about classes that extend what is
no class: they convert to it, but not to what it widens to.

A class does not have the elements of its base; what converts to a sequence by
way of the base alone is left out here.

Key definitions: `Ty.OnePerName`, `Ty.LacksElements`, `Ty.LeavesClasses`.
Key theorems: `Ty.convertsByReference_trans`, `Ty.converts_preorder`.
-/
import QueryExpr.Proofs.SafeTypes

namespace QueryExpr

/-- Each integer of a type that widens is one of the type it widens to, and so
on. -/
theorem Prim.widens_trans {p q r : Prim} (h : p.widens q = true) (h' : q.widens r = true) :
    p.widens r = true := by
  by_cases hqr : q = r
  · exact hqr ▸ h
  by_cases hr : r = .object
  · simp [widens, hr]
  by_cases hpq : p = q
  · exact hpq ▸ h'
  cases q <;> cases r <;> simp_all [widens] <;> cases p <;> simp_all <;> omega

theorem Prim.isValueType_of_widens {p q : Prim} (h : p.widens q = true)
    (hq : q.isValueType = true) : p.isValueType = true := by
  revert h hq
  cases p <;> cases q <;> simp [widens, isValueType]

namespace Ty

/-- Each name and each number stands for one type among the given ones. -/
def OnePerName (ts : List Ty) : Prop :=
  ∀ {t u : Ty}, Occurs ts t → Occurs ts u → (t == u) = true → t = u

/-- The second type is a base of the first, and a sequence of the third kind by its
elements, while the first has no such elements and does not extend the third. -/
def LacksElements (a b c : Ty) : Prop :=
  isBaseOf b a = true ∧ isBaseOf c a = false ∧ ∃ e f, b.element? = some e ∧
    c = .sequence f ∧ convertsByReference e f = true ∧
    ∀ e', a.element? = some e' → convertsByReference e' f = false

/-- Whether the type is a class. -/
def isClass : Ty → Bool
  | .cls .. => true
  | _ => false

/-- The second type is a base of the first and no class, while the third is neither
the first nor a base of it, nor `Object`, nor a sequence by the elements of the
first. -/
def LeavesClasses (a b c : Ty) : Prop :=
  isBaseOf b a = true ∧ b.isClass = false ∧ a ≠ c ∧ isBaseOf c a = false ∧ c ≠ object ∧
    ∀ e f, a.element? = some e → c = .sequence f → convertsByReference e f = false

variable {ts : List Ty} {t u v a b c e f g : Ty} {p q : Prim} {n m : Bool}

/-! ### Single steps -/

theorem converts_object (h : t.isVoid = false) : t.converts object = true := by
  cases t with
  | void => cases h
  | _ => exact (Bool.or_eq_true ..).mpr (.inr rfl)

theorem lift_converts (hw : p.widens q = true) (hn : n = true → m = true)
    (hv : m = true → p.isValueType = true) : (lift p n).converts (lift q m) = true := by
  cases m with
  | true => cases n <;> simp [lift, converts, hw, hv rfl]
  | false =>
    have hn : n = false := by simpa using hn
    subst hn
    cases q <;> simp [lift, converts, hw]

theorem converts_sequence (he : t.element? = some e) (hr : convertsByReference e f = true) :
    t.converts (.sequence f) = true := by
  cases t <;> simp only [element?, reduceCtorEq, Option.some.injEq] at he
  all_goals subst he; simp [converts, hr]

theorem converts_array (hn : e.acceptsNull = true) (hr : convertsByReference e f = true) :
    (Ty.array e).converts (.array f) = true := by simp [converts, hn, hr]

theorem converts_base (h : isBaseOf u t = true) (hu : u.isVoid = false) :
    t.converts u = true := by
  cases t with
  | cls k ps ms is e' b' isValue =>
    refine (Bool.or_eq_true ..).mpr (.inr ?_)
    cases u with
    | void => cases hu
    | prim q => cases q <;> first | rfl | exact h
    | sequence f =>
      cases e' with
      | none => exact h
      | some e => exact (Bool.or_eq_true ..).mpr (.inr h)
    | _ => exact h
  | _ => cases h

/-! ### References -/

theorem bases_subset : ∀ {t b : Ty}, b ∈ t.bases → b.bases ⊆ t.bases
  | .cls _ _ _ _ _ (some b') _, b, h => by
    rcases List.mem_cons.mp h with rfl | h
    · exact List.subset_cons_of_subset _ (List.Subset.refl _)
    · exact List.subset_cons_of_subset _ (bases_subset (t := b') h)
  | .cls _ _ _ _ _ none _, b, h => by cases h
  | .prim _, b, h | .nullable _, b, h | .null, b, h | .void, b, h | .sequence _, b, h
  | .array _, b, h | .record _ _, b, h | .delegate _ _ _ _, b, h => by cases h

theorem isBaseOf_of_mem (h : b ∈ t.bases) : isBaseOf b t = true :=
  List.any_eq_true.mpr ⟨b, h, beq_refl b⟩

theorem byReference_of_beq (h : (t == u) = true) : convertsByReference t u = true := by
  simp [convertsByReference, h]

theorem byReference_of_mem (h : u ∈ t.bases) : convertsByReference t u = true := by
  cases t with
  | cls => exact (Bool.or_eq_true ..).mpr (.inr (isBaseOf_of_mem h))
  | _ => cases h

namespace OnePerName

variable (hm : OnePerName ts)
include hm

theorem eq_of_beq (ht : t.Throughout (Occurs ts)) (hu : u.Throughout (Occurs ts))
    (h : (t == u) = true) : t = u := hm ht.here hu.here h

theorem mem_bases (ht : t.Throughout (Occurs ts)) (hu : u.Throughout (Occurs ts))
    (h : isBaseOf u t = true) : u ∈ t.bases := by
  obtain ⟨b, hb, hbu⟩ := List.any_eq_true.mp h
  rwa [hm.eq_of_beq (ht.chain b (List.mem_cons_of_mem _ hb)) hu hbu] at hb

/-- How a reference to one type serves as one to another. -/
theorem byReference_cases (ht : t.Throughout (Occurs ts)) (hu : u.Throughout (Occurs ts))
    (h : convertsByReference t u = true) :
    t = u ∨ (t.acceptsNull = true ∧ u = object) ∨ u ∈ t.bases := by
  unfold convertsByReference at h
  rw [Bool.or_eq_true, Bool.or_eq_true, Bool.and_eq_true] at h
  rcases h with (h | ⟨hn, ho⟩) | h
  · exact .inl (hm.eq_of_beq ht hu h)
  · exact .inr (.inl ⟨hn, beq_prim ho⟩)
  · split at h
    · exact .inr (.inr (hm.mem_bases ht hu h))
    · cases h

/-- **References in a row.** Only to `Object` a reference may lead by way of another
type alone. -/
theorem byReference_trans (he : e.Throughout (Occurs ts)) (hf : f.Throughout (Occurs ts))
    (hg : g.Throughout (Occurs ts)) (h : convertsByReference e f = true)
    (h' : convertsByReference f g = true) (ho : g = object → convertsByReference e object = true) :
    convertsByReference e g = true := by
  by_cases hobject : g = object
  · exact hobject ▸ ho hobject
  rcases hm.byReference_cases hf hg h' with rfl | ⟨-, hobject'⟩ | hgf
  · exact h
  · exact absurd hobject' hobject
  · rcases hm.byReference_cases he hf h with rfl | ⟨-, rfl⟩ | hfe
    · exact h'
    · cases hgf
    · exact byReference_of_mem (bases_subset hfe hgf)

end OnePerName

/-! ### What each form of type converts to -/

theorem void_converts (h : Ty.void.converts u = true) : u = .void := by
  cases u <;> simp [converts, BEq.beq, same] at h ⊢

theorem null_converts_iff : Ty.null.converts u = true ↔ u.acceptsNull = true := by
  refine ⟨fun h => ?_, null_converts⟩
  cases u with
  | prim p => cases p <;> first | rfl | cases h
  | void => cases h
  | cls => simpa [converts, BEq.beq, same] using h
  | _ => rfl

theorem lift_converts_cases (h : (lift p n).converts c = true) :
    c = lift p n ∨ c = object ∨ ∃ q m, c = lift q m ∧ p.widens q = true ∧ (n = true → m = true) ∧
      (m = true → p.isValueType = true) := by
  rcases converts_cases h with hs | ho | ⟨hn, -⟩ | ⟨p', q, n', m, hp, hc, hw, hn, hv⟩ |
    ⟨_, _, he, -, -⟩ | ⟨_, _, ha, -, -⟩ | hb
  · exact .inl (eq_lift_of_beq (beq_symm hs))
  · exact .inr (.inl ho)
  · cases n <;> cases hn
  · obtain rfl : p = p' := by simpa using congrArg primitive? hp
    obtain rfl : n = n' := by simpa using congrArg isNullable hp
    exact .inr (.inr ⟨q, m, hc, hw, hn, hv⟩)
  · cases n <;> cases he
  · cases n <;> cases ha
  · cases n <;> cases hb

theorem sequence_converts_cases (h : (Ty.sequence f).converts c = true) :
    c = object ∨ ∃ g, c = .sequence g ∧ convertsByReference f g = true := by
  cases c with
  | sequence g =>
    refine .inr ⟨g, rfl, ?_⟩
    rcases (Bool.or_eq_true ..).mp h with hs | hr
    · exact byReference_of_beq hs
    · exact hr
  | prim q => cases q <;> first | exact .inl rfl | cases h
  | _ => cases h

theorem array_converts_cases (h : (Ty.array e).converts c = true) :
    c = object ∨ (∃ g, c = .sequence g ∧ convertsByReference e g = true) ∨
      ∃ g, c = .array g ∧
        ((e == g) = true ∨ e.acceptsNull = true ∧ convertsByReference e g = true) := by
  cases c with
  | sequence g => exact .inr (.inl ⟨g, rfl, h⟩)
  | array g =>
    refine .inr (.inr ⟨g, rfl, ?_⟩)
    rcases (Bool.or_eq_true ..).mp h with hs | hr
    · exact .inl hs
    · exact .inr ((Bool.and_eq_true ..).mp hr)
  | prim q => cases q <;> first | exact .inl rfl | cases h
  | _ => cases h

theorem cls_converts_cases {k : String} {ps : List (String × Ty)}
    {ms : List (String × List Ty × Ty)} {is : List (List Ty × Ty)} {e' b' : Option Ty} {iv : Bool}
    (h : (Ty.cls k ps ms is e' b' iv).converts c = true) :
    (Ty.cls k ps ms is e' b' iv == c) = true ∨ c = object ∨
      isBaseOf c (.cls k ps ms is e' b' iv) = true ∨
      ∃ e f, e' = some e ∧ c = .sequence f ∧ convertsByReference e f = true := by
  rcases converts_cases h with hs | ho | ⟨hn, -⟩ | ⟨p', q, n', m, hp, -⟩ |
    ⟨e, f, he, hc, hr⟩ | ⟨_, _, ha, -, -⟩ | hb
  · exact .inl hs
  · exact .inr (.inl ho)
  · cases hn
  · cases n' <;> cases hp
  · exact .inr (.inr (.inr ⟨e, f, he, hc, hr⟩))
  · cases ha
  · exact .inr (.inr (.inl hb))

/-! ### Conversions in a row -/

section Chain

variable (ha : a.Throughout (Occurs ts)) (hb : b.Throughout (Occurs ts))
  (hc : c.Throughout (Occurs ts)) (hm : OnePerName ts)
include ha hb hc hm

/-- Elements that convert by way of others convert themselves, but for `Object`. -/
theorem elements_trans (he : a.element? = some e) (hf : b.element? = some f)
    (hr : convertsByReference e f = true) (hcg : c = .sequence g)
    (hr' : convertsByReference f g = true)
    (ho : c = .sequence object → isBaseOf c a = false →
      ∀ e, a.element? = some e → convertsByReference e object = true) :
    a.converts c = true := by
  subst hcg
  by_cases hbase : isBaseOf (.sequence g) a = true
  · exact converts_base hbase rfl
  refine converts_sequence he (hm.byReference_trans (ha.element he) (hb.element hf)
    (hc.element rfl) hr hr' ?_)
  rintro rfl
  exact ho rfl (by simpa using hbase) e he

/-- What converts to a base converts to what the base converts to, but to a
sequence of the elements of the base and to what a base that is no class leads to. -/
theorem converts_of_isBaseOf (hv : a.isVoid = false) (hab : isBaseOf b a = true)
    (hb' : b.isVoid = false) (hbc : b.converts c = true) (hl : ¬ LacksElements a b c)
    (hk : ¬ LeavesClasses a b c) : a.converts c = true := by
  have hmem := hm.mem_bases ha hb hab
  have hvoid : c.isVoid = false := by
    by_contra hcv
    cases c with
    | void => cases (converts_void _ hbc).symm.trans hb'
    | _ => exact hcv rfl
  have hcv {u : Ty} (hu : u ∈ a.bases) (hvu : u.isVoid = false) : a.converts u = true :=
    converts_base (isBaseOf_of_mem hu) hvu
  cases b with
  | cls k ps ms is e' b' iv =>
    rcases cls_converts_cases hbc with hs | rfl | hcb | ⟨e, f, rfl, rfl, hr⟩
    · exact hm.eq_of_beq hb hc hs ▸ hcv hmem rfl
    · exact converts_object hv
    · exact hcv (bases_subset hmem (hm.mem_bases hb hc hcb)) hvoid
    · by_contra hac
      refine hl ⟨hab, ?_, e, f, rfl, rfl, hr, fun e' he' => ?_⟩
      · by_contra hca
        exact hac (converts_base (by simpa using hca) rfl)
      · by_contra hr'
        exact hac (converts_sequence he' (by simpa using hr'))
  | _ =>
    by_contra hac
    refine hk ⟨hab, rfl, ?_, ?_, ?_, fun e f he hcf => ?_⟩
    · rintro rfl
      exact hac (converts_refl _)
    · by_contra hca
      exact hac (converts_base (by simpa using hca) hvoid)
    · rintro rfl
      exact hac (converts_object hv)
    · by_contra hr
      exact hac (hcf ▸ converts_sequence he (by simpa using hr))

/-- Conversions in a row are one, where null goes to a type that has null, to a
sequence of objects goes a type whose elements are objects, if it has any, and a
class goes by way of classes. -/
theorem converts_trans (hab : a.converts b = true) (hbc : b.converts c = true)
    (hl : ¬ LacksElements a b c) (hk : ¬ LeavesClasses a b c)
    (hn : a = .null → c.acceptsNull = true)
    (ho : c = .sequence object → isBaseOf c a = false →
      ∀ e, a.element? = some e → convertsByReference e object = true) :
    a.converts c = true := by
  by_cases hv : a.isVoid = true
  · cases a with
    | void => rwa [void_converts hab] at hbc
    | _ => cases hv
  simp only [Bool.not_eq_true] at hv
  have hvoid : b.isVoid = false := by
    by_contra hbv
    cases b with
    | void => cases (converts_void _ hab).symm.trans hv
    | _ => exact hbv rfl
  rcases converts_cases hab with hs | rfl | ⟨rfl, -⟩ | ⟨p, q, n, m, rfl, rfl, hw, hnm, hp⟩ |
    ⟨e, f, he, rfl, hr⟩ | ⟨e, f, rfl, rfl, hr⟩ | hbase
  · rwa [hm.eq_of_beq ha hb hs]
  · rcases lift_converts_cases (n := false) hbc with rfl | rfl | ⟨q, m, rfl, hw, -, hp⟩
    · exact converts_object hv
    · exact converts_object hv
    · cases m with
      | true => exact absurd (hp rfl) Bool.false_ne_true
      | false => cases q <;> first | exact converts_object hv | cases hw
  · exact null_converts (hn rfl)
  · rcases lift_converts_cases hbc with rfl | rfl | ⟨r, l, rfl, hw', hml, hq⟩
    · exact hab
    · exact converts_object hv
    · exact lift_converts (Prim.widens_trans hw hw') (fun h => hml (hnm h))
        fun hl => Prim.isValueType_of_widens hw (hq hl)
  · rcases sequence_converts_cases hbc with rfl | ⟨g, hcg, hr'⟩
    · exact converts_object hv
    · exact elements_trans ha hb hc hm he rfl hr hcg hr' ho
  · rcases array_converts_cases hbc with rfl | ⟨g, hcg, hr'⟩ | ⟨g, rfl, hg⟩
    · exact converts_object hv
    · exact elements_trans ha hb hc hm rfl rfl hr hcg hr' ho
    · rcases hg with hs | ⟨hfn, hr'⟩
      · rwa [← hm.eq_of_beq (hb.element rfl) (hc.element rfl) hs]
      · rcases array_converts_cases hab with hcontra | ⟨_, hcontra, -⟩ | ⟨_, hf, hef⟩
        · cases hcontra
        · cases hcontra
        · cases hf
          rcases hef with hs | ⟨hen, -⟩
          · rwa [hm.eq_of_beq (ha.element rfl) (hb.element rfl) hs]
          · refine converts_array hen (hm.byReference_trans (ha.element rfl) (hb.element rfl)
              (hc.element rfl) hr hr' fun _ => ?_)
            simp [convertsByReference, hen]
  · exact converts_of_isBaseOf ha hb hc hm hv hbase hvoid hbc hl hk

end Chain

/-- What is within types that have their parts among them is one of them. -/
theorem mem_of_occurs (hts : ∀ t ∈ ts, ∀ u ∈ t.parts, u ∈ ts) (h : Occurs ts u) : u ∈ ts := by
  obtain ⟨t, ht, hu⟩ := h
  induction hu with
  | refl => exact ht
  | part hv _ ih => exact ih (hts _ ht _ hv)

/-- A class has no conversion of its own to what it leaves classes for. -/
theorem not_converts_of_leavesClasses (ha : a.Throughout (Occurs ts))
    (hc : c.Throughout (Occurs ts)) (hm : OnePerName ts) (h : LeavesClasses a b c) :
    a.converts c = false := by
  obtain ⟨hab, -, hne, hca, hobject, helements⟩ := h
  by_contra hac
  simp only [Bool.not_eq_false] at hac
  cases a with
  | cls k ps ms is e' b' iv =>
    rcases cls_converts_cases hac with hs | ho | hca' | ⟨e, f, rfl, hcf, hr⟩
    · exact hne (hm.eq_of_beq ha hc hs)
    · exact hobject ho
    · cases hca.symm.trans hca'
    · cases (helements e f rfl hcf).symm.trans hr
  | _ => cases hab

/-- A type whose elements are no objects is no sequence of objects, if it does not
extend one. -/
theorem not_converts_sequence_object (ha : a.Throughout (Occurs ts))
    (hc : (Ty.sequence object).Throughout (Occurs ts)) (hm : OnePerName ts)
    (he : a.element? = some e) (hr : convertsByReference e object = false)
    (hbase : isBaseOf (.sequence object) a = false) :
    a.converts (.sequence object) = false := by
  by_contra hac
  simp only [Bool.not_eq_false] at hac
  have hrefl : convertsByReference object object = true := rfl
  rcases converts_cases hac with hs | ho | ⟨rfl, -⟩ | ⟨p, q, n, m, -, hq, -⟩ |
    ⟨e', f, he', hf, hr'⟩ | ⟨e', f, -, hf, -⟩ | hb
  · obtain rfl := hm.eq_of_beq ha hc hs
    cases he
    cases hrefl.symm.trans hr
  · cases ho
  · cases he
  · cases m <;> cases hq
  · cases hf
    cases he.symm.trans he'
    cases hr.symm.trans hr'
  · cases hf
  · cases hb.symm.trans hbase

/-- **Conversion is a preorder, but for what has no null.** Every type converts to
itself. Where one type converts to a second and that to a third, the first converts
to the third, unless it is null and the third has no null, or the third is a
sequence of objects, which the first does not extend, and the elements of the first
are none, or the first is a class that goes by way of a base that is no class; then
it does not. -/
theorem converts_preorder (hm : OnePerName [a, b, c]) :
    a.converts a = true ∧
    (a.converts b = true → b.converts c = true → ¬ LacksElements a b c →
      (a.converts c = true ↔
        ¬ (a = .null ∧ c.acceptsNull = false) ∧
        ¬ (c = .sequence object ∧ isBaseOf c a = false ∧
          ∃ e, a.element? = some e ∧ convertsByReference e object = false) ∧
        ¬ LeavesClasses a b c)) := by
  have hwithin {t : Ty} (ht : t ∈ [a, b, c]) : t.Throughout (Occurs [a, b, c]) :=
    fun u hu => ⟨t, ht, hu⟩
  have ha := hwithin (List.mem_cons_self)
  have hc := hwithin (List.mem_cons_of_mem _ (List.mem_cons_of_mem _ List.mem_cons_self))
  refine ⟨converts_refl a, fun hab hbc hl => ⟨fun hac => ⟨?_, ?_, ?_⟩, fun ⟨hn, ho, hk⟩ => ?_⟩⟩
  · rintro ⟨rfl, hn⟩
    cases hn.symm.trans (null_converts_iff.mp hac)
  · rintro ⟨rfl, hbase, e, he, hr⟩
    cases (not_converts_sequence_object ha hc hm he hr hbase).symm.trans hac
  · intro hk
    cases (not_converts_of_leavesClasses ha hc hm hk).symm.trans hac
  · refine converts_trans ha (hwithin (List.mem_cons_of_mem _ List.mem_cons_self)) hc hm hab hbc hl
      hk (fun h => ?_) fun h hbase e he => ?_
    · by_contra hcn
      exact hn ⟨h, by simpa using hcn⟩
    · by_contra hr
      exact ho ⟨h, hbase, e, he, by simpa using hr⟩

/-- A class two steps down a chain converts to the class at the top. -/
theorem converts_preorder_chain :
    let shape : Ty := .cls "Shape" [] [] [] none none false
    let square : Ty := .cls "Square" [] [] [] none (some shape) false
    let tile : Ty := .cls "Tile" [] [] [] none (some square) false
    OnePerName [tile, square, shape] ∧ tile.converts square = true ∧
      square.converts shape = true ∧ ¬ LacksElements tile square shape ∧
      tile.converts shape = true := by
  intro shape square tile
  have hmem {u : Ty} (h : Occurs [tile, square, shape] u) : u = tile ∨ u = square ∨ u = shape := by
    simpa using mem_of_occurs (by simp [tile, square, shape, parts]) h
  have hm : OnePerName [tile, square, shape] := fun ht hu h => by
    rcases hmem ht with rfl | rfl | rfl <;> rcases hmem hu with rfl | rfl | rfl <;>
      first | rfl | exact absurd h (by decide)
  have hl : ¬ LacksElements tile square shape := by
    rintro ⟨-, -, e, f, he, -⟩
    cases he
  refine ⟨hm, by decide, by decide, hl, ?_⟩
  exact ((converts_preorder hm).2 (by decide) (by decide) hl).mpr
    ⟨fun h => absurd h.1 (by simp [tile]), fun h => absurd h.1 (by simp [shape]),
      fun h => absurd h.2.1 (by decide)⟩

/-- Null converts to a class that has null, and the class to a base that has none;
but null does not convert to the base. -/
theorem not_converts_trans_null :
    let price : Ty := .cls "Price" [] [] [] none none true
    let offer : Ty := .cls "Offer" [] [] [] none (some price) false
    OnePerName [.null, offer, price] ∧ ¬ LacksElements .null offer price ∧
      Ty.null.converts offer = true ∧ offer.converts price = true ∧
      Ty.null.converts price = false := by
  intro price offer
  have hmem {u : Ty} (h : Occurs [.null, offer, price] u) : u = .null ∨ u = offer ∨ u = price := by
    simpa using mem_of_occurs (by simp [price, offer, parts]) h
  refine ⟨fun ht hu h => ?_, ?_, rfl, rfl, rfl⟩
  · rcases hmem ht with rfl | rfl | rfl <;> rcases hmem hu with rfl | rfl | rfl <;>
      first | rfl | exact absurd h (by decide)
  · rintro ⟨h, -⟩
    cases h

end Ty
end QueryExpr
