/-
# Equality is an equivalence

Where no floating-point number is concerned, equality of values is an equivalence,
records of any nesting included, and goes with the order: values of which neither is
before the other are equal, and of the values that compare each is before those that
are behind it.

Records are equal as far as the values of both go. A record has a value for each
property of its type, and a number belongs to one record type, so that records of one
number have equally many values; without that, equality would not be transitive.

Key definitions: `Value.MadeOf`, `Value.Lawful`.
Key theorems: `Scalar.equals_iff`, `Value.equals_trans`, `Value.lawful`.
-/
import QueryExpr.Proofs.ComparedOperands
import QueryExpr.Proofs.MixedKeys
import QueryExpr.Proofs.SourceMembership

namespace QueryExpr

/-! ### Scalars -/

namespace Scalar

variable {a b c : Scalar}

/-- Scalars that are no floating-point numbers are equal if they are the same, or are of
the same integer. -/
theorem equals_iff (ha : a.isFloating = false) (hb : b.isFloating = false) :
    a.equals b = true ↔ a = b ∨ ∃ i, a.integer? = some i ∧ b.integer? = some i := by
  have numbers {s t : Scalar} {i j : Int} (hs : s.integer? = some i) (ht : t.integer? = some j) :
      s.equals t = true ↔ i = j := by
    have hcompare : (Value.scalar s).compare? (.scalar t) = some (Ord.compare i j) :=
      Value.compare?_of_integer? hs ht
    have hequals : s.equals t = (s.compare? t == some .eq) := (equals_number hs).1
    rw [hequals, show s.compare? t = _ from hcompare, beq_iff_eq, Option.some_inj,
      Int.compare_eq_eq]
  rcases hi : a.integer? with _ | i
  · cases a <;> cases hi <;> cases ha <;> cases b <;> first
      | cases hb; done
      | exact ⟨fun _ => .inl rfl, fun _ => rfl⟩
      | simp [equals, compare?, isFloating, integer?, integral?]
  · rcases hj : b.integer? with _ | j
    · cases a <;> cases hi <;> cases b <;> cases hj <;> cases hb <;>
        simp [equals, compare?, isFloating, integer?, integral?]
    · rw [numbers hi hj]
      refine ⟨fun h => .inr ⟨i, rfl, h ▸ rfl⟩, ?_⟩
      rintro (rfl | ⟨k, hk, hk'⟩)
      · exact Option.some_inj.mp (hi.symm.trans hj)
      · exact (Option.some_inj.mp hk).trans (Option.some_inj.mp hk').symm

/-- What compares as equal is equal. -/
theorem equals_of_compare? (h : a.compare? b = some .eq) : a.equals b = true := by
  cases a <;> cases b
  case string.string s t =>
    rw [compare_string, Option.some_inj] at h
    exact beq_iff_eq.mpr (Std.LawfulEqCmp.eq_of_compare h)
  case boolean.boolean p q => cases p <;> cases q <;> first | rfl | cases h
  case null.null => rfl
  all_goals exact beq_iff_eq.mpr h

theorem equals_trans (ha : a.isFloating = false) (hb : b.isFloating = false)
    (hc : c.isFloating = false) (h : a.equals b = true) (h' : b.equals c = true) :
    a.equals c = true := by
  rw [equals_iff ha hc]
  obtain rfl | ⟨i, hai, hbi⟩ := (equals_iff ha hb).mp h
  · exact (equals_iff ha hc).mp h'
  · obtain rfl | ⟨j, hbj, hcj⟩ := (equals_iff hb hc).mp h'
    · exact .inr ⟨i, hai, hbi⟩
    · exact .inr ⟨i, hai, Option.some_inj.mp (hbi.symm.trans hbj) ▸ hcj⟩

end Scalar

/-! ### Values -/

namespace Value

variable {types : Nat → RecordType} {u v w : Value}

mutual
/-- The records of a value are made from the types, which are known by their numbers, each
with one value for every property. -/
def MadeOf (types : Nat → RecordType) : Value → Prop
  | .record t vs => types t.id = t ∧ vs.length = t.properties.length ∧ AllMadeOf types vs
  | _ => True
termination_by structural v => v

/-- The records of the values are made from the types. -/
def AllMadeOf (types : Nat → RecordType) : List Value → Prop
  | [] => True
  | v :: vs => MadeOf types v ∧ AllMadeOf types vs
termination_by structural vs => vs
end

theorem allMadeOf_iff {vs : List Value} : AllMadeOf types vs ↔ ∀ v ∈ vs, MadeOf types v := by
  induction vs with
  | nil => exact ⟨fun _ => List.forall_mem_nil _, fun _ => trivial⟩
  | cons v vs ih => rw [AllMadeOf, ih, List.forall_mem_cons]

/-- Such are the records that can be made. -/
theorem madeOf_ofRecord {t : RecordType} {vs : List Value} (ht : types t.id = t)
    (hvs : ∀ v ∈ vs, MadeOf types v) (h : ofRecord t vs = .ok v) : MadeOf types v := by
  unfold ofRecord at h
  split at h
  · rename_i hlength
    cases h
    exact ⟨ht, beq_iff_eq.mp hlength, allMadeOf_iff.mpr hvs⟩
  · cases h

mutual
theorem equals_refl : ∀ v : Value, v.isExact = true → v.equals v = true
  | .scalar s, h => by
    have hs : s.isFloating = false := by simpa [isExact] using h
    exact (Scalar.equals_iff hs hs).mpr (.inl rfl)
  | .record t vs, h => by rw [equals, equalsAll_refl vs h, beq_self_eq_true]; rfl
  | .list _ _, _ | .object _ _, _ | .function _, _ => beq_self_eq_true _

theorem equalsAll_refl : ∀ vs : List Value, allExact vs = true → equalsAll vs vs = true
  | [], _ => rfl
  | v :: vs, h => by
    obtain ⟨hv, hvs⟩ := Bool.and_eq_true_iff.mp h
    rw [equalsAll, equals_refl v hv, equalsAll_refl vs hvs]
    rfl
end

mutual
/-- **Equality is transitive**, floating-point numbers apart. -/
theorem equals_trans : ∀ {u v w : Value}, u.isExact = true → v.isExact = true →
    w.isExact = true → MadeOf types u → MadeOf types v → MadeOf types w →
    u.equals v = true → v.equals w = true → u.equals w = true
  | .scalar a, v, w, ha, hv, hw, _, _, _, h, h' => by
    cases v with
    | scalar b =>
      cases w with
      | scalar c =>
        exact Scalar.equals_trans (by simpa [isExact] using ha) (by simpa [isExact] using hv)
          (by simpa [isExact] using hw) h h'
      | _ => cases h'
    | _ => cases h
  | .record t us, v, w, hu, hv, hw, mu, mv, mw, h, h' => by
    cases v with
    | record t' vs =>
      cases w with
      | record t'' ws =>
        rw [equals, Bool.and_eq_true_iff, beq_iff_eq] at h h'
        obtain ⟨hid, hus⟩ := h
        obtain ⟨hid', hvs⟩ := h'
        obtain ⟨ht, hlength, mus⟩ := mu
        obtain ⟨ht', hlength', mvs⟩ := mv
        obtain ⟨ht'', hlength'', mws⟩ := mw
        -- records of one number are of one type
        obtain rfl : t = t' := by rw [← ht, hid, ht']
        obtain rfl : t = t'' := by rw [← ht, hid', ht'']
        rw [equals, Bool.and_eq_true_iff, beq_iff_eq]
        exact ⟨rfl, equalsAll_trans hu hv hw mus mvs mws (hlength.trans hlength'.symm) hus hvs⟩
      | _ => cases h'
    | _ => cases h
  | .list i _, v, w, _, _, _, _, _, _, h, h'
  | .object i _, v, w, _, _, _, _, _, _, h, h'
  | .function i, v, w, _, _, _, _, _, _, h, h' => by
    cases v <;> cases w <;> first
      | cases h
      | cases h'
      | exact beq_iff_eq.mpr ((beq_iff_eq.mp h).trans (beq_iff_eq.mp h'))

theorem equalsAll_trans : ∀ {us vs ws : List Value}, allExact us = true → allExact vs = true →
    allExact ws = true → AllMadeOf types us → AllMadeOf types vs → AllMadeOf types ws →
    us.length = vs.length → equalsAll us vs = true → equalsAll vs ws = true →
    equalsAll us ws = true
  | [], _, _, _, _, _, _, _, _, _, _, _ => rfl
  | u :: us, [], _, _, _, _, _, _, _, hlength, _, _ => by cases hlength
  | _ :: _, _ :: _, [], _, _, _, _, _, _, _, _, _ => rfl
  | u :: us, v :: vs, w :: ws, hu, hv, hw, mu, mv, mw, hlength, h, h' => by
    obtain ⟨hu, hus⟩ := Bool.and_eq_true_iff.mp hu
    obtain ⟨hv, hvs⟩ := Bool.and_eq_true_iff.mp hv
    obtain ⟨hw, hws⟩ := Bool.and_eq_true_iff.mp hw
    obtain ⟨huv, husvs⟩ := Bool.and_eq_true_iff.mp h
    obtain ⟨hvw, hvsws⟩ := Bool.and_eq_true_iff.mp h'
    rw [equalsAll, equals_trans hu hv hw mu.1 mv.1 mw.1 huv hvw,
      equalsAll_trans hus hvs hws mu.2 mv.2 mw.2 (Nat.succ.inj hlength) husvs hvsws]
    rfl
end

theorem isFloating_of_isExact (h : v.isExact = true) : v.isFloating = false := by
  cases v with
  | scalar s => simpa [isExact, isFloating] using h
  | _ => rfl

/-- What is before a value is before all that is behind it. -/
theorem compare?_lt_trans (hu : u.isFloating = false) (hv : v.isFloating = false)
    (hw : w.isFloating = false) (h : u.compare? v = some .lt) (h' : v.compare? w = some .lt) :
    u.compare? w = some .lt := by
  obtain hnone | ⟨hnu, hnv, kind, hku, hkv, huv⟩ := compare?_cases hu hv
  · rw [hnone] at h
    cases h
  obtain hnone | ⟨-, hnw, kind', hkv', hkw, hvw⟩ := compare?_cases hv hw
  · rw [hnone] at h'
    cases h'
  obtain rfl := kind_unique hnv hkv hkv'
  rw [huv, Option.some_inj] at h
  rw [hvw, Option.some_inj] at h'
  rw [compare?_of_kind hnu hnw hku hkw, Std.TransCmp.lt_trans h h']

theorem equals_of_compare? (h : v.compare? w = some .eq) : v.equals w = true := by
  cases v with
  | scalar a =>
    cases w with
    | scalar b => exact Scalar.equals_of_compare? h
    | _ => cases h
  | _ => cases h

/-- The laws of equality and of the order among values without floating-point numbers;
records are made from the types. -/
structure Lawful (types : Nat → RecordType) : Prop where
  refl : ∀ v : Value, v.isExact = true → v.equals v = true
  symm : ∀ v w : Value, v.isExact = true → w.isExact = true → v.equals w = w.equals v
  trans : ∀ u v w : Value, u.isExact = true → v.isExact = true → w.isExact = true →
    MadeOf types u → MadeOf types v → MadeOf types w →
    u.equals v = true → v.equals w = true → u.equals w = true
  swap : ∀ v w : Value, v.isExact = true → w.isExact = true →
    w.compare? v = (v.compare? w).map Ordering.swap
  less : ∀ u v w : Value, u.isExact = true → v.isExact = true → w.isExact = true →
    u.compare? v = some .lt → v.compare? w = some .lt → u.compare? w = some .lt
  equal : ∀ v w : Value, v.compare? w = some .eq → v.equals w = true

/-- **Equality is an equivalence, and the order goes with it.** -/
theorem lawful (types : Nat → RecordType) : Lawful types where
  refl := equals_refl
  symm v w hv hw := equals_comm v w (.inl ⟨hv, hw⟩)
  trans _ _ _ := equals_trans
  swap _ _ hv hw := compare?_swap (isFloating_of_isExact hv) (isFloating_of_isExact hw)
  less _ _ _ hu hv hw := compare?_lt_trans (isFloating_of_isExact hu) (isFloating_of_isExact hv)
    (isFloating_of_isExact hw)
  equal _ _ := equals_of_compare?

end Value
end QueryExpr
