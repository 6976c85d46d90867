/-
# Keys of different kinds

Texts compare with texts, truth values with truth values, integers and
characters with one another; null is before everything else. Keys that do not
compare count as equal, and that is where the order of keys is no preorder: a
key of another kind is equal to two keys of which the one is greater than the
other. It is the only way for three keys to be out of order.

Key definitions: `Value.isFloating`.
Key theorems: `Value.compare?_cases`, `Value.compareKeys_swap`,
`Value.compareKeys_trans`, `Value.compareKeys_order`.
-/
import QueryExpr.Proofs.KeyOrder

namespace QueryExpr

namespace Value

variable {a b c : Value} {kind kind' : Ordering.KeyKind}

/-- Whether the value is a floating-point number. -/
def isFloating : Value → Bool
  | .scalar s => s.isFloating
  | _ => false

/-! ### The kind of a key -/

/-- A key is of one kind alone, unless it is null. -/
theorem kind_unique (ha : a.isNull = false) (h : kind.Holds a) (h' : kind'.Holds a) :
    kind = kind' := by
  cases h with
  | null => cases ha
  | text s =>
    cases h' with
    | text => rfl
    | number hn => cases hn
  | truth p =>
    cases h' with
    | truth => rfl
    | number hn => cases hn
  | number hn =>
    cases h' with
    | number => rfl
    | _ => cases hn

/-- Keys that are not null compare in the order of what they stand for, if they
are of one kind. -/
theorem compare?_of_kind (ha : a.isNull = false) (hb : b.isNull = false) (h : kind.Holds a)
    (h' : kind.Holds b) : a.compare? b = some (kind.compare a b) := by
  cases h with
  | null => cases ha
  | text s =>
    cases h' with
    | null => cases hb
    | text t => exact Scalar.compare_string s t
  | truth p =>
    cases h' with
    | null => cases hb
    | truth q => cases p <;> cases q <;> rfl
  | number hm =>
    cases h' with
    | null => cases hb
    | number hn => rw [compare?_of_integer? hm hn, Ordering.KeyKind.compare, hm, hn]; rfl

/-- What compares, floating-point numbers apart, is not null and of one kind. -/
theorem kind_of_compare? (ha : a.isFloating = false) (hb : b.isFloating = false)
    (h : (a.compare? b).isSome = true) :
    a.isNull = false ∧ b.isNull = false ∧
      ∃ kind : Ordering.KeyKind, kind.Holds a ∧ kind.Holds b := by
  rcases a with s | _ | _ | _ | _
  case scalar =>
    rcases b with t | _ | _ | _ | _
    case scalar =>
      cases s <;> cases t <;> first
        | exact ⟨rfl, rfl, .text, .text _, .text _⟩
        | exact ⟨rfl, rfl, .truth, .truth _, .truth _⟩
        | exact ⟨rfl, rfl, .number, .number rfl, .number rfl⟩
        | (cases ha; done)
        | (cases hb; done)
        | cases h
    all_goals cases h
  all_goals cases h

/-- **How two keys compare.** -/
theorem compare?_cases (ha : a.isFloating = false) (hb : b.isFloating = false) :
    a.compare? b = none ∨
      a.isNull = false ∧ b.isNull = false ∧
        ∃ kind : Ordering.KeyKind, kind.Holds a ∧ kind.Holds b ∧
          a.compare? b = some (kind.compare a b) := by
  by_cases h : (a.compare? b).isSome = true
  · obtain ⟨hna, hnb, kind, hka, hkb⟩ := kind_of_compare? ha hb h
    exact .inr ⟨hna, hnb, kind, hka, hkb, compare?_of_kind hna hnb hka hkb⟩
  · exact .inl (by simpa using h)

theorem compare?_swap (ha : a.isFloating = false) (hb : b.isFloating = false) :
    b.compare? a = (a.compare? b).map Ordering.swap := by
  rcases compare?_cases ha hb with h | ⟨hna, hnb, kind, hka, hkb, h⟩
  · rcases compare?_cases hb ha with h' | ⟨hnb, hna, kind, hkb, hka, -⟩
    · rw [h, h']
      rfl
    · simp [compare?_of_kind hna hnb hka hkb] at h
  · rw [h, compare?_of_kind hnb hna hkb hka, Option.map_some,
      @Std.OrientedCmp.eq_swap _ kind.compare]

/-! ### The order of keys -/

/-- Two keys the other way round are in the reverse order. -/
theorem compareKeys_swap (ha : a.isFloating = false) (hb : b.isFloating = false) :
    b.compareKeys a = (a.compareKeys b).swap := by
  unfold compareKeys
  cases a.isNull <;> cases b.isNull
  case false.false =>
    simp only [compare?_swap ha hb]
    cases a.compare? b <;> rfl
  all_goals rfl

theorem compareKeys_of_not_null (ha : a.isNull = false) (hb : b.isNull = false) :
    a.compareKeys b = (a.compare? b).getD .eq := by
  simp [compareKeys, ha, hb]

/-- What is not after null is null. -/
theorem isNull_of_compareKeys_ne_gt (h : a.compareKeys b ≠ .gt) (hb : b.isNull = true) :
    a.isNull = true := by
  by_cases ha : a.isNull = true
  · exact ha
  · simp [compareKeys, ha, hb] at h

/-- Three keys are in order, unless the one in the middle is not null and does not
compare with the first. -/
theorem compareKeys_trans (ha : a.isFloating = false) (hb : b.isFloating = false)
    (hc : c.isFloating = false) (hab : a.compareKeys b ≠ .gt) (hbc : b.compareKeys c ≠ .gt)
    (h : b.isNull = true ∨ (a.compare? b).isSome = true) : a.compareKeys c ≠ .gt := by
  by_cases hna : a.isNull = true
  · rw [compareKeys, hna]
    cases c.isNull <;> simp
  have hnb : b.isNull ≠ true := fun hnb => hna (isNull_of_compareKeys_ne_gt hab hnb)
  have hnc : c.isNull ≠ true := fun hnc => hnb (isNull_of_compareKeys_ne_gt hbc hnc)
  obtain ⟨-, -, kind, hka, hkb⟩ := kind_of_compare? ha hb (h.resolve_left hnb)
  simp only [Bool.not_eq_true] at hna hnb hnc
  rcases compare?_cases ha hc with hac | ⟨-, -, kind', hka', hkc, hac⟩
  · rw [compareKeys_of_not_null hna hnc, hac]
    simp
  · -- all three are of one kind
    obtain rfl := kind_unique hna hka hka'
    rw [hka.compareKeys_eq hkb] at hab
    rw [hkb.compareKeys_eq hkc] at hbc
    rw [hka.compareKeys_eq hkc]
    have hle : (kind.compare a c).isLE := Std.TransCmp.isLE_trans
      (Ordering.isLE_iff_ne_gt.mpr hab) (Ordering.isLE_iff_ne_gt.mpr hbc)
    exact Ordering.isLE_iff_ne_gt.mp hle

/-- What does not compare with one of two keys that compare does not compare with
the other. -/
theorem compare?_eq_none_right (ha : a.isFloating = false) (hb : b.isFloating = false)
    (hc : c.isFloating = false) (hac : (a.compare? c).isSome = true) (hab : a.compare? b = none) :
    b.compare? c = none := by
  obtain ⟨hna, hnc, kind, hka, hkc⟩ := kind_of_compare? ha hc hac
  rcases compare?_cases hb hc with hbc | ⟨hnb, -, kind', hkb, hkc', -⟩
  · exact hbc
  · obtain rfl := kind_unique hnc hkc hkc'
    simp [compare?_of_kind hna hnb hka hkb] at hab

/-- **The order of keys.** Two keys the other way round are in the reverse order,
and three keys are in order but for one case: the first is greater than the third,
and the second, which is not null, compares with neither and counts as equal to
both. -/
theorem compareKeys_order (ha : a.isFloating = false) (hb : b.isFloating = false)
    (hc : c.isFloating = false) :
    b.compareKeys a = (a.compareKeys b).swap ∧
    ((a.compareKeys b ≠ .gt ∧ b.compareKeys c ≠ .gt ∧ a.compareKeys c = .gt) ↔
      (a.compare? c = some .gt ∧ b.isNull = false ∧
        a.compare? b = none ∧ b.compare? c = none)) := by
  refine ⟨compareKeys_swap ha hb, ?_, ?_⟩
  · rintro ⟨hab, hbc, hac⟩
    have hmiddle : ¬ (b.isNull = true ∨ (a.compare? b).isSome = true) := fun h =>
      compareKeys_trans ha hb hc hab hbc h hac
    simp only [not_or, Bool.not_eq_true, Option.isSome_eq_false_iff, Option.isNone_iff_eq_none]
      at hmiddle
    have hna : a.isNull = false := by
      by_cases h : a.isNull = true
      · cases hn : c.isNull <;> simp [compareKeys, h, hn] at hac
      · simpa using h
    have hnc : c.isNull = false := by
      by_cases h : c.isNull = true
      · simp [isNull_of_compareKeys_ne_gt hbc h] at hmiddle
      · simpa using h
    have hgt : a.compare? c = some .gt := by
      rw [compareKeys_of_not_null hna hnc] at hac
      cases h : a.compare? c <;> simp_all
    exact ⟨hgt, hmiddle.1, hmiddle.2,
      compare?_eq_none_right ha hb hc (by rw [hgt]; rfl) hmiddle.2⟩
  · rintro ⟨hac, hnb, hab, hbc⟩
    obtain ⟨hna, hnc, -⟩ := kind_of_compare? ha hc (by rw [hac]; rfl)
    rw [compareKeys_of_not_null hna hnb, compareKeys_of_not_null hnb hnc,
      compareKeys_of_not_null hna hnc, hab, hbc, hac]
    simp

theorem compareKeys_order_truth_between :
    (int32 2).isFloating = false ∧ (boolean true).isFloating = false ∧
    (int32 1).isFloating = false ∧
    (boolean true).compareKeys (int32 2) = ((int32 2).compareKeys (boolean true)).swap ∧
    ((int32 2).compareKeys (boolean true) ≠ .gt ∧ (boolean true).compareKeys (int32 1) ≠ .gt ∧
      (int32 2).compareKeys (int32 1) = .gt) :=
  have h := compareKeys_order (a := int32 2) (b := boolean true) (c := int32 1) rfl rfl rfl
  ⟨rfl, rfl, rfl, h.1, h.2.mpr ⟨rfl, rfl, rfl, rfl⟩⟩

/-- The order of keys is not transitive: a truth value counts as equal to two
numbers of which the one is greater than the other. -/
theorem not_compareKeys_trans :
    ¬ ∀ a b c : Value, a.isFloating = false → b.isFloating = false → c.isFloating = false →
      a.compareKeys b ≠ .gt → b.compareKeys c ≠ .gt → a.compareKeys c ≠ .gt := by
  intro h
  exact h (int32 2) (boolean true) (int32 1) rfl rfl rfl (by decide) (by decide) (by decide)

end Value
end QueryExpr
