/-
# Converted values keep to their types

Where one type converts to another, a value of the first converts to a value
of the second. Between numbers the value changes its kind; everywhere else it
stays what it is, and null is a value of the other type as well unless the
conversion was asked for.

Key definitions: `Ty.isNumberLike`.
Key theorems: `Prim.Holds.cast`, `Conforms.base`, `Conforms.convert`,
`Conforms.cast`.
-/
import QueryExpr.Eval.Arithmetic
import QueryExpr.Proofs.Conformance

namespace QueryExpr

open Eval (Fine)

/-! ### Numbers -/

/-- An integer is a value of each type of numbers. -/
theorem Scalar.ofInteger?_holds {p : Prim} (hp : p.isNumberLike = true) (n : Int) :
    ∃ s, ofInteger? p n = some s ∧ p.Holds (.scalar s) := by
  cases p with
  | int t => exact ⟨_, rfl, _, rfl, rfl⟩
  | char | single | double | decimal => exact ⟨_, rfl, _, rfl⟩
  | boolean | string | object => cases hp

theorem Scalar.ofDouble?_holds {p : Prim} (hp : p.isNumberLike = true) (x : Float) :
    ∃ s, ofDouble? p x = some s ∧ p.Holds (.scalar s) := by
  cases p with
  | int t => exact ⟨_, rfl, _, rfl, rfl⟩
  | char | single | double | decimal => exact ⟨_, rfl, _, rfl⟩
  | boolean | string | object => cases hp

/-- A number is an integer or has a double. -/
theorem Prim.Holds.number {p : Prim} {v : Value} (hp : p.isNumberLike = true) (h : p.Holds v) :
    ∃ s, v = .scalar s ∧ s.isNull = false ∧
      ((∃ n, s.integer? = some n) ∨ s.integer? = none ∧ ∃ x, s.double? = some x) := by
  cases p with
  | int t =>
    obtain ⟨n, rfl, -⟩ := h
    exact ⟨_, rfl, rfl, .inl ⟨_, rfl⟩⟩
  | char =>
    obtain ⟨c, rfl⟩ := h
    exact ⟨_, rfl, rfl, .inl ⟨_, rfl⟩⟩
  | single | double | decimal =>
    obtain ⟨x, rfl⟩ := h
    exact ⟨_, rfl, rfl, .inr ⟨rfl, _, rfl⟩⟩
  | boolean | string | object => cases hp

/-- **A number becomes a number of any other type.** -/
theorem Prim.Holds.cast {p q : Prim} {v : Value} (hp : p.isNumberLike = true)
    (hq : q.isNumberLike = true) (h : p.Holds v) : ∃ w, v.cast q = .ok w ∧ q.Holds w := by
  obtain ⟨s, rfl, -, ⟨n, hn⟩ | ⟨hn, x, hx⟩⟩ := h.number hp
  · obtain ⟨t, ht, hw⟩ := Scalar.ofInteger?_holds hq n
    refine ⟨.scalar t, ?_, hw⟩
    simp [Value.cast, Scalar.cast?, hn, ht]
  · obtain ⟨t, ht, hw⟩ := Scalar.ofDouble?_holds hq x
    refine ⟨.scalar t, ?_, hw⟩
    simp [Value.cast, Scalar.cast?, hn, hx, ht]

theorem Value.eq_null_of_isNull {v : Value} (h : v.isNull = true) : v = .null := by
  cases v with
  | scalar s => cases s <;> first | rfl | cases h
  | _ => cases h

variable {host : Host} {v : Value} {t u : Ty}

/-- The values of a primitive type or its nullable form. -/
theorem conforms_lift {p : Prim} {n : Bool} :
    Conforms host (.lift p n) v ↔ n = true ∧ v = .null ∨ p.Holds v := by
  cases n <;> simp [Ty.lift, Conforms]

/-- Whether the type is one of numbers or characters, or the nullable form of
one. -/
def Ty.isNumberLike (t : Ty) : Bool := t.primitive?.any Prim.isNumberLike

@[simp] theorem Ty.isNumberLike_lift (p : Prim) (n : Bool) :
    (Ty.lift p n).isNumberLike = p.isNumberLike := by cases n <;> rfl

theorem Ty.not_isNumberLike_of_isBase (h : t.isBase = true) : t.isNumberLike = false := by
  unfold Ty.isBase at h
  split at h <;> first | rfl | cases h

theorem Prim.widens_cases {p q : Prim} (h : p.widens q = true) :
    p = q ∨ q = .object ∨ p.isNumberLike = true ∧ q.isNumberLike = true := by
  cases p <;> cases q <;> simp_all [Prim.widens, Prim.isNumberLike, Prim.isNumeric]

/-- A value stays what it is where no number is wanted. -/
theorem Value.convert_of_not (h : t.isNumberLike = false) : v.convert t = .ok v := by
  unfold Ty.isNumberLike at h
  unfold Value.convert
  cases hp : t.primitive? with
  | none => rfl
  | some p =>
    rw [hp] at h
    have h : p.isNumberLike = false := h
    simp only [h, Bool.not_false, if_true]
    split
    · rename_i hn
      rw [Bool.and_eq_true] at hn
      rw [Value.eq_null_of_isNull hn.1]
    · rfl

theorem Value.convert_null_of_acceptsNull (h : t.acceptsNull = true) :
    Value.convert t .null = .ok .null := by
  cases t with
  | prim p => cases p <;> first | rfl | cases h
  | void => cases h
  | _ => rfl

/-- Null stays null, or may not be converted. -/
theorem Value.convert_null_fine (t : Ty) : Fine (fun w => w = .null) (Value.convert t .null) := by
  unfold Value.convert
  split
  · exact rfl
  · split
    · exact rfl
    · split
      · exact rfl
      · exact rfl

theorem Prim.Holds.not_null {p : Prim} (hp : p.isNumberLike = true) (h : p.Holds v) :
    v.isNull = false := by
  obtain ⟨s, rfl, hs, -⟩ := h.number hp
  exact hs

/-- A number is brought to a type of numbers. -/
theorem Prim.Holds.convert {p q : Prim} {m : Bool} (hp : p.isNumberLike = true)
    (hq : q.isNumberLike = true) (h : p.Holds v) : Fine q.Holds (v.convert (.lift q m)) := by
  obtain ⟨w, hw, hqw⟩ := h.cast hp hq
  unfold Value.convert
  rw [Ty.primitive?_lift]
  simp only [hq, h.not_null hp, hw, Bool.not_true, Bool.false_and, Bool.false_eq_true, if_false]
  exact hqw

/-- A number, or null, is brought to a type of numbers, if it is not null where
null is none of them. -/
theorem Conforms.convert_number {p q : Prim} {n m : Bool} (hp : p.isNumberLike = true)
    (hq : q.isNumberLike = true) (h : Conforms host (.lift p n) v) :
    Fine (Conforms host (.lift q m)) (v.convert (.lift q m)) := by
  rcases conforms_lift.mp h with ⟨-, rfl⟩ | h
  · unfold Value.convert
    rw [Ty.primitive?_lift, Ty.isNullable_lift]
    simp only [hq, Bool.not_true, Bool.false_eq_true, if_false]
    cases m with
    | true => exact conforms_lift.mpr (.inl ⟨rfl, rfl⟩)
    | false => rfl
  · exact (h.convert hp hq).mono fun w hw => conforms_lift.mpr (.inr hw)

/-- A value of a primitive type is brought to the type with or without its
nullability; null is then a value of the type, or the type is one of numbers. -/
theorem Conforms.convert_lift {p : Prim} {n m : Bool} (h : Conforms host (.lift p n) v)
    (hn : n = true → m = true ∨ p ≠ .boolean) :
    Fine (Conforms host (.lift p m)) (v.convert (.lift p m)) := by
  cases hp : p.isNumberLike with
  | true => exact h.convert_number hp hp
  | false =>
    rw [Value.convert_of_not ((Ty.isNumberLike_lift p m).trans hp)]
    refine conforms_lift.mpr ?_
    rcases conforms_lift.mp h with ⟨hnt, rfl⟩ | h
    · rcases hn hnt with hm | hb
      · exact .inl ⟨hm, rfl⟩
      · refine .inr ?_
        cases p with
        | string => exact .inl rfl
        | object => trivial
        | boolean => exact absurd rfl hb
        | _ => cases hp
    · exact .inr h

/-- A value of a type with elements is a sequence of them. -/
theorem Conforms.sequence {e f : Ty} (h : Conforms host t v) (he : t.element? = some e)
    (hef : ∀ w, Conforms host e w → Conforms host f w) : Conforms host (.sequence f) v := by
  cases t with
  | sequence e =>
    cases he
    rcases h with h | ⟨id, items, rfl, hi⟩ | ⟨id, name, items, rfl, hs, hi⟩
    · exact .inl h
    · exact .inr (.inl ⟨id, items, rfl, fun w hw => hef w (hi w hw)⟩)
    · exact .inr (.inr ⟨id, name, items, rfl, hs, fun w hw => hef w (hi w hw)⟩)
  | array e =>
    cases he
    rcases h with h | ⟨id, items, rfl, hi⟩
    · exact .inl h
    · exact .inr (.inl ⟨id, items, rfl, fun w hw => hef w (hi w hw)⟩)
  | cls n ps ms is e' b isValue =>
    cases he
    rcases h with ⟨h, -⟩ | ⟨id, name, rfl, -, -, -, ⟨items, hs, hi⟩, -⟩
    · exact .inl h
    · exact .inr (.inr ⟨id, name, items, rfl, hs, fun w hw => hef w (hi w hw)⟩)
  | _ => cases he

/-- A value is brought to its own type. -/
theorem Conforms.convert_self (h : Conforms host t v) :
    Fine (Conforms host t) (v.convert t) := by
  cases hn : t.isNumberLike with
  | false =>
    rw [Value.convert_of_not hn]
    exact h
  | true =>
    unfold Ty.isNumberLike at hn
    cases hp : t.primitive? with
    | none => rw [hp] at hn; cases hn
    | some p =>
      rw [hp] at hn
      rw [Ty.eq_lift_of_primitive? hp] at h ⊢
      exact h.convert_number hn hn

/-! ### References -/

variable {D : Discipline} (hD : D.Safe)
include hD

/-- A value of a class is a value of its bases. -/
theorem Conforms.base (ht : D.Admits t) (hu : D.Admits u) (h : Conforms host t v)
    (hb : Ty.isBaseOf u t = true) : Conforms host u v := by
  obtain ⟨b, hm, hbu⟩ := List.any_eq_true.mp hb
  obtain rfl : b = u := hD.exact (ht.chain b (List.mem_cons_of_mem _ hm)) hu hbu
  have hbase := Ty.isBase_of_mem_bases (hD.throughout ht) hm
  cases t with
  | cls n ps ms is e c isValue =>
    rcases conforms_cls.mp h with ⟨rfl, -⟩ | ⟨id, name, rfl, ha⟩
    · by_cases hv : b = .void
      · subst hv
        trivial
      · exact conforms_null (Ty.acceptsNull_of_isBase (hD.sound hu.here) hbase hv)
    · have hab := ha.chain b (List.mem_cons_of_mem _ hm)
      unfold Ty.isBase at hbase
      split at hbase
      · exact conforms_cls.mpr (.inr ⟨id, name, rfl, hab⟩)
      · trivial
      · exact .inr trivial
      · trivial
      · cases hbase
  | _ => cases hm

/-- A value of a type that converts by reference is a value of the other. -/
theorem Conforms.byReference (ht : D.Admits t) (hu : D.Admits u) (h : Conforms host t v)
    (hc : Ty.convertsByReference t u = true) : Conforms host u v := by
  unfold Ty.convertsByReference at hc
  rw [Bool.or_eq_true, Bool.or_eq_true] at hc
  rcases hc with (hc | hc) | hc
  · exact hD.exact ht hu hc ▸ h
  · rw [Bool.and_eq_true] at hc
    rw [Ty.beq_prim hc.2]
    trivial
  · split at hc
    · exact h.base hD ht hu hc
    · cases hc

/-! ### Conversions -/

/-- **A value of a type that converts to another converts to a value of the
other.** -/
theorem Conforms.convert (ht : D.Admits t) (hu : D.Admits u) (h : Conforms host t v)
    (hc : t.converts u = true) : Fine (Conforms host u) (v.convert u) := by
  rcases Ty.converts_cases hc with hs | rfl | ⟨rfl, hn⟩ | ⟨p, q, n, m, rfl, rfl, hw, hn, -⟩ |
    ⟨e, f, he, rfl, hr⟩ | ⟨e, f, rfl, rfl, hr⟩ | hb
  · exact hD.exact ht hu hs ▸ h.convert_self
  · rw [Value.convert_of_not rfl]
    trivial
  · obtain rfl : v = .null := h
    rw [Value.convert_null_of_acceptsNull hn]
    exact conforms_null hn
  · rcases Prim.widens_cases hw with rfl | rfl | ⟨hp, hq⟩
    · exact h.convert_lift fun h => .inl (hn h)
    · rw [Value.convert_of_not (Ty.isNumberLike_lift _ _)]
      exact conforms_lift.mpr (.inr trivial)
    · exact h.convert_number hp hq
  · rw [Value.convert_of_not rfl]
    exact h.sequence he fun w hw => hw.byReference hD (ht.element he) (hu.element rfl) hr
  · rw [Value.convert_of_not rfl]
    rcases h with h | ⟨id, items, rfl, hi⟩
    · exact .inl h
    · exact .inr ⟨id, items, rfl, fun w hw =>
        (hi w hw).byReference hD (ht.element rfl) (hu.element rfl) hr⟩
  · have hbase := Ty.isBase_of_isBaseOf (hD.throughout ht) hb
    rw [Value.convert_of_not (Ty.not_isNumberLike_of_isBase hbase)]
    exact h.base hD ht hu hb

/-- **A value converts as a text asks for it**, where the conversion is safe. -/
theorem Conforms.cast {q : Prim} (ht : D.Admits t) (h : Conforms host t v)
    (hc : t.convertsExplicitly (.prim q) = true) (hs : t.castsSafely (.prim q) = true) :
    Fine (Conforms host (.prim q)) (v.convert (.prim q)) := by
  rcases Ty.convertsExplicitly_cases hc with hc | ⟨p, n, rfl, ⟨hp, hq⟩ | rfl⟩ | ho
  · exact h.convert hD ht (hD.lawful.admits_prim q) hc
  · exact h.convert_number (m := false) hp hq
  · refine h.convert_lift (m := false) fun hn => .inr ?_
    rintro rfl
    subst hn
    cases hs
  · simp [Ty.castsSafely, ho] at hs

omit hD in
/-- What fits a type is an integer, as is the type. -/
theorem Term.Typed.fits_cases {e : Term} {s : Scopes} (he : Typed D s e) (hf : e.fits u = true) :
    ∃ i j n, e.type = .prim (.int i) ∧ u = .lift (.int j) n := by
  unfold Term.fits at hf
  split at hf
  · rename_i k j hk hj
    cases he with
    | constant _ hv =>
      rcases hv with rfl | ⟨rfl, -⟩
      · rename_i x _ _
        cases x with
        | int i => exact ⟨i.type, j, _, rfl, Ty.eq_lift_of_primitive? hj⟩
        | _ => cases hk
      · cases hk
    | _ => cases hk
  · cases hf

/-- What a term may stand for, its value converts to. -/
theorem Conforms.assign {e : Term} {s : Scopes} (he : Term.Typed D s e) (ht : D.Admits e.type)
    (hu : D.Admits u) (ha : e.isAssignable u = true) (h : Conforms host e.type v) :
    Fine (Conforms host u) (v.convert u) := by
  rcases Term.isAssignable_iff.mp ha with hc | hf
  · exact h.convert hD ht hu hc
  · obtain ⟨i, j, n, hi, rfl⟩ := he.fits_cases hf
    rw [hi] at h
    exact h.convert_number (n := false) rfl rfl

/-- What converts to a type of numbers is one of numbers, or null. -/
theorem Ty.numberLike_of_converts (ht : D.Admits t) (hu : D.Admits u) (h : t.converts u = true)
    (hn : u.isNumberLike = true ∨ u = .null) : t.isNumberLike = true ∨ t = .null := by
  rcases Ty.converts_cases h with hs | rfl | ⟨rfl, -⟩ | ⟨p, q, n, m, rfl, rfl, hw, -, -⟩ |
    ⟨e, f, -, rfl, -⟩ | ⟨e, f, -, rfl, -⟩ | hb
  · rwa [hD.exact ht hu hs]
  · rcases hn with hn | hn <;> cases hn
  · exact .inr rfl
  · have hq : q.isNumberLike = true := by
      rcases hn with hn | hn
      · simpa using hn
      · cases m <;> cases hn
    left
    rw [Ty.isNumberLike_lift]
    rcases Prim.widens_cases hw with rfl | rfl | ⟨hp, -⟩
    · exact hq
    · cases hq
    · exact hp
  · rcases hn with hn | hn <;> cases hn
  · rcases hn with hn | hn <;> cases hn
  · have hbase := Ty.isBase_of_isBaseOf (hD.throughout ht) hb
    rcases hn with hn | rfl
    · rw [Ty.not_isNumberLike_of_isBase hbase] at hn
      cases hn
    · cases hbase

/-- What leads to a type of numbers is one of numbers, or null. -/
theorem Ty.numberLike_of_leads (h : t.Leads D u) (ht : D.Admits t)
    (hn : u.isNumberLike = true) : t.isNumberLike = true ∨ t = .null := by
  induction h with
  | refl => exact .inl hn
  | step hc hu _ ih => exact numberLike_of_converts hD ht hu hc (ih hu hn)

omit hD in
/-- A number, or null, is brought to any type, or is null where it may not be. -/
theorem Conforms.convert_any (h : Conforms host t v)
    (hn : u.isNumberLike = true → t.isNumberLike = true ∨ t = .null) :
    Fine (fun _ => True) (v.convert u) := by
  cases hu : u.isNumberLike with
  | false =>
    rw [Value.convert_of_not hu]
    trivial
  | true =>
    have number {t : Ty} (ht : t.isNumberLike = true) :
        ∃ p : Prim, p.isNumberLike = true ∧ t = .lift p t.isNullable := by
      unfold Ty.isNumberLike at ht
      cases hp : t.primitive? with
      | none => rw [hp] at ht; cases ht
      | some p =>
        rw [hp] at ht
        exact ⟨p, ht, Ty.eq_lift_of_primitive? hp⟩
    obtain ⟨q, hq, hqu⟩ := number hu
    rw [hqu]
    rcases hn hu with ht | rfl
    · obtain ⟨p, hp, hpt⟩ := number ht
      rw [hpt] at h
      exact (h.convert_number hp hq).mono fun _ _ => trivial
    · obtain rfl : v = .null := h
      have hnull : Conforms host (.lift q true) .null := conforms_lift.mpr (.inl ⟨rfl, rfl⟩)
      exact (hnull.convert_number hq hq).mono fun _ _ => trivial

end QueryExpr
