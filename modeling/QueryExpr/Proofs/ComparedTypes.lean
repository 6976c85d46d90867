/-
# The types that operands are compared in

Operands of predefined types are compared in a type that each of them converts to,
whether two of them are brought to a type of equality or all of them, one after the
other, to a common type. No operand stands there only because it is a constant that
fits: for integers there always is a promotion.

Key definitions: `Ty.IsBasic`, `Ty.isDiscrete`, `Ty.isFloating`.
Key theorems: `Ty.IsBasic.converts_trans`, `Ty.IsBasic.unify?`, `Ty.IsBasic.bestOf`,
`Ty.IsBasic.equality?`.
-/
import QueryExpr.Proofs.ConversionOrder
import QueryExpr.Proofs.ValueConversion

namespace QueryExpr.Ty

variable {t u a b c : Ty} {p q : Prim} {n m : Bool}

/-- The type is predefined, nullable or not, or that of null. -/
def IsBasic (t : Ty) : Prop := t = .null ∨ ∃ p n, t = lift p n

/-- Whether the type is one of integers, characters, truth values or texts, nullable or
not, or that of null. -/
def isDiscrete (t : Ty) : Bool :=
  t.isNull || t.primitive?.any fun p => p.isIntegerLike || p == .boolean || p == .string

/-- Whether the type is one of floating-point numbers or decimals, nullable or not. -/
def isFloating (t : Ty) : Bool :=
  t.primitive?.any fun p => p == .single || p == .double || p == .decimal

theorem isDiscrete_cases (h : t.isDiscrete = true) : t = .null ∨
    ∃ p n, t = lift p n ∧ (p.isIntegerLike = true ∨ p = .boolean ∨ p = .string) := by
  unfold isDiscrete at h
  rw [Bool.or_eq_true] at h
  rcases h with h | h
  · cases t <;> first | exact .inl rfl | cases h
  · cases hp : t.primitive? with
    | none => rw [hp] at h; cases h
    | some p =>
      rw [hp] at h
      exact .inr ⟨p, _, eq_lift_of_primitive? hp, by simpa [or_assoc] using h⟩

theorem isBasic_of_isDiscrete (h : t.isDiscrete = true) : t.IsBasic := by
  rcases isDiscrete_cases h with rfl | ⟨p, n, rfl, -⟩
  · exact .inl rfl
  · exact .inr ⟨p, n, rfl⟩

theorem acceptsNull_lift : (lift p n).acceptsNull = (n || !p.isValueType) := by
  cases n <;> rfl

/-- Two types with numbers behind them have a promotion. -/
theorem promote?_isSome (hp : t.primitive? = some p) (hpn : p.isNumberLike = true)
    (hq : u.primitive? = some q) (hqn : q.isNumberLike = true) : promote? t u false ≠ none := by
  have hdecimal {r : Prim} (hr : r.isNumberLike = true) : r.widens .decimal = true := by
    cases r <;> first | rfl | cases hr
  unfold promote?
  rw [hp, hq]
  dsimp only
  rw [hpn, hqn]
  by_cases hpq : p = q
  · simp [hpq]
  · have hfind : (promotions.filter fun c => !((p.isIntegerLike && q.isIntegerLike) &&
        (c == .single || c == .double))).find? (fun c => p.widens c && q.widens c) ≠ none := by
      rw [Ne, List.find?_eq_none, not_forall]
      refine ⟨.decimal, fun h => h ?_ ?_⟩
      · simp [promotions]
      · simp [hdecimal hpn, hdecimal hqn]
    simpa [hpq] using hfind

namespace IsBasic

/-- What converts from a type with null has null. -/
theorem acceptsNull (ha : a.IsBasic) (h : a.acceptsNull = true) (hc : a.converts b = true) :
    b.acceptsNull = true := by
  rcases ha with rfl | ⟨p, n, rfl⟩
  · exact null_converts_iff.mp hc
  rcases lift_converts_cases hc with rfl | rfl | ⟨q, m, rfl, hw, hn, hv⟩
  · exact h
  · rfl
  · rw [acceptsNull_lift, Bool.or_eq_true] at h ⊢
    rcases h with rfl | h
    · exact .inl (hn rfl)
    · refine .inr ?_
      cases hq : q.isValueType with
      | false => rfl
      | true =>
        rw [Prim.isValueType_of_widens hw hq] at h
        cases h

/-- Conversions of predefined types follow one another. -/
theorem converts_trans (ha : a.IsBasic) (hb : b.IsBasic) (h : a.converts b = true)
    (h' : b.converts c = true) : a.converts c = true := by
  have hobject : a.converts object = true := by
    refine converts_object ?_
    rcases ha with rfl | ⟨p, n, rfl⟩
    · rfl
    · cases n <;> rfl
  have hnull {t : Ty} {n : Bool} {p : Prim} : t = .null → t ≠ lift p n := by
    rintro rfl h
    cases n <;> cases h
  rcases ha with rfl | ⟨p, n, rfl⟩
  · exact null_converts_iff.mpr (hb.acceptsNull (null_converts_iff.mp h) h')
  rcases lift_converts_cases h with rfl | rfl | ⟨q, m, rfl, hw, hn, hv⟩
  · exact h'
  · -- nothing but `Object` converts from `Object`
    rcases @lift_converts_cases _ .object false h' with rfl | rfl | ⟨r, k, rfl, hw, -, hv⟩
    · exact hobject
    · exact hobject
    · cases k with
      | true => cases hv rfl
      | false => cases r <;> first | exact hobject | cases hw
  · rcases lift_converts_cases h' with rfl | rfl | ⟨r, k, rfl, hw', hn', hv'⟩
    · exact h
    · exact hobject
    · exact lift_converts (Prim.widens_trans hw hw') (fun h => hn' (hn h)) fun hk =>
        Prim.isValueType_of_widens hw (hv' hk)

theorem toNullable? (ht : t.IsBasic) (h : t.toNullable? = some u) : u.IsBasic := by
  rcases ht with rfl | ⟨p, n, rfl⟩
  · cases h
    exact .inl rfl
  · cases n with
    | true =>
      cases h
      exact .inr ⟨p, true, rfl⟩
    | false =>
      simp only [lift, Bool.false_eq_true, if_false, Ty.toNullable?] at h
      split at h <;> cases h
      · exact .inr ⟨p, true, rfl⟩
      · exact .inr ⟨p, false, rfl⟩

variable {D : Discipline} {s : Scopes} {e l r : Term}

/-- Without a promotion a term does not stand for an integer only because it fits. -/
theorem converts_of_isAssignable (he : e.Typed D s) (hp : promote? t e.type false = none)
    (h : e.isAssignable t = true) : e.type.converts t = true := by
  rcases Term.isAssignable_iff.mp h with h | hf
  · exact h
  · obtain ⟨i, j, n, hi, rfl⟩ := he.fits_cases hf
    exact absurd hp (promote?_isSome (primitive?_lift _ n) rfl (congrArg primitive? hi) rfl)

/-- **The type that two terms are unified in** is one that both convert to. -/
theorem unify? (ht : t.IsBasic) (he : e.Typed D s) (hb : e.type.IsBasic)
    (h : unify? t e = some u) : u.IsBasic ∧ e.type.converts u = true := by
  unfold Ty.unify? at h
  split at h
  · rename_i hs
    cases h
    exact ⟨ht, converts_of_beq (beq_symm hs)⟩
  split at h
  · exact ⟨hb.toNullable? h, toNullable?_converts h⟩
  split at h
  · rename_i hn
    refine ⟨ht.toNullable? h, ?_⟩
    cases hnull : e.type <;> rw [hnull] at hn <;> cases hn
    exact null_converts (toNullable?_acceptsNull h)
  split at h
  · rename_i hp
    cases h
    obtain ⟨-, -, c, -, -, -, -, -, -, -, rfl, -⟩ := promote?_cases hp
    exact ⟨.inr ⟨c, _, rfl⟩, (promote?_converts hp).2⟩
  rename_i hp
  split at h
  · rename_i ha
    cases h
    exact ⟨ht, converts_of_isAssignable he hp ha⟩
  split at h
  · cases h
    exact ⟨hb, converts_refl _⟩
  · cases h

/-- **The common type of several terms** is one that all of them convert to. -/
theorem bestOf {es : List Term} (ht : t.IsBasic) (hes : ∀ e ∈ es, e.Typed D s ∧ e.type.IsBasic)
    (h : Ty.bestOf t es = .ok u) :
    u.IsBasic ∧ t.converts u = true ∧ ∀ e ∈ es, e.type.converts u = true := by
  induction es generalizing t with
  | nil =>
    cases h
    exact ⟨ht, converts_refl _, List.forall_mem_nil _⟩
  | cons e es ih =>
    unfold Ty.bestOf at h
    split at h
    case h_2 => cases h
    rename_i v hv
    obtain ⟨he, hes⟩ := List.forall_mem_cons.mp hes
    obtain ⟨hvb, hev⟩ := ht.unify? he.1 he.2 hv
    obtain ⟨hu, hvu, hall⟩ := ih hvb hes h
    exact ⟨hu, ht.converts_trans hvb (unify?_converts hv) hvu,
      List.forall_mem_cons.mpr ⟨he.2.converts_trans hvb hev hvu, hall⟩⟩

/-- **The type that two terms are compared in** is one that both convert to. -/
theorem equality? (hl : l.Typed D s) (hr : r.Typed D s) (h : equality? l r = some t) :
    l.type.converts t = true ∧ r.type.converts t = true := by
  unfold Ty.equality? at h
  split at h
  · rename_i hp
    cases h
    exact promote?_converts hp
  rename_i hp
  split at h
  · rename_i hs
    cases h
    exact ⟨converts_refl _, converts_of_beq (beq_symm hs)⟩
  split at h
  · rename_i hn
    refine ⟨?_, toNullable?_converts h⟩
    cases hnull : l.type <;> rw [hnull] at hn <;> cases hn
    exact null_converts (toNullable?_acceptsNull h)
  split at h
  · rename_i hn
    refine ⟨toNullable?_converts h, ?_⟩
    cases hnull : r.type <;> rw [hnull] at hn <;> cases hn
    exact null_converts (toNullable?_acceptsNull h)
  split at h
  · rename_i ha
    cases h
    exact ⟨converts_refl _, converts_of_isAssignable hr hp ha⟩
  split at h
  · rename_i ha
    cases h
    refine ⟨?_, converts_refl _⟩
    rcases Term.isAssignable_iff.mp ha with h | hf
    · exact h
    · obtain ⟨i, j, n, hi, hj⟩ := hl.fits_cases hf
      exact absurd hp (promote?_isSome (congrArg primitive? hi) rfl
        (hj ▸ primitive?_lift _ n) rfl)
  · cases h

end IsBasic
end QueryExpr.Ty
