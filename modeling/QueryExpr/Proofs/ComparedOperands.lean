/-
# Operands brought to a type of comparison

An implicit conversion of null, a truth value, a text, an integer or a character
leaves the value as it is or keeps its integer, unless it cuts a character. Equality
looks at nothing else: values that have been brought to one type and values that have
been brought to another are equal in the same cases.

Key definitions: `Value.Kept`, `Eval.Delivers`, `Eval.Passed`.
Key theorems: `Value.Kept.equals`, `Eval.term_convertTo_kept`,
`Eval.Comes.convertTo`.
-/
import QueryExpr.Proofs.ComparedTypes
import QueryExpr.Proofs.LiftedTerms
import QueryExpr.Proofs.RepeatedEval

namespace QueryExpr

/-! ### Equality of integers -/

namespace Scalar

variable {s s' t : Scalar} {i : Int}

/-- How an integer or a character compares. -/
theorem compare?_number (h : s.integer? = some i) : s.compare? t =
    if t.isFloating then t.double?.bind (compareDouble? (Binary.doubleOfInt i))
    else t.integer?.map fun n => compareOfLessAndEq i n := by
  cases s <;> cases h <;> cases t <;> rfl

theorem number_compare? (h : s.integer? = some i) : t.compare? s =
    if t.isFloating then t.double?.bind fun x => compareDouble? x (Binary.doubleOfInt i)
    else t.integer?.map fun n => compareOfLessAndEq n i := by
  cases s <;> cases h <;> cases t <;> rfl

theorem equals_number (h : s.integer? = some i) :
    s.equals t = (s.compare? t == some .eq) ∧ t.equals s = (t.compare? s == some .eq) := by
  cases s <;> cases h <;> cases t <;> exact ⟨rfl, rfl⟩

/-- Of an integer or a character equality looks at the number alone. -/
theorem equals_of_integer? (hs : s.integer? = some i) (hs' : s'.integer? = some i) :
    s'.equals t = s.equals t ∧ t.equals s' = t.equals s := by
  rw [(equals_number hs).1, (equals_number hs).2, (equals_number hs').1, (equals_number hs').2,
    compare?_number hs, compare?_number hs', number_compare? hs, number_compare? hs']
  exact ⟨rfl, rfl⟩

end Scalar

/-! ### What conversions keep -/

namespace Value

variable {v v' w w' : Value} {i : Int}

/-- The second value is the first one, or has the same integer. -/
def Kept (v w : Value) : Prop := w = v ∨ ∃ i, v.integer? = some i ∧ w.integer? = some i

theorem scalar_of_integer? (h : v.integer? = some i) :
    ∃ s : Scalar, v = .scalar s ∧ s.integer? = some i := by
  cases v with
  | scalar s => exact ⟨s, rfl, h⟩
  | _ => cases h

theorem Kept.equals_left (h : v.Kept v') (w : Value) : v'.equals w = v.equals w := by
  rcases h with rfl | ⟨i, hv, hv'⟩
  · rfl
  obtain ⟨s, rfl, hs⟩ := scalar_of_integer? hv
  obtain ⟨s', rfl, hs'⟩ := scalar_of_integer? hv'
  cases w with
  | scalar t => exact (Scalar.equals_of_integer? hs hs').1
  | _ => rfl

theorem Kept.equals_right (h : w.Kept w') (v : Value) : v.equals w' = v.equals w := by
  rcases h with rfl | ⟨i, hw, hw'⟩
  · rfl
  obtain ⟨s, rfl, hs⟩ := scalar_of_integer? hw
  obtain ⟨s', rfl, hs'⟩ := scalar_of_integer? hw'
  cases v with
  | scalar t => exact (Scalar.equals_of_integer? hs hs').2
  | _ => rfl

/-- **Kept values are equal in the same cases.** -/
theorem Kept.equals (hv : v.Kept v') (hw : w.Kept w') : v'.equals w' = v.equals w :=
  (hv.equals_left w').trans (hw.equals_right v)

end Value

namespace Eval

variable {host : Host} {env : Environment} {e : Term} {t : Ty} {v : Value} {n : Nat}

/-- What the term comes to in the environment is a value of its type, or null where
the type is `Boolean`. -/
def Delivers (host : Host) (env : Environment) (e : Term) : Prop :=
  ∀ c v d, c.environment = env → term host e c = (.ok v, d) →
    Conforms host e.type v ∨ e.type = .boolean ∧ v = .null

/-- What a term of integers, characters, truth values or texts comes to: null, or a
value of the primitive type. -/
theorem Delivers.cases (h : Delivers host env e) (hd : e.type.isDiscrete = true)
    {c d : EvalContext} (hc : c.environment = env) (hv : term host e c = (.ok v, d)) :
    v = .null ∧ (e.type.acceptsNull = true ∨ e.type = .boolean) ∨
      v.isNull = false ∧ ∃ p n, e.type = .lift p n ∧
        (p.isIntegerLike = true ∨ p = .boolean ∨ p = .string) ∧ p.Holds v := by
  rcases h c v d hc hv with h | ⟨ht, rfl⟩
  swap
  · exact .inl ⟨rfl, .inr ht⟩
  rcases Ty.isDiscrete_cases hd with ht | ⟨p, n, ht, hp⟩ <;> rw [ht] at h ⊢
  · exact .inl ⟨h, .inl rfl⟩
  by_cases hn : v.isNull = true
  · obtain rfl := Value.eq_null_of_isNull hn
    refine .inl ⟨rfl, .inl ?_⟩
    rw [Ty.acceptsNull_lift]
    rcases conforms_lift.mp h with ⟨rfl, -⟩ | hholds
    · rfl
    · cases p with
      | string => exact Bool.or_true n
      | object => rcases hp with hp | hp | hp <;> cases hp
      | _ => obtain ⟨_, hnull⟩ := hholds; simp [Value.null] at hnull
  · rcases conforms_lift.mp h with ⟨-, rfl⟩ | hholds
    · cases hn rfl
    · exact .inr ⟨by simpa using hn, p, n, rfl, hp, hholds⟩

/-- So it has no parts. -/
theorem Delivers.scalar (h : Delivers host env e) (hd : e.type.isDiscrete = true)
    {c d : EvalContext} (hc : c.environment = env) (hv : term host e c = (.ok v, d)) :
    ∃ s, v = .scalar s := by
  rcases h.cases hd hc hv with ⟨rfl, -⟩ | ⟨-, p, n, -, hp, hholds⟩
  · exact ⟨.null, rfl⟩
  · cases p with
    | object => rcases hp with hp | hp | hp <;> cases hp
    | string =>
      rcases hholds with rfl | ⟨s, rfl⟩
      · exact ⟨.null, rfl⟩
      · exact ⟨_, rfl⟩
    | int =>
      obtain ⟨x, rfl, -⟩ := hholds
      exact ⟨_, rfl⟩
    | _ =>
      obtain ⟨x, rfl⟩ := hholds
      exact ⟨_, rfl⟩

/-- **What a conversion does to an operand**: it leaves the value or keeps its integer,
the same way every time, unless it cuts a character that is above sixteen bits. -/
theorem term_convertTo_kept (h : Delivers host env e) (hd : e.type.isDiscrete = true)
    (hc : e.type.converts t = true) (ht : t.isFloating = false) {c d : EvalContext}
    (henv : c.environment = env) (hv : term host e c = (.ok v, d))
    (hcut : e.type.cutsChars t = true → ∀ i, v.integer? = some i → i ≤ 65535) :
    ∃ w, v.Kept w ∧
      ∀ c d, term host e c = (.ok v, d) → term host (e.convertTo t) c = (.ok w, d) := by
  by_cases hs : (e.type == t) = true
  · -- the operand has the type already
    refine ⟨v, .inl rfl, fun c d hv => ?_⟩
    rw [Term.convertTo, if_pos hs, hv]
  rcases h.cases hd henv hv with ⟨rfl, hnull⟩ | ⟨hn, p, n, hp, hkind, hholds⟩
  · have hconvert : Value.null.convert t = .ok .null := by
      rcases hnull with hnull | hboolean
      · exact Value.convert_null_of_acceptsNull
          ((Ty.isBasic_of_isDiscrete hd).acceptsNull hnull hc)
      · refine Value.convert_of_not ?_
        rw [hboolean] at hc
        rcases @Ty.lift_converts_cases _ .boolean false hc with rfl | rfl | ⟨q, m, rfl, hw, -⟩
        · rfl
        · rfl
        · rw [Ty.isNumberLike_lift]
          cases q <;> first | rfl | cases hw
    refine ⟨.null, .inl rfl, fun c d hv => ?_⟩
    rw [Term.convertTo, if_neg hs]
    split
    · rename_i hconstant
      rw [term_of_isNullConstant hconstant] at hv
      cases hv
      rfl
    · rw [term, Step.bind_apply, hv]
      dsimp only
      rw [hconvert]
      rfl
  · -- a value other than null is converted as one of the primitive type
    suffices hconvert : ∃ w, v.convert t = .ok w ∧ v.Kept w by
      obtain ⟨w, hw, hkept⟩ := hconvert
      refine ⟨w, hkept, fun c d hv => ?_⟩
      rw [term_convertTo_of_not_null hv hn, if_neg hs, hw]
    cases hnumber : t.isNumberLike with
    | false => exact ⟨v, Value.convert_of_not hnumber, .inl rfl⟩
    | true =>
      rw [hp] at hc hcut
      rcases Ty.lift_converts_cases hc with heq | rfl | ⟨q, m, rfl, hw, -⟩
      · rw [heq, hp] at hs
        exact absurd (Ty.beq_refl _) hs
      · cases hnumber
      rw [Ty.isNumberLike_lift] at hnumber
      have hq : q.isIntegerLike = true := by
        simp only [Ty.isFloating, Ty.primitive?_lift, Option.any_some] at ht
        revert hnumber ht
        cases q <;> simp [Prim.isNumberLike, Prim.isNumeric, Prim.isIntegerLike, Prim.isIntegral]
      have hpi : p.isIntegerLike = true := by
        rcases hkind with hp | rfl | rfl
        · exact hp
        all_goals
          revert hq hw
          cases q <;> simp [Prim.widens, Prim.isIntegerLike, Prim.isIntegral]
      obtain ⟨i, hi, -⟩ := hholds.integer hpi
      obtain ⟨w, hcast, -, hkeeps⟩ := v.cast_integer hq hi
      refine ⟨w, ?_, .inr ⟨i, hi, hkeeps.mpr ?_⟩⟩
      · simp [Value.convert, hn, hnumber, hcast]
      · refine (Prim.widens_keeps hpi hq hw hholds hi).mpr fun hchar htarget => hcut ?_ i hi
        subst hchar
        rw [hp] at hs
        simpa [Ty.cutsChars, hs] using htarget

/-! ### Outcomes -/

/-- What an operand comes to after a conversion: the same error, or the value it came
to, kept. -/
inductive Passed : Except EvalError Value → Except EvalError Value → Prop
  | error (x : EvalError) : Passed (.error x) (.error x)
  | ok {v w : Value} (h : v.Kept w) : Passed (.ok v) (.ok w)

/-- **A converted operand comes to what the operand comes to.** -/
theorem Comes.convertTo {r : Except EvalError Value} (hr : Comes n env (term host e) r)
    (h : Delivers host env e) (hd : e.type.isDiscrete = true) (hc : e.type.converts t = true)
    (ht : t.isFloating = false) (hcut : e.type.cutsChars t = true → ∀ c v d, c.environment = env →
      term host e c = (.ok v, d) → ∀ i, v.integer? = some i → i ≤ 65535) :
    ∃ r', Comes n env (term host (e.convertTo t)) r' ∧ Passed r r' := by
  cases r with
  | error x =>
    refine ⟨.error x, fun c henv hn => ?_, .error x⟩
    obtain ⟨d, hd, -⟩ := hr c henv hn
    exact ⟨d, term_convertTo_of_error hd, fun _ h => by cases h⟩
  | ok v =>
    obtain ⟨d₀, hv, -⟩ := hr ⟨env, n, []⟩ rfl (Nat.le_refl n)
    obtain ⟨w, hkept, hall⟩ := term_convertTo_kept h hd hc ht rfl hv
      fun hcuts => hcut hcuts _ v d₀ rfl hv
    refine ⟨.ok w, fun c henv hn => ?_, .ok hkept⟩
    obtain ⟨d, hd, hleft⟩ := hr c henv hn
    exact ⟨d, hall c d hd, fun _ _ => hleft v rfl⟩

end Eval
end QueryExpr
