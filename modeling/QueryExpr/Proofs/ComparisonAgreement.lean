/-
# Equality and order of operands

An operator of order and the equality of its operands bring these to one type, unless it
is a floating-point one, and then look at the same two values. So of two operands other
than null just one of `a < b`, `a == b` and `a > b` holds, and the other operators say
what is made of these; null is in no order.

Key definitions: `BinaryOp.comparisons`, `Value.Agree`.
Key theorems: `Eval.term_convertTo_number`, `Value.agree_of_compare?`,
`Check.binary_comparison`, `Check.comparison_coherent`.
-/
import QueryExpr.Proofs.EqualityLaws

namespace QueryExpr

/-- The operators of equality and of order. -/
def BinaryOp.comparisons : List BinaryOp :=
  [.equal, .notEqual, .less, .lessEqual, .greater, .greaterEqual]

namespace Value

variable {v w v' w' : Value}

/-- What the operators say of two values agrees: of values other than null one is before
the other or they are equal, and just one of these holds; null is in no order. -/
def Agree (holds : BinaryOp → Bool) (v w : Value) : Prop :=
  (v.isNull = false ∧ w.isNull = false →
    [holds .less, holds .equal, holds .greater].count true = 1 ∧
    holds .lessEqual = (holds .less || holds .equal) ∧
    holds .greaterEqual = (holds .greater || holds .equal) ∧
    holds .notEqual = !holds .equal) ∧
  (v.isNull = true ∨ w.isNull = true →
    holds .less = false ∧ holds .lessEqual = false ∧ holds .greater = false ∧
    holds .greaterEqual = false)

/-- The verdict of an operator of equality or of order on two values. -/
def verdict (v w : Value) (op : BinaryOp) : Bool :=
  match op with
  | .equal => v.equals w
  | .notEqual => !v.equals w
  | .less => (v.compare? w).any Operation.less.holdsOf
  | .lessEqual => (v.compare? w).any Operation.lessEqual.holdsOf
  | .greater => (v.compare? w).any Operation.greater.holdsOf
  | .greaterEqual => (v.compare? w).any Operation.greaterEqual.holdsOf
  | _ => false

theorem apply_comparison {op : BinaryOp} {operation : Operation} (hop : op ∈ BinaryOp.comparisons)
    (h : Operation.ofBinaryOp? op = some operation) (v w : Value) :
    operation.apply v w = .ok (.boolean (verdict v w op)) := by
  revert h
  simp only [BinaryOp.comparisons, List.mem_cons, List.not_mem_nil, or_false] at hop
  rcases hop with rfl | rfl | rfl | rfl | rfl | rfl <;> rintro ⟨⟩ <;> rfl

/-- The operators agree about values that compare, if equality goes with that. -/
theorem agree_of_compare? {o : Ordering} (hv : v.isNull = false) (hw : w.isNull = false)
    (h : v'.compare? w' = some o) (heq : v'.equals w' = (o == .eq)) : Agree (verdict v' w') v w := by
  refine ⟨fun _ => ?_, fun hnull => ?_⟩
  · simp only [verdict, h, heq, Option.any_some]
    cases o <;> decide
  · rw [hv, hw] at hnull
    rcases hnull with hnull | hnull <;> cases hnull

theorem compare?_of_isNull (h : v.isNull = true ∨ w.isNull = true) : v.compare? w = none := by
  rcases h with h | h
  · rw [eq_null_of_isNull h]
    cases w with
    | scalar s => exact Scalar.compare?_null s
    | _ => rfl
  · rw [eq_null_of_isNull h]
    cases v with
    | scalar s => cases s <;> rfl
    | _ => rfl

theorem agree_of_isNull (hv : v.isNull = true → v' = .null) (hw : w.isNull = true → w' = .null)
    (h : v.isNull = true ∨ w.isNull = true) : Agree (verdict v' w') v w := by
  refine ⟨fun hother => ?_, fun _ => ?_⟩
  · rw [hother.1, hother.2] at h
    rcases h with h | h <;> cases h
  · have hnone : v'.compare? w' = none :=
      compare?_of_isNull (h.imp (fun h => by rw [hv h]; rfl) fun h => by rw [hw h]; rfl)
    simp only [verdict, hnone, Option.any_none, and_self]

end Value

/-! ### Operands brought to one type -/

namespace Eval

variable {host : Host} {e : Term} {c d : EvalContext} {v : Value} {p q : Prim} {n m : Bool}

/-- An integer or a character that is brought to a type of such comes to an integer, and
null comes to null. -/
theorem term_convertTo_number (hp : p.isIntegerLike = true) (hq : q.isIntegerLike = true)
    (he : e.type = .lift p n) (hnm : n = true → m = true) (hv : term host e c = (.ok v, d))
    (hconforms : Conforms host e.type v) :
    ∃ w, term host (e.convertTo (.lift q m)) c = (.ok w, d) ∧
      (v.isNull = true → w = .null) ∧ (v.isNull = false → ∃ i, w.integer? = some i) := by
  have hholds := hconforms
  rw [he, conforms_lift] at hholds
  by_cases hnull : v.isNull = true
  · obtain rfl := Value.eq_null_of_isNull hnull
    have hn : n = true := by
      rcases hholds with ⟨hn, -⟩ | hholds
      · exact hn
      · obtain ⟨i, hi, -⟩ := hholds.integer hp
        cases hi
    rw [hnm hn]
    exact ⟨.null, term_convertTo_nullable hv, fun _ => rfl, fun h => by cases h⟩
  · rw [Bool.not_eq_true] at hnull
    obtain ⟨i, hi⟩ : ∃ i, v.integer? = some i := by
      rcases hholds with ⟨-, rfl⟩ | hholds
      · cases hnull
      · exact (hholds.integer hp).imp fun _ h => h.1
    have hnever {w : Value} (h : v.isNull = true) : w = .null :=
      absurd (hnull.symm.trans h) (by decide)
    have hrun := term_convertTo_of_not_null hv hnull (.lift q m)
    by_cases hs : (e.type == .lift q m) = true
    · rw [if_pos hs] at hrun
      exact ⟨v, hrun, hnever, fun _ => ⟨i, hi⟩⟩
    · obtain ⟨w, hcast, hw, -⟩ := v.cast_integer hq hi
      have hconvert : v.convert (.lift q m) = .ok w := by
        have hnumber : q.isNumberLike = true := by
          cases q <;> first | rfl | cases hq
        simp [Value.convert, hnull, hnumber, hcast]
      rw [if_neg hs, hconvert] at hrun
      obtain ⟨j, hj, -⟩ := hw.integer hq
      exact ⟨w, hrun, hnever, fun _ => ⟨j, hj⟩⟩

/-- Texts come to texts or to null, and are not converted. -/
theorem term_string (he : e.type = .string) (hv : term host e c = (.ok v, d))
    (hconforms : Conforms host e.type v) :
    term host (e.convertTo .string) c = (.ok v, d) ∧
      (v.isNull = false → ∃ s, v = .scalar (.string s)) := by
  refine ⟨by rw [← he, e.convertTo_self, hv], fun hnull => ?_⟩
  rw [he] at hconforms
  rcases hconforms with rfl | ⟨s, rfl⟩
  · cases hnull
  · exact ⟨s, rfl⟩

/-- How an operator of equality or of order runs. -/
theorem term_comparison {l r : Term} {c' : EvalContext} {w : Value} {op : BinaryOp}
    {operation : Operation} (hop : op ∈ BinaryOp.comparisons)
    (h : Operation.ofBinaryOp? op = some operation) (hl : term host l c = (.ok v, c'))
    (hr : term host r c' = (.ok w, d)) (span : Span) :
    term host (.binary operation l r .boolean span) c =
      (.ok (.boolean (Value.verdict v w op)), d) := by
  have hrun : term host (.binary operation l r .boolean span) c = (operation.apply v w, d) := by
    have hstep : term host (.binary operation l r .boolean span) = (do
        let v ← term host l
        ofExcept (operation.apply v (← term host r))) := by
      simp only [BinaryOp.comparisons, List.mem_cons, List.not_mem_nil, or_false] at hop
      rcases hop with rfl | rfl | rfl | rfl | rfl | rfl <;> cases h <;> rfl
    rw [hstep, Step.bind_apply, hl]
    dsimp only
    rw [Step.bind_apply, hr]
    exact ofExcept_apply _ _
  rw [hrun, Value.apply_comparison hop h]

end Eval

/-! ### The check of the operators -/

namespace Ty

theorem eq_string_of_isString {t : Ty} (h : t.isString = true) : t = .string := by
  unfold isString at h
  split at h
  · rfl
  · cases h

end Ty

namespace Check

variable {l r : Term} {t u : Ty} {op : BinaryOp} {operation : Operation}

/-- Operands that have an order are brought to one type by all the operators of equality
and of order. -/
theorem operationTypes?_comparison (h : operationTypes? .less l r = some (t, u))
    (hop : op ∈ BinaryOp.comparisons) (ho : Operation.ofBinaryOp? op = some operation) :
    operationTypes? operation l r = some (t, u) := by
  have hequal : (Ty.equality? l r).map (·, Ty.boolean) = some (t, u) := by
    rw [operationTypes?] at h
    rw [Ty.equality?]
    cases hp : Ty.promote? l.type r.type false with
    | some p =>
      rw [hp] at h
      exact h
    | none =>
      rw [hp] at h
      by_cases hs : (l.type.isString && r.type.isString) = true
      · have hboth := hs
        rw [Bool.and_eq_true_iff] at hboth
        dsimp only at h ⊢
        rw [if_pos hs] at h
        rw [Ty.eq_string_of_isString hboth.1, Ty.eq_string_of_isString hboth.2]
        exact h
      · dsimp only at h
        rw [if_neg hs] at h
        cases h
  simp only [BinaryOp.comparisons, List.mem_cons, List.not_mem_nil, or_false] at hop
  rcases hop with rfl | rfl | rfl | rfl | rfl | rfl <;> cases ho <;> first | exact hequal | exact h

/-- How such an operator is checked. -/
theorem binary_comparison (h : operationTypes? .less l r = some (t, .boolean))
    (hop : op ∈ BinaryOp.comparisons) (ho : Operation.ofBinaryOp? op = some operation)
    (o : Options) (span : Span) : binary o op l r span =
      pure (.binary operation (l.convertTo t) (r.convertTo t) .boolean span) := by
  have hadd : (operation == .add) = false := by
    simp only [BinaryOp.comparisons, List.mem_cons, List.not_mem_nil, or_false] at hop
    rcases hop with rfl | rfl | rfl | rfl | rfl | rfl <;> cases ho <;> rfl
  unfold binary
  rw [ho]
  simp only [hadd, Bool.false_and, Bool.false_eq_true, ↓reduceIte,
    operationTypes?_comparison h hop ho]

/-- What has an order that is not one of floating-point numbers: integers and characters,
which are brought to one type of such, and texts. -/
theorem less_cases (h : operationTypes? .less l r = some (t, u)) (ht : t.isFloating = false) :
    (∃ p q c n m, l.type = .lift p n ∧ r.type = .lift q m ∧ t = .lift c (n || m) ∧
      p.isIntegerLike = true ∧ q.isIntegerLike = true ∧ c.isIntegerLike = true) ∨
    l.type = .string ∧ r.type = .string ∧ t = .string := by
  simp only [operationTypes?] at h
  split at h
  · rename_i hp
    cases h
    obtain ⟨p, q, c, hl, hr, hpn, hqn, hcn, hpc, hqc, rfl, -⟩ := Ty.promote?_cases hp
    have hc : c.isIntegerLike = true := by
      cases c <;> first | rfl | cases hcn; done | simp [Ty.isFloating] at ht
    have below {p : Prim} (hn : p.isNumberLike = true) (hw : p.widens c = true) :
        p.isIntegerLike = true := by
      cases p <;> first | rfl | cases hn; done | (cases c <;> first | cases hc; done | cases hw)
    exact .inl ⟨p, q, c, _, _, Ty.eq_lift_of_primitive? hl, Ty.eq_lift_of_primitive? hr, rfl,
      below hpn hpc, below hqn hqc, hc⟩
  · split at h
    · rename_i hs
      rw [Bool.and_eq_true_iff] at hs
      cases h
      exact .inr ⟨Ty.eq_string_of_isString hs.1, Ty.eq_string_of_isString hs.2, rfl⟩
    · cases h

end Check

namespace Eval

variable {host : Host} {l r : Term} {t u : Ty} {c c' d : EvalContext} {v w : Value}

/-- The operands come to two values about which the operators agree. -/
theorem operands_agree (h : Check.operationTypes? .less l r = some (t, u))
    (ht : t.isFloating = false) (hl : term host l c = (.ok v, c'))
    (hv : Conforms host l.type v) (hr : term host r c' = (.ok w, d))
    (hw : Conforms host r.type w) :
    ∃ v' w', term host (l.convertTo t) c = (.ok v', c') ∧
      term host (r.convertTo t) c' = (.ok w', d) ∧ Value.Agree (Value.verdict v' w') v w := by
  obtain ⟨p, q, k, n, m, hp, hq, rfl, hpi, hqi, hki⟩ | ⟨hls, hrs, rfl⟩ := Check.less_cases h ht
  · obtain ⟨v', hv', hnull, hsome⟩ :=
      term_convertTo_number (m := n || m) hpi hki hp (by simp +contextual) hl hv
    obtain ⟨w', hw', hnull', hsome'⟩ :=
      term_convertTo_number (m := n || m) hqi hki hq (by simp +contextual) hr hw
    refine ⟨v', w', hv', hw', ?_⟩
    by_cases hnone : v.isNull = true ∨ w.isNull = true
    · exact Value.agree_of_isNull hnull hnull' hnone
    · obtain ⟨hv0, hw0⟩ : v.isNull = false ∧ w.isNull = false := by simpa using hnone
      obtain ⟨i, hi⟩ := hsome hv0
      obtain ⟨j, hj⟩ := hsome' hw0
      have hcompare := Value.compare?_of_integer? hi hj
      obtain ⟨s, rfl, hs⟩ := Value.scalar_of_integer? hi
      obtain ⟨s', rfl, -⟩ := Value.scalar_of_integer? hj
      refine Value.agree_of_compare? hv0 hw0 hcompare ?_
      have hequals : s.equals s' = (s.compare? s' == some .eq) := (Scalar.equals_number hs).1
      show s.equals s' = _
      rw [hequals, show s.compare? s' = _ from hcompare]
      rfl
  · obtain ⟨hv', hsome⟩ := term_string hls hl hv
    obtain ⟨hw', hsome'⟩ := term_string hrs hr hw
    refine ⟨v, w, hv', hw', ?_⟩
    by_cases hnone : v.isNull = true ∨ w.isNull = true
    · exact Value.agree_of_isNull Value.eq_null_of_isNull Value.eq_null_of_isNull hnone
    · obtain ⟨hv0, hw0⟩ : v.isNull = false ∧ w.isNull = false := by simpa using hnone
      obtain ⟨s, rfl⟩ := hsome hv0
      obtain ⟨s', rfl⟩ := hsome' hw0
      refine Value.agree_of_compare? hv0 hw0 (Scalar.compare_string s s') ?_
      show (s == s') = _
      rw [Bool.eq_iff_iff, beq_iff_eq, beq_iff_eq]
      exact Std.LawfulEqCmp.compare_eq_iff_eq.symm

end Eval

/-- **Equality and order are coherent.** Values without floating-point numbers obey the
laws of an equivalence and of an order that goes with it. And if the operator `<` takes
two operands, and not as floating-point numbers, then the operators of equality and of
order all take them, they all come to a truth value, and they agree. -/
theorem Check.comparison_coherent :
    (∀ types : Nat → RecordType, Value.Lawful types) ∧
    ∀ (o : Options) (host : Host) (l r : Term) (t : Ty) (span : Span) (c c' d : EvalContext)
      (v w : Value), operationTypes? .less l r = some (t, .boolean) → t.isFloating = false →
      Eval.term host l c = (.ok v, c') → Conforms host l.type v →
      Eval.term host r c' = (.ok w, d) → Conforms host r.type w →
      ∃ holds : BinaryOp → Bool,
        (∀ op ∈ BinaryOp.comparisons, ∃ e, binary o op l r span = pure e ∧
          Eval.term host e c = (.ok (.boolean (holds op)), d)) ∧
        Value.Agree holds v w := by
  refine ⟨Value.lawful, fun o host l r t span c c' d v w h ht hl hv hr hw => ?_⟩
  obtain ⟨v', w', hl', hr', hagree⟩ := Eval.operands_agree h ht hl hv hr hw
  refine ⟨Value.verdict v' w', fun op hop => ?_, hagree⟩
  have hsome : ∃ operation, Operation.ofBinaryOp? op = some operation := by
    simp only [BinaryOp.comparisons, List.mem_cons, List.not_mem_nil, or_false] at hop
    rcases hop with rfl | rfl | rfl | rfl | rfl | rfl <;> exact ⟨_, rfl⟩
  obtain ⟨operation, ho⟩ := hsome
  exact ⟨_, binary_comparison h hop ho o span, Eval.term_comparison hop ho hl' hr' span⟩

/-- A byte and a nullable integer of another width, and records that have one as a byte,
as a longer integer and as a character. -/
theorem Check.comparison_coherent_mixed :
    let host : Host := ⟨fun _ _ _ => none, fun _ _ _ _ => .error .divideByZero,
      fun _ _ _ => .error .divideByZero, fun _ _ => none, fun _ _ => .error .divideByZero⟩
    let span : Span := ⟨0, 1⟩
    let l : Term := .constant (.int (.wrap .byte 200)) (.prim (.int .byte)) span
    let r : Term := .constant (.int (.wrap .int64 201)) (.nullable (.int .int64)) span
    let point (s : Scalar) : Value := .record ⟨1, [("X", .object)]⟩ [.scalar s]
    (∃ holds : BinaryOp → Bool,
      (∀ op ∈ BinaryOp.comparisons, ∃ e, binary {} op l r span = pure e ∧
        Eval.term host e (.start 0) = (.ok (.boolean (holds op)), .start 0)) ∧
      [holds .less, holds .equal, holds .greater].count true = 1) ∧
    (point (.int (.wrap .byte 65))).equals (point (.char 'A')) = true := by
  intro host span l r point
  have hl : Conforms host l.type (.scalar (.int (.wrap .byte 200))) := ⟨_, rfl, rfl⟩
  have hr : Conforms host r.type (.scalar (.int (.wrap .int64 201))) := .inr ⟨_, rfl, rfl⟩
  have hpoint (s : Scalar) : Value.MadeOf (fun _ => ⟨1, [("X", .object)]⟩) (point s) :=
    ⟨rfl, rfl, trivial, trivial⟩
  constructor
  · obtain ⟨holds, hholds, hagree, -⟩ := Check.comparison_coherent.2 {} host l r
      (.nullable (.int .int64)) span (.start 0) (.start 0) (.start 0) _ _ rfl rfl rfl hl rfl hr
    exact ⟨holds, hholds, (hagree ⟨rfl, rfl⟩).1⟩
  · exact (Check.comparison_coherent.1 fun _ => ⟨1, [("X", .object)]⟩).trans
      (point (.int (.wrap .byte 65))) (point (.int (.wrap .int64 65))) (point (.char 'A'))
      rfl rfl rfl (hpoint _) (hpoint _) (hpoint _) (by decide) (by decide)

end QueryExpr
