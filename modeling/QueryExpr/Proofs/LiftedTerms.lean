/-
# Terms of numbers and their lifted forms

A term of numbers is made of numeric constants and of parameters that are
numbers or characters, by sums, differences, products and the unary minus. In
its lifted form the parameters have the nullable forms of their types, and so
have all nodes with parameters below them. Constants keep their types. Where
one meets a nullable operand it is converted to the nullable form of its own
type, which changes nothing; of singles this is so because they survive as
doubles.

Where no parameter is null the lifted form does what the term does. Where one
is null, and the others are of their types, it comes to null.

Key definitions: `Ty.lifted`, `Symbol.lifted`, `Term.Lifts`, `Term.Lifts.Yields`.
Key theorems: `Prim.Holds.convert_self`, `Term.Lifts.yields`,
`Term.Lifts.agree`.
-/
import QueryExpr.Proofs.ConvertedValue
import QueryExpr.Proofs.ExactArithmetic
import QueryExpr.Proofs.WidenedSingles

namespace QueryExpr

variable {host : Host} {v w r : Value} {p q : Prim} {n : Bool} {op : Operation}

/-- The type with null, where there is one. -/
def Ty.lifted (t : Ty) : Ty := t.toNullable?.getD t

theorem Ty.lifted_prim (hp : p.isNumberLike = true) : (Ty.prim p).lifted = .nullable p := by
  cases p <;> first | rfl | cases hp

/-- The parameter with the lifted type. -/
def Symbol.lifted (s : Symbol) : Symbol := { s with type := s.type.lifted }

/-! ### Operators and conversions on numbers -/

/-- **A number of a type that operands are promoted to is kept by a conversion to
the type.** -/
theorem Prim.Holds.convert_self (hp : p ∈ Ty.promotions) (h : p.Holds v) :
    v.convert (.lift p n) = .ok v := by
  have hlike := Ty.isNumberLike_of_mem_promotions hp
  have hn := h.not_null hlike
  unfold Value.convert
  rw [Ty.primitive?_lift]
  simp only [hlike, hn, Bool.not_true, Bool.false_and, Bool.false_eq_true, if_false]
  cases p with
  | int t =>
    obtain ⟨m, rfl, rfl⟩ := h
    exact congrArg (fun i => Except.ok (Value.scalar (.int i))) m.wrap_self
  | single =>
    obtain ⟨x, rfl⟩ := h
    exact congrArg (fun y => Except.ok (Value.scalar (.single y))) (Binary.narrow_widen x)
  | double | decimal =>
    obtain ⟨x, rfl⟩ := h
    rfl
  | _ => simp [Ty.promotions] at hp

/-- A number becomes a number of another type, nullable or not. -/
theorem Prim.Holds.convert_ok (hp : p.isNumberLike = true) (hq : q.isNumberLike = true)
    (h : p.Holds v) : ∃ w, v.convert (.lift q n) = .ok w ∧ q.Holds w := by
  obtain ⟨w, hw, hqw⟩ := h.cast hp hq
  refine ⟨w, ?_, hqw⟩
  unfold Value.convert
  rw [Ty.primitive?_lift]
  simp [hq, h.not_null hp, hw]

/-- What is not null is converted alike to a type and to its nullable form. -/
theorem Value.convert_lift (hv : v.isNull = false) (q : Prim) (n : Bool) :
    v.convert (.lift q n) = v.convert (.prim q) := by
  unfold convert
  rw [Ty.primitive?_lift]
  cases hq : q.isNumberLike <;> simp [Ty.primitive?, hv, hq]

namespace Operation

/-- Sums, differences and products of numbers of one type are of that type. -/
theorem apply_holds (ho : op.isArithmetic = true) (hd : op.isDivision = false)
    (hp : p ∈ Ty.promotions) (hv : p.Holds v) (hw : p.Holds w) :
    ∃ r, op.apply v w = .ok r ∧ p.Holds r := by
  cases p with
  | int t =>
    obtain ⟨m, rfl, rfl⟩ := hv
    obtain ⟨k, rfl, hk⟩ := hw
    obtain ⟨i, -, hi, -, -⟩ := integer?_wrap ho hd m.type m.value k.value
    refine ⟨.scalar (.int (.wrap m.type i)), ?_, _, rfl, rfl⟩
    rw [apply_integers ho hk (IntType.hasArithmetic_of_mem_promotions hp), hi]
  | single =>
    obtain ⟨x, rfl⟩ := hv
    obtain ⟨y, rfl⟩ := hw
    cases op with
    | add | subtract | multiply => exact ⟨_, rfl, _, rfl⟩
    | divide | modulo => cases hd
    | _ => cases ho
  | double =>
    obtain ⟨x, rfl⟩ := hv
    obtain ⟨y, rfl⟩ := hw
    cases op with
    | add | subtract | multiply => exact ⟨_, rfl, _, rfl⟩
    | divide | modulo => cases hd
    | _ => cases ho
  | decimal =>
    obtain ⟨x, rfl⟩ := hv
    obtain ⟨y, rfl⟩ := hw
    obtain ⟨z, hz⟩ : ∃ z, op.onDecimals x y = .ok z := by
      cases op with
      | add => exact ⟨x + y, by simp [onDecimals, onDoubles]⟩
      | subtract => exact ⟨x - y, by simp [onDecimals, onDoubles]⟩
      | multiply => exact ⟨x * y, by simp [onDecimals, onDoubles]⟩
      | divide | modulo => cases hd
      | _ => cases ho
    refine ⟨.scalar (.decimal z), ?_, z, rfl⟩
    rw [apply_eq_arithmetic ho, arithmetic, hz]
    rfl
  | _ => simp [Ty.promotions] at hp

theorem apply_null (ho : op.isArithmetic = true) (h : v = .null ∨ w = .null) :
    op.apply v w = .ok .null := by
  have h : (v.isNull || w.isNull) = true := by
    rcases h with rfl | rfl
    · rfl
    · exact Bool.or_true _
  rw [apply_eq_arithmetic ho]
  unfold arithmetic
  rw [if_pos h]

/-- Arithmetic makes no null of what is not null. -/
theorem apply_not_null (ho : op.isArithmetic = true) (hv : v.isNull = false)
    (hw : w.isNull = false) (h : op.apply v w = .ok r) : r.isNull = false := by
  have mapped {α : Type} {x : Except EvalError α} {f : α → Scalar} (hf : ∀ a, (f a).isNull = false)
      (hx : (x.map fun a => Value.scalar (f a)) = .ok r) : r.isNull = false := by
    cases x with
    | error => cases hx
    | ok a =>
      cases hx
      exact hf a
  rw [apply_eq_arithmetic ho] at h
  unfold arithmetic at h
  simp only [hv, hw, Bool.or_self, Bool.false_eq_true, if_false] at h
  split at h
  · split at h
    · exact mapped (f := fun i => .int _) (fun _ => rfl) h
    · cases h
  · exact mapped (fun _ => rfl) h
  · exact mapped (fun _ => rfl) h
  · exact mapped (fun _ => rfl) h
  · cases h

end Operation

namespace UnaryOp

/-- A number of a type with negation is negated within the type. -/
theorem apply_holds (hp : (Ty.prim p).negation? = some (.prim p)) (hv : p.Holds v) :
    ∃ r, negate.apply v = .ok r ∧ p.Holds r := by
  cases p with
  | int t =>
    obtain ⟨m, rfl, rfl⟩ := hv
    exact ⟨_, apply_negate hp, _, rfl, rfl⟩
  | single | double | decimal =>
    obtain ⟨x, rfl⟩ := hv
    exact ⟨_, rfl, _, rfl⟩
  | _ => simp [Ty.negation?, Ty.primitive?, Ty.lift, Ty.isNullable] at hp

theorem apply_not_null (hv : v.isNull = false) (h : negate.apply v = .ok r) : r.isNull = false := by
  unfold apply at h
  simp only [hv, Bool.false_eq_true, if_false] at h
  split at h
  · cases h
    rfl
  · split at h
    · cases h
      rfl
    · cases h
  all_goals cases h
  all_goals rfl

end UnaryOp

namespace Eval

variable {e : Term} {t : Ty} {k k' : EvalContext}

theorem term_of_isNullConstant (hn : e.isNullConstant = true) :
    term host e k = (.ok .null, k) := by
  unfold Term.isNullConstant at hn
  split at hn
  · rfl
  · cases hn

theorem term_convertTo_of_error {x : EvalError} (h : term host e k = (.error x, k')) :
    term host (e.convertTo t) k = (.error x, k') := by
  unfold Term.convertTo
  split
  · exact h
  · split
    · rename_i hn
      rw [term_of_isNullConstant hn] at h
      cases h
    · rw [term, Step.bind_apply, h]

theorem term_convertTo_nullable (h : term host e k = (.ok .null, k')) :
    term host (e.convertTo (.nullable p)) k = (.ok .null, k') := by
  unfold Term.convertTo
  split
  · exact h
  · split
    · rename_i hn
      rw [term_of_isNullConstant hn] at h
      exact h
    · rw [term, Step.bind_apply, h]
      rfl

/-- A negation does what the operator does with what its operand comes to. -/
theorem term_negate (t : Ty) (span : Span) {x : Except EvalError Value}
    (h : term host e k = (x, k)) :
    term host (.unary .negate e t span) k = (x.bind UnaryOp.negate.apply, k) := by
  rw [term, Step.bind_apply, h]
  cases x with
  | error => rfl
  | ok v => exact ofExcept_apply _ _

/-- An operator of arithmetic is applied to what both operands come to. -/
theorem term_operation (ho : op.isArithmetic = true) (t : Ty) (span : Span) {l r : Term}
    {x y : Except EvalError Value} (hl : term host l k = (x, k)) (hr : term host r k = (y, k)) :
    term host (.binary op l r t span) k = (x.bind fun v => y.bind (op.apply v), k) := by
  rw [term_arithmetic ho, Step.bind_apply, hl]
  cases x with
  | error => rfl
  | ok v =>
    dsimp only
    rw [Step.bind_apply, hr]
    cases y with
    | error => rfl
    | ok w => exact ofExcept_apply _ _

end Eval

theorem Ty.negation?_promotes (h : (Ty.prim p).negation? = some (.prim q)) :
    q ∈ Ty.promotions := by
  obtain ⟨-, q', -, hq', -, -, hm⟩ := Ty.negation?_cases h
  obtain rfl := Ty.prim.inj hq'
  simp only [List.mem_cons, List.not_mem_nil, or_false] at hm
  rcases hm with rfl | rfl | rfl | rfl | rfl <;> simp [Ty.promotions]

/-! ### The lifted form of a term -/

namespace Term

/-- A term of numbers with the parameters that occur in it, its type and its
lifted form. -/
inductive Lifts : List Symbol → Prim → Term → Term → Prop
  | constant {v : Scalar} {p : Prim} (span : Span) :
      p.isNumberLike = true → p.Holds (.scalar v) →
      Lifts [] p (.constant v (.prim p) span) (.constant v (.prim p) span)
  | parameter {sym : Symbol} {p : Prim} (span : Span) :
      p.isNumberLike = true → sym.type = .prim p →
      Lifts [sym] p (Check.reference sym span) (Check.reference sym.lifted span)
  | negate {ss : List Symbol} {p q : Prim} {a b : Term} (span : Span) :
      Lifts ss p a b → (Ty.prim p).negation? = some (.prim q) →
      Lifts ss q (.unary .negate (a.convertTo (.prim q)) (.prim q) span)
        (.unary .negate (b.convertTo (.lift q (!ss.isEmpty))) (.lift q (!ss.isEmpty)) span)
  | arithmetic {op : Operation} {ss ss' : List Symbol} {p p' q : Prim} {a a' b b' : Term}
      (span : Span) :
      op.isArithmetic = true → op.isDivision = false → Lifts ss p a b → Lifts ss' p' a' b' →
      q ∈ Ty.promotions →
      Lifts (ss ++ ss') q
        (.binary op (a.convertTo (.prim q)) (a'.convertTo (.prim q)) (.prim q) span)
        (.binary op (b.convertTo (.lift q (!(ss ++ ss').isEmpty)))
          (b'.convertTo (.lift q (!(ss ++ ss').isEmpty))) (.lift q (!(ss ++ ss').isEmpty)) span)

namespace Lifts

variable {ss : List Symbol} {a b : Term} {k : EvalContext}

theorem type_eq (h : Lifts ss p a b) :
    p.isNumberLike = true ∧ a.type = .prim p ∧ b.type = .lift p (!ss.isEmpty) := by
  cases h with
  | constant _ hp => exact ⟨hp, rfl, rfl⟩
  | parameter _ hp hs =>
    refine ⟨hp, hs, ?_⟩
    show Ty.lifted _ = _
    rw [hs, Ty.lifted_prim hp]
    rfl
  | negate _ _ hq =>
    exact ⟨Ty.isNumberLike_of_mem_promotions (Ty.negation?_promotes hq), rfl, rfl⟩
  | arithmetic _ _ _ _ _ hq => exact ⟨Ty.isNumberLike_of_mem_promotions hq, rfl, rfl⟩

/-- A parameter is bound to null. -/
def AnyNull (k : EvalContext) (ss : List Symbol) : Prop :=
  ∃ sym ∈ ss, k.environment.lookup sym.boundName = some .null

theorem anyNull_append {ss ss' : List Symbol} :
    AnyNull k (ss ++ ss') ↔ AnyNull k ss ∨ AnyNull k ss' := by
  simp [AnyNull, or_and_right, exists_or]

/-- What a lifted term comes to: null if a parameter in it is bound to null, and
else a number of the type. -/
structure Yields (host : Host) (k : EvalContext) (ss : List Symbol) (p : Prim) (b : Term)
    (w : Value) : Prop where
  run : Eval.term host b k = (.ok w, k)
  null : AnyNull k ss → w = .null
  holds : ¬ AnyNull k ss → p.Holds w

/-- An operand of an operator is brought to the type of the result. -/
theorem Yields.convertTo {ss' : List Symbol} (h : Lifts ss p a b) (hw : Yields host k ss p b w)
    (hq : q.isNumberLike = true) (hss : ss ⊆ ss') :
    ∃ w', Yields host k ss q (b.convertTo (.lift q (!ss'.isEmpty))) w' := by
  obtain ⟨hp, -, hb⟩ := h.type_eq
  by_cases hnull : AnyNull k ss
  · -- a parameter occurs, so the type is nullable
    obtain rfl := hw.null hnull
    have hne : (!ss'.isEmpty) = true := by
      obtain ⟨sym, hmem, -⟩ := hnull
      have : ss' ≠ [] := List.ne_nil_of_mem (hss hmem)
      simpa using this
    rw [hne]
    exact ⟨.null, Eval.term_convertTo_nullable hw.run, fun _ => rfl, fun h => absurd hnull h⟩
  · have hholds := hw.holds hnull
    have hrun := Eval.term_convertTo_of_not_null hw.run (hholds.not_null hp)
      (.lift q (!ss'.isEmpty))
    by_cases hs : (b.type == Ty.lift q (!ss'.isEmpty)) = true
    · have hpq : p = q := by
        have := Ty.eq_lift_of_beq hs
        rw [hb] at this
        simpa using congrArg Ty.primitive? this
      rw [if_pos hs] at hrun
      exact ⟨w, hrun, fun h => absurd h hnull, fun _ => hpq ▸ hholds⟩
    · obtain ⟨w', hw', hq'⟩ := hholds.convert_ok (n := !ss'.isEmpty) hp hq
      rw [if_neg hs, hw'] at hrun
      exact ⟨w', hrun, fun h => absurd h hnull, fun _ => hq'⟩

/-- **A lifted term comes to null if one of its parameters does**, and else to a
number, where the parameters are bound to values of their lifted types. -/
theorem yields (host : Host) (h : Lifts ss p a b)
    (hk : ∀ sym ∈ ss, ∃ v, k.environment.lookup sym.boundName = some v ∧
      Conforms host sym.lifted.type v) : ∃ w, Yields host k ss p b w := by
  induction h with
  | constant span hp hv => exact ⟨_, rfl, fun h => by simp [AnyNull] at h, fun _ => hv⟩
  | @parameter sym p span hp hs =>
    obtain ⟨v, hl, hv⟩ := hk sym (List.mem_singleton_self sym)
    have hv : v = .null ∨ p.Holds v := by
      have ht : sym.lifted.type = .nullable p := by
        rw [← Ty.lifted_prim hp, ← hs]
        rfl
      rwa [ht] at hv
    have hiff : AnyNull k [sym] ↔ v = .null := by simp [AnyNull, hl]
    refine ⟨v, ?_, hiff.mp, fun h => hv.resolve_left (mt hiff.mpr h)⟩
    show Eval.lookup sym.boundName k = _
    rw [Eval.lookup_apply, hl]
  | @negate ss p q a b span h hq ih =>
    obtain ⟨w, hw⟩ := ih hk
    obtain ⟨v, hv⟩ := hw.convertTo h (Lifts.negate span h hq).type_eq.1 (List.Subset.refl ss)
    have hrun := Eval.term_negate (.lift q (!ss.isEmpty)) span hv.run
    by_cases hnull : AnyNull k ss
    · obtain rfl := hv.null hnull
      exact ⟨.null, hrun, fun _ => rfl, fun h => absurd hnull h⟩
    · obtain ⟨r, hr, hholds⟩ := UnaryOp.apply_holds (Ty.negation?_self hq).1 (hv.holds hnull)
      exact ⟨r, hrun.trans (congrArg (·, k) hr), fun h => absurd h hnull, fun _ => hholds⟩
  | @arithmetic op ss ss' p p' q a a' b b' span ho hd h h' hq ih ih' =>
    have hlike := Ty.isNumberLike_of_mem_promotions hq
    obtain ⟨w, hw⟩ := ih fun sym hmem => hk sym (List.mem_append_left _ hmem)
    obtain ⟨w', hw'⟩ := ih' fun sym hmem => hk sym (List.mem_append_right _ hmem)
    obtain ⟨v, hv⟩ := hw.convertTo h hlike (List.subset_append_left ss ss')
    obtain ⟨v', hv'⟩ := hw'.convertTo h' hlike (List.subset_append_right ss ss')
    have hrun := Eval.term_operation ho (.lift q (!(ss ++ ss').isEmpty)) span hv.run hv'.run
    by_cases hnull : AnyNull k (ss ++ ss')
    · have happly := Operation.apply_null ho ((anyNull_append.mp hnull).imp hv.null hv'.null)
      exact ⟨.null, hrun.trans (congrArg (·, k) happly), fun _ => rfl, fun h => absurd hnull h⟩
    · obtain ⟨hn, hn'⟩ := not_or.mp (mt anyNull_append.mpr hnull)
      obtain ⟨r, hr, hholds⟩ := Operation.apply_holds ho hd hq (hv.holds hn) (hv'.holds hn')
      exact ⟨r, hrun.trans (congrArg (·, k) hr), fun h => absurd h hnull, fun _ => hholds⟩

/-- A term and its lifted form come to the same, which is not null. -/
def Agree (host : Host) (k : EvalContext) (a b : Term) : Prop :=
  ∃ x, Eval.term host a k = (x, k) ∧ Eval.term host b k = (x, k) ∧
    ∀ v, x = .ok v → v.isNull = false

/-- An operand of an operator is brought to the type of the result in both
forms. -/
theorem Agree.convertTo {ss' : List Symbol} (h : Lifts ss p a b) (hab : Agree host k a b)
    (hq : q ∈ Ty.promotions) (hss : ss ⊆ ss') :
    Agree host k (a.convertTo (.prim q)) (b.convertTo (.lift q (!ss'.isEmpty))) := by
  obtain ⟨hp, ha, hb⟩ := h.type_eq
  obtain ⟨x, hra, hrb, hx⟩ := hab
  cases x with
  | error x =>
    exact ⟨.error x, Eval.term_convertTo_of_error hra, Eval.term_convertTo_of_error hrb,
      fun v h => by cases h⟩
  | ok v =>
    have hv := hx v rfl
    have hca := Eval.term_convertTo_of_not_null hra hv (.prim q)
    have hcb := Eval.term_convertTo_of_not_null hrb hv (.lift q (!ss'.isEmpty))
    by_cases hpq : p = q
    · -- of one type a constant alone is converted, to what it is
      subst hpq
      rw [if_pos (by rw [ha]; exact Ty.beq_refl _)] at hca
      refine ⟨.ok v, hca, ?_, hx⟩
      by_cases hs : (b.type == Ty.lift p (!ss'.isEmpty)) = true
      · rwa [if_pos hs] at hcb
      · have hempty : ss = [] := by
          by_contra hne
          have hne' : ss' ≠ [] := fun h => hne (List.subset_nil.mp (h ▸ hss))
          rw [hb, List.isEmpty_eq_false_iff.mpr hne, List.isEmpty_eq_false_iff.mpr hne'] at hs
          exact hs (Ty.beq_refl _)
        obtain ⟨w, hw⟩ := h.yields host (k := k) (by simp [hempty])
        obtain rfl : v = w := Except.ok.inj (Prod.mk.inj (hrb.symm.trans hw.run)).1
        have hholds := hw.holds (by simp [AnyNull, hempty])
        rwa [if_neg hs, hholds.convert_self hq] at hcb
    · have hne (n m : Bool) : ¬ (Ty.lift p n == Ty.lift q m) = true := fun h => hpq (by
        simpa using congrArg Ty.primitive? (Ty.eq_lift_of_beq h))
      have hne' : ¬ (Ty.prim p == Ty.prim q) = true := hne false false
      rw [ha, if_neg hne'] at hca
      rw [hb, if_neg (hne _ _), Value.convert_lift hv] at hcb
      have hlike := Ty.isNumberLike_of_mem_promotions hq
      exact ⟨_, hca, hcb, fun w hw => (Value.holds_of_convert hlike hw).not_null hlike⟩

/-- **A lifted term does what the term does** where no parameter in it is bound to
null. -/
theorem agree (host : Host) (h : Lifts ss p a b)
    (hk : ∀ sym ∈ ss, ∀ v, k.environment.lookup sym.boundName = some v → v.isNull = false) :
    Agree host k a b := by
  induction h with
  | constant span hp hv => exact ⟨_, rfl, rfl, fun v h => by cases h; exact hv.not_null hp⟩
  | @parameter sym p span hp hs =>
    refine ⟨_, Eval.lookup_apply _ k, Eval.lookup_apply _ k, fun v h => ?_⟩
    cases hl : k.environment.lookup sym.boundName with
    | none =>
      rw [hl] at h
      cases h
    | some w =>
      rw [hl] at h
      cases h
      exact hk sym (List.mem_singleton_self sym) v hl
  | @negate ss p q a b span h hq ih =>
    obtain ⟨x, ha, hb, hx⟩ := (ih hk).convertTo h (Ty.negation?_promotes hq) (List.Subset.refl ss)
    refine ⟨_, Eval.term_negate _ _ ha, Eval.term_negate _ _ hb, fun v hv => ?_⟩
    cases x with
    | error => cases hv
    | ok w => exact UnaryOp.apply_not_null (hx w rfl) hv
  | @arithmetic op ss ss' p p' q a a' b b' span ho hd h h' hq ih ih' =>
    obtain ⟨x, ha, hb, hx⟩ := (ih fun sym hm => hk sym (List.mem_append_left _ hm)).convertTo h hq
      (List.subset_append_left ss ss')
    obtain ⟨y, ha', hb', hy⟩ := (ih' fun sym hm => hk sym (List.mem_append_right _ hm)).convertTo
      h' hq (List.subset_append_right ss ss')
    refine ⟨_, Eval.term_operation ho _ _ ha ha', Eval.term_operation ho _ _ hb hb',
      fun v hv => ?_⟩
    cases x with
    | error => cases hv
    | ok w =>
      cases y with
      | error => cases hv
      | ok w' => exact Operation.apply_not_null ho (hx w rfl) (hy w' rfl) hv

end Lifts
end Term
end QueryExpr
