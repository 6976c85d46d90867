/-
# Aggregates of selected values

An aggregate that brings values to one may be given a selector, or it may be
applied to what `Select` makes of the elements. Both go through the same values
in the same order. With a selector the checker converts each value to the type
that sums are taken in, without one only the aggregate does so; for values of
the type that the selector has, both come to the same.

Key definitions: `Aggregate.folds`, `Aggregate.fold`, `Value.SummedAs`,
`Eval.SelectsConforming`.
Key theorems: `Eval.outcome_select`, `Conforms.summedAs`, `Eval.fold_summedAs`,
`Eval.outcome_brought`, `Check.aggregate_selected`.
-/
import QueryExpr.Proofs.BalancedStacks
import QueryExpr.Proofs.LiftedTerms
import QueryExpr.Proofs.PredicateAggregates
import QueryExpr.Proofs.RewrittenCheck
import QueryExpr.Proofs.SafeLambda

namespace QueryExpr

namespace Aggregate

/-- The aggregates that bring values to one: `Sum`, `Average`, `Min` and `Max`. -/
def folds : Aggregate → Bool
  | .sum | .average | .min | .max => true
  | _ => false

/-- What such an aggregate of the given type makes of values. -/
def fold (op : Aggregate) (type : Ty) (values : List Value) : Except EvalError Value :=
  match op with
  | .average => Eval.average type values
  | .min => Eval.extreme .lt type values
  | .max => Eval.extreme .gt type values
  | _ => Eval.sum type values

theorem ofName?_name (op : Aggregate) : ofName? op.name = some op := by
  cases op <;> decide

end Aggregate

namespace Eval

variable {host : Host} {e b : Term} {op : Aggregate} {c d : EvalContext} {t t' : Ty}
  {s s' s'' : Span}

theorem aggregate_of_folds (h : op.folds = true) (items : List Value)
    (body : Option (Eval Value)) (argument : Option Value) (type : Ty) :
    aggregate op items body argument type =
      select body items >>= fun values => ofExcept (op.fold type values) := by
  cases op with
  | sum | average | min | max => rfl
  | _ => cases h

theorem select_none (values : List Value) (c : EvalContext) :
    select none values c = (.ok values, c) := by
  cases values <;> rfl

/-! ### With a selector, and after `Select` -/

/-- **An aggregate of selected values comes to what it comes to with the
selector.** -/
theorem outcome_select (h : op.folds = true) :
    outcome host (.aggregate op (.aggregateBy .select e b t' s') t s) c =
      outcome host (.aggregateBy op e b t s'') c := by
  rcases he : term host e c with ⟨x | v, d⟩
  · simp only [outcome, term, Step.bind_apply, he]
  rcases hv : v.elements host with x | items
  · simp only [outcome, term, Step.bind_apply, he, hv]
    rfl
  have hitems : Yields host e c items d := ⟨v, he, hv⟩
  rcases hs : select (some (term host b)) items d with ⟨x | values, d'⟩
  · have hselect : term host (.aggregateBy .select e b t' s') c = (.error x, d') := by
      rw [hitems.aggregateBy, aggregate, Step.bind_apply, hs]
    rw [outcome, outcome, hitems.aggregateBy, aggregate_of_folds h, Step.bind_apply, hs, term,
      Step.bind_apply, hselect]
  · have hselect : Yields host (.aggregateBy .select e b t' s') c values
        { d' with nextList := d'.nextList + 1 } := by
      refine ⟨.list d'.nextList values, ?_, rfl⟩
      rw [hitems.aggregateBy, aggregate, Step.bind_apply, hs]
      rfl
    rw [outcome, outcome, hitems.aggregateBy, hselect.aggregate, aggregate_of_folds h,
      aggregate_of_folds h, Step.bind_apply, Step.bind_apply, hs, select_none]
    dsimp only
    rw [ofExcept_apply, ofExcept_apply]

end Eval

/-! ### Values in the type that sums are taken in -/

/-- The second value is the first one in the type `u`. It is null just if the first
one is, and it is the same number of the type `total`. -/
structure Value.SummedAs (u total : Ty) (v w : Value) : Prop where
  convert : v.convert u = .ok w
  isNull : w.isNull = v.isNull
  number : v.isNull = false → w.convert total = v.convert total

/-- An integer is the same number whether or not it has been brought to a larger
type before. -/
theorem Prim.Holds.convert_double {s t : IntType} {v w : Value} (hv : (Prim.int s).Holds v)
    (hst : (Prim.int s).widens (.int t) = true) (hw : v.convert (.prim (.int t)) = .ok w) :
    w.convert (.prim .double) = v.convert (.prim .double) := by
  obtain ⟨m, rfl, rfl⟩ := hv
  cases hw
  have hmem : t.min ≤ m.value ∧ m.value ≤ t.max := by
    have := m.mem
    simp [Prim.widens] at hst
    grind
  have hwrap : t.wrap m.value = m.value := IntType.wrap_of_mem hmem
  show Except.ok (Value.scalar (.double (Binary.doubleOfInt (t.wrap m.value)))) = _
  rw [hwrap]
  rfl

/-- Sums are taken in types that operands are promoted to. -/
theorem Aggregate.mem_promotions {q : Prim}
    (h : q ∈ [Prim.int .int32, .int .int64, .single, .double, .decimal]) : q ∈ Ty.promotions := by
  simp only [List.mem_cons, List.not_mem_nil, or_false] at h
  rcases h with rfl | rfl | rfl | rfl | rfl <;> decide

/-- The type of a sum or an average is the one that the sum is taken in, or
`Double` for an average of integers. -/
theorem Aggregate.result?_of_input? {op : Aggregate} {t total : Ty} {q : Prim}
    (hu : op.input? t = some (.lift q t.isNullable)) (ht : op.result? t = some total) :
    ∃ r, total.nonNullable = .prim r ∧ (r = q ∨ r = .double ∧ q.isIntegral = true) := by
  have nonNullable_lift (r : Prim) : (Ty.lift r t.isNullable).nonNullable = .prim r := by
    cases t.isNullable <;> rfl
  cases op with
  | sum =>
    obtain rfl := Option.some.inj (hu.symm.trans ht)
    exact ⟨q, nonNullable_lift q, .inl rfl⟩
  | average =>
    have hu : t.accumulator? = some (.lift q t.isNullable) := hu
    rw [result?, hu, Option.map_some, Ty.isIntegral, Ty.primitive?_lift, Option.any_some] at ht
    cases hq : q.isIntegral <;> rw [hq] at ht <;> cases ht
    · exact ⟨q, nonNullable_lift q, .inl rfl⟩
    · exact ⟨.double, nonNullable_lift .double, .inr ⟨rfl, rfl⟩⟩
  | _ => cases hu

/-- **A value of the selector's type is summed up as what it is converted to.** -/
theorem Conforms.summedAs {host : Host} {op : Aggregate} {t u total : Ty} {v : Value}
    (hu : op.input? t = some u) (ht : op.result? t = some total) (h : Conforms host t v) :
    ∃ w, Value.SummedAs u total.nonNullable v w := by
  obtain ⟨ha, -, -⟩ := Aggregate.input?_cases hu
  obtain ⟨p, q, hp, rfl, hlike, hwidens, hq⟩ := Ty.accumulator?_cases ha
  obtain ⟨r, hr, hrq⟩ := Aggregate.result?_of_input? hu ht
  have hqp : q ∈ Ty.promotions := Aggregate.mem_promotions hq
  rw [hr]
  rw [Ty.eq_lift_of_primitive? hp] at h
  rcases conforms_lift.mp h with ⟨hn, rfl⟩ | hv
  · rw [hn]
    exact ⟨.null, rfl, rfl, fun h => by cases h⟩
  have hnull := hv.not_null hlike
  obtain ⟨w, hw, hqw⟩ := hv.convert_ok hlike (Ty.isNumberLike_of_mem_promotions hqp) (n := false)
  have hw : v.convert (.prim q) = .ok w := hw
  refine ⟨w, by rwa [Value.convert_lift hnull], ?_, fun _ => ?_⟩
  · rw [hnull, hqw.not_null (Ty.isNumberLike_of_mem_promotions hqp)]
  rcases hrq with rfl | ⟨rfl, hint⟩
  · -- a number of the type of summation stays what it is
    exact (hqw.convert_self hqp (n := false)).trans hw.symm
  · obtain ⟨i, rfl⟩ : ∃ i, q = .int i := by
      cases q <;> first | exact ⟨_, rfl⟩ | cases hint
    cases p with
    | int s => exact hv.convert_double hwidens hw
    | char => simp [Ty.accumulator?, hp] at ha
    | single | double | decimal => simp [Prim.widens] at hwidens
    | _ => cases hlike

/-- A value that has the type of summation already stays what it is. -/
theorem Value.SummedAs.eq_of_conforms {host : Host} {t u total : Ty} {v w : Value}
    (h : v.SummedAs u total w) (ha : t.accumulator? = some u) (hself : (t == u) = true)
    (hv : Conforms host t v) : w = v := by
  obtain ⟨p, q, hp, rfl, -, -, hq⟩ := Ty.accumulator?_cases ha
  have hqp : q ∈ Ty.promotions := Aggregate.mem_promotions hq
  have hconvert := h.convert
  rw [Ty.eq_lift_of_beq hself] at hv
  rcases conforms_lift.mp hv with ⟨-, rfl⟩ | hv
  · exact Value.eq_null_of_isNull h.isNull
  · rw [hv.convert_self hqp] at hconvert
    exact (Except.ok.inj hconvert).symm

/-! ### Sums of values in their own type, and in the one of summation -/

namespace Eval

variable {host : Host} {e b : Term} {op : Aggregate} {c d : EvalContext} {t u total : Ty}
  {vs ws items : List Value} {env : Environment}

theorem present_summedAs (h : List.Forall₂ (Value.SummedAs u t) vs ws) :
    List.Forall₂ (fun v w => w.convert t = v.convert t) (present vs) (present ws) := by
  unfold present
  induction h with
  | nil => exact .nil
  | @cons v w vs ws hvw _ ih =>
    rw [List.filter_cons, List.filter_cons, hvw.isNull]
    cases hn : v.isNull
    · exact .cons (hvw.number hn) ih
    · exact ih

theorem addTo_of_number (h : List.Forall₂ (fun v w => w.convert t = v.convert t) vs ws)
    (sum : Value) : addTo t sum ws = addTo t sum vs := by
  induction h generalizing sum with
  | nil => rfl
  | cons hvw _ ih =>
    simp only [addTo, hvw]
    exact bind_congr fun w => bind_congr fun sum => ih sum

/-- **Sums and averages do not depend on whether the values have been brought to
the type of summation before.** -/
theorem fold_summedAs (hu : op.input? t = some u)
    (h : List.Forall₂ (Value.SummedAs u total.nonNullable) vs ws) :
    op.fold total ws = op.fold total vs := by
  have hpresent := present_summedAs h
  have hsum : sum total ws = sum total vs := by
    simp only [sum, addTo_of_number hpresent]
  cases op with
  | sum => exact hsum
  | average => simp only [Aggregate.fold, average, hsum, hpresent.length_eq]
  | _ => cases hu

/-- A value that the selector comes to is brought to the type of summation. -/
theorem term_brought {v : Value} (hu : op.input? b.type = some u)
    (ht : op.result? b.type = some total) (h : term host b c = (.ok v, d))
    (hv : Conforms host b.type v) :
    ∃ w, Value.SummedAs u total.nonNullable v w ∧ term host (op.brought b) c = (.ok w, d) := by
  obtain ⟨w, hw⟩ := hv.summedAs hu ht
  refine ⟨w, hw, ?_⟩
  have hbrought : op.brought b = b.convertTo u := by simp only [Aggregate.brought, hu]
  rw [hbrought]
  unfold Term.convertTo
  split
  · rename_i hself
    rw [h, hw.eq_of_conforms (Aggregate.input?_cases hu).1 hself hv]
  · split
    · rename_i hnull
      obtain ⟨type, span, rfl⟩ : ∃ type span, b = .constant .null type span := by
        unfold Term.isNullConstant at hnull
        split at hnull
        · exact ⟨_, _, rfl⟩
        · cases hnull
      cases h
      rw [Value.eq_null_of_isNull hw.isNull]
      rfl
    · rw [term, Step.bind_apply, h]
      dsimp only
      rw [ofExcept_apply, hw.convert]

theorem term_brought_of_error {x : EvalError} (h : term host b c = (.error x, d)) :
    term host (op.brought b) c = (.error x, d) := by
  unfold Aggregate.brought
  split
  · unfold Term.convertTo
    split
    · exact h
    · split
      · rename_i hnull
        unfold Term.isNullConstant at hnull
        split at hnull
        · cases h
        · cases hnull
      · rw [term, Step.bind_apply, h]
  · exact h

/-- Every value that the selector comes to, for an element of the source, is one of the
selector's type. -/
def SelectsConforming (host : Host) (e b : Term) (c : EvalContext) : Prop :=
  ∀ items d, Yields host e c items d → ∀ v ∈ items, ∀ c' w d',
    c'.environment = c.environment → withElement v (term host b) c' = (.ok w, d') →
      Conforms host b.type w

/-- Evaluated with an element, the body leaves the environment as it is. -/
theorem environment_withElement {v : Value} {r : Except EvalError Value}
    (h : withElement v (term host b) c = (r, d)) : d.environment = c.environment := by
  have := Same.environment (fun env => (same_term host b ((implicitName, v) :: env)).withElement) c
  rwa [h] at this

theorem withElement_brought {v w : Value} (hu : op.input? b.type = some u)
    (ht : op.result? b.type = some total) (h : withElement v (term host b) c = (.ok w, d))
    (hw : Conforms host b.type w) :
    ∃ w', Value.SummedAs u total.nonNullable w w' ∧
      withElement v (term host (op.brought b)) c = (.ok w', d) := by
  unfold withElement at h ⊢
  rcases hb : term host b { c with environment := (implicitName, v) :: c.environment } with ⟨r, d'⟩
  rw [hb] at h
  cases h
  obtain ⟨w', hw', hbrought⟩ := term_brought hu ht hb hw
  exact ⟨w', hw', by rw [hbrought]⟩

theorem withElement_brought_of_error {v : Value} {x : EvalError}
    (h : withElement v (term host b) c = (.error x, d)) :
    withElement v (term host (op.brought b)) c = (.error x, d) := by
  unfold withElement at h ⊢
  rcases hb : term host b { c with environment := (implicitName, v) :: c.environment } with ⟨r, d'⟩
  rw [hb] at h
  cases h
  rw [term_brought_of_error hb]

/-- The two selectors go through the elements alike. -/
theorem select_brought (hu : op.input? b.type = some u) (ht : op.result? b.type = some total)
    (hb : ∀ v ∈ items, ∀ c w d, c.environment = env →
      withElement v (term host b) c = (.ok w, d) → Conforms host b.type w)
    (hc : c.environment = env) :
    (∃ vs ws d, select (some (term host b)) items c = (.ok vs, d) ∧
      select (some (term host (op.brought b))) items c = (.ok ws, d) ∧
      List.Forall₂ (Value.SummedAs u total.nonNullable) vs ws) ∨
    ∃ x d, select (some (term host b)) items c = (.error x, d) ∧
      select (some (term host (op.brought b))) items c = (.error x, d) := by
  induction items generalizing c with
  | nil => exact .inl ⟨[], [], c, rfl, rfl, .nil⟩
  | cons v items ih =>
    have apply_cons (m : Eval Value) : select (some m) (v :: items) c =
        (withElement v m >>= fun w => select (some m) items >>= fun ws => pure (w :: ws)) c := rfl
    rw [apply_cons, apply_cons, Step.bind_apply, Step.bind_apply]
    rcases hv : withElement v (term host b) c with ⟨x | w, d⟩
    · rw [withElement_brought_of_error hv]
      exact .inr ⟨x, d, rfl, rfl⟩
    · obtain ⟨w', hw', hv'⟩ := withElement_brought hu ht hv (hb v List.mem_cons_self c w d hc hv)
      rw [hv']
      dsimp only
      rw [Step.bind_apply, Step.bind_apply]
      rcases ih (fun v hv => hb v (List.mem_cons_of_mem _ hv))
        ((environment_withElement hv).trans hc) with
        ⟨vs, ws, d', hvs, hws, hall⟩ | ⟨x, d', hvs, hws⟩
      · rw [hvs, hws]
        exact .inl ⟨w :: vs, w' :: ws, d', rfl, rfl, .cons hw' hall⟩
      · rw [hvs, hws]
        exact .inr ⟨x, d', rfl, rfl⟩

/-- **The conversion to the type of summation makes no difference** for values of
the selector's type. -/
theorem outcome_brought {s : Span} (hop : op.folds = true) (ht : op.result? b.type = some total)
    (h : op.brought b = b ∨ SelectsConforming host e b c) :
    outcome host (.aggregateBy op e (op.brought b) total s) c =
      outcome host (.aggregateBy op e b total s) c := by
  rcases h with h | h
  · rw [h]
  cases hu : op.input? b.type with
  | none =>
    have hbrought : op.brought b = b := by simp only [Aggregate.brought, hu]
    rw [hbrought]
  | some u =>
    rcases he : term host e c with ⟨x | v, d⟩
    · simp only [outcome, term, Step.bind_apply, he]
    rcases hv : v.elements host with x | items
    · simp only [outcome, term, Step.bind_apply, he, hv]
      rfl
    have hitems : Yields host e c items d := ⟨v, he, hv⟩
    have hd : d.environment = c.environment := by
      have := Same.environment (same_term host e) c
      rwa [he] at this
    rw [outcome, outcome, hitems.aggregateBy, hitems.aggregateBy, aggregate_of_folds hop,
      aggregate_of_folds hop, Step.bind_apply, Step.bind_apply]
    rcases select_brought hu ht (h items d hitems) hd with
      ⟨vs, ws, d', hvs, hws, hall⟩ | ⟨x, d', hvs, hws⟩
    · rw [hvs, hws]
      dsimp only
      rw [ofExcept_apply, ofExcept_apply, fold_summedAs hu hall]
    · rw [hvs, hws]

/-- Over a sound model the selector keeps to its type. -/
theorem selectsConforming_of_typed {D : Discipline} (hD : D.Safe) {scopes : Scopes} {s : Span}
    (hs : scopes.Valued D) (h : Term.Typed D scopes (.aggregateBy .select e b t s))
    (hfits : scopes.Fits host c.environment) : SelectsConforming host e b c := by
  obtain ⟨element, he, helement, hb⟩ : ∃ element, Term.Typed D scopes e ∧
      e.type.element? = some element ∧ Term.Typed D (scopes.push element) b := by
    cases h with
    | aggregateTest _ _ _ _ _ ht => cases ht
    | aggregateSelect he _ helement hb => exact ⟨_, he, helement, hb⟩
  rintro items d ⟨v, hv, hitems⟩ x hx c' w d' hc' hw
  obtain ⟨-, _, -, hok, -⟩ := he.safe hD hs hfits c rfl
  have hconforms := (hok v (by rw [hv])).elements helement
  rw [hitems] at hconforms
  have hadmits := he.admits hD.lawful hs
  have hpush : (scopes.push element).Valued D :=
    hs.push (hadmits.element helement) (hD.lawful.element hadmits.here helement)
  obtain ⟨-, _, -, hok, -⟩ :=
    (hb.safe hD hpush (hfits.push (hconforms x hx))).withElement c' hc'
  exact hok w (by rw [hw])

end Eval

/-! ### Both forms are accepted alike -/

namespace Check

variable {o : Options} {xs f : Expr} {source : Term} {element : Ty}
  {op : Aggregate} {c c₁ : Context}

/-- A call on an expression that has a value calls a method of the value. -/
theorem callOn_of_value (h : value (expr o xs) c = (.ok source, c₁)) (n : Name)
    (arguments : List Expr) (span : Span) :
    expr o (.callOn xs n arguments span) c =
      method source n.text (exprs o arguments) span c₁ := by
  obtain ⟨h, hv⟩ := value_ok h
  rw [expr_callOn]
  exact ofTarget_of_ok h (.inl hv)

/-- With a selector, the aggregate is of what the selector comes to. -/
theorem callOn_bare (hop : op.folds = true) (h : value (expr o xs) c = (.ok source, c₁))
    (helement : source.type.element? = some element) (n span : Span) :
    expr o (.callOn xs ⟨op.name, n⟩ [f] span) c = (body element (expr o f) >>= fun b =>
      match op.result? b.type with
      | some t => pure (.aggregateBy op source (op.brought b) t span)
      | none => fail (.noAggregate op.name source.type.display) span : Check Term) c₁ := by
  rw [callOn_of_value h, method_aggregate helement (Aggregate.ofName?_name op)]
  show aggregate source element op [expr o f] span c₁ = _
  rw [aggregate_one]
  cases op with
  | sum | average | min | max => rfl
  | _ => cases hop

/-- After `Select`, the aggregate is of values of the selector's type. -/
theorem callOn_selected (hop : op.folds = true) (h : value (expr o xs) c = (.ok source, c₁))
    (helement : source.type.element? = some element) (n n' span span' : Span) :
    expr o (.callOn (.callOn xs ⟨"Select", n'⟩ [f] span') ⟨op.name, n⟩ [] span) c =
      (body element (expr o f) >>= fun b =>
        match op.result? b.type with
        | some t => pure (.aggregate op
            (.aggregateBy .select source b (.sequence b.type) span') t span)
        | none => fail (.noAggregate op.name (Ty.sequence b.type).display) span :
          Check Term) c₁ := by
  have hselect : expr o (.callOn xs ⟨"Select", n'⟩ [f] span') c =
      (body element (expr o f) >>= fun b =>
        pure (.aggregateBy .select source b (.sequence b.type) span') : Check Term) c₁ := by
    rw [callOn_of_value h]
    exact congrFun (method_aggregate helement (Aggregate.ofName?_name .select)) c₁
  rw [Step.bind_apply] at hselect ⊢
  rcases hb : body element (expr o f) c₁ with ⟨failure | b, d⟩ <;> rw [hb] at hselect
  · show (value (expr o (.callOn xs ⟨"Select", n'⟩ [f] span')) >>= _) c = _
    rw [Step.bind_apply, value_of_error hselect]
  · rw [callOn_of_value (value_of_ok hselect rfl),
      method_aggregate rfl (Aggregate.ofName?_name op)]
    show aggregate _ b.type op [] span d = _
    rw [aggregate_nil]
    cases op with
    | sum | average | min | max => rfl
    | _ => cases hop

/-- **Main result.** For every source of elements, every selector and each of `Sum`,
`Average`, `Min` and `Max`: the aggregate with the selector is accepted just if the one of
what `Select` makes is, and both have one type. In every environment both come to the
same value, or fail with the same error: for `Min` and `Max` in any case, for `Sum` and
`Average` if the selector needs no conversion to the type of summation, or if what it
comes to are values of its type. So it is wherever values keep to the types of a model,
as they do over a sound one. -/
theorem aggregate_selected (hop : op.folds = true)
    (hsource : value (expr o xs) c = (.ok source, c₁))
    (helement : source.type.element? = some element) (n n₁ n₂ s s₁ s₂ : Span) :
    let bare := expr o (.callOn xs ⟨op.name, n⟩ [f] s) c
    let selected := expr o (.callOn (.callOn xs ⟨"Select", n₁⟩ [f] s₁) ⟨op.name, n₂⟩ [] s₂) c
    (∀ d, (∃ e, bare = (.ok e, d)) ↔ ∃ e, selected = (.ok e, d)) ∧
    ∀ e e' d d', bare = (.ok e, d) → selected = (.ok e', d') →
      e.type = e'.type ∧
      (∃ b, body element (expr o f) c₁ = (.ok b, d) ∧ ∀ (host : Host) (k : EvalContext),
        op = .min ∨ op = .max ∨ op.brought b = b ∨ Eval.SelectsConforming host source b k →
          Eval.outcome host e k = Eval.outcome host e' k) ∧
      ∀ (D : Discipline) (host : Host) (k : EvalContext), D.Safe → c.scopes.Valued D →
        Term.Typed D c.scopes e' → c.scopes.Fits host k.environment →
          Eval.outcome host e k = Eval.outcome host e' k := by
  intro bare selected
  have hbare : bare = _ := callOn_bare hop hsource helement n s
  have hselected : selected = _ := callOn_selected hop hsource helement n₂ n₁ s₂ s₁
  rw [Step.bind_apply] at hbare hselected
  rw [hbare, hselected]
  rcases hb : body element (expr o f) c₁ with ⟨failure | b, d⟩
  · exact ⟨fun d => ⟨nofun, nofun⟩, nofun⟩
  dsimp only
  cases ht : op.result? b.type with
  | none => exact ⟨fun d => ⟨nofun, nofun⟩, nofun⟩
  | some t =>
    have same (host : Host) (k : EvalContext)
        (h : op.brought b = b ∨ Eval.SelectsConforming host source b k) :
        Eval.outcome host (.aggregateBy op source (op.brought b) t s) k =
          Eval.outcome host
            (.aggregate op (.aggregateBy .select source b (.sequence b.type) s₁) t s₂) k := by
      rw [Eval.outcome_brought hop ht h, Eval.outcome_select hop]
    refine ⟨fun d' => ⟨?_, ?_⟩, ?_⟩
    · rintro ⟨e, h⟩
      cases h
      exact ⟨_, rfl⟩
    · rintro ⟨e, h⟩
      cases h
      exact ⟨_, rfl⟩
    · rintro e e' d₁ d₂ h h'
      cases h
      cases h'
      refine ⟨rfl, ⟨b, rfl, fun host k h => same host k ?_⟩, fun D host k hD hs he hfits =>
        same host k ?_⟩
      · rcases h with rfl | rfl | h
        · exact .inl rfl
        · exact .inl rfl
        · exact h
      · cases he with
        | aggregate hselect => exact .inr (Eval.selectsConforming_of_typed hD hs hselect hfits)

/-- The sum of bytes, with a selector and after `Select`. -/
theorem aggregate_selected_bytes :
    let byte : Ty := .prim (.int .byte)
    let t : ParameterTable := ⟨[⟨"xs", .sequence byte⟩], none⟩
    let c : Context := ⟨.empty, .ofTable t⟩
    let xs : Expr := .name ⟨"xs", ⟨0, 2⟩⟩
    let it : Expr := .name ⟨"it", ⟨7, 2⟩⟩
    let source : Term := .parameter "xs" (.sequence byte) ⟨0, 2⟩
    let b : Term := .parameter "it" byte ⟨7, 2⟩
    let e : Term := .aggregateBy .sum source (.convert b .int32 ⟨7, 2⟩) .int32 ⟨0, 10⟩
    let e' : Term := .aggregate .sum (.aggregateBy .select source b (.sequence byte) ⟨0, 13⟩)
      .int32 ⟨0, 19⟩
    let values : List Value := [.scalar (.int (.wrap .byte 250)), .scalar (.int (.wrap .byte 8))]
    expr {} (.callOn xs ⟨"Sum", ⟨3, 3⟩⟩ [it] ⟨0, 10⟩) c = (.ok e, c) ∧
      expr {} (.callOn (.callOn xs ⟨"Select", ⟨3, 6⟩⟩ [it] ⟨0, 13⟩) ⟨"Sum", ⟨14, 3⟩⟩ [] ⟨0, 19⟩) c =
        (.ok e', c) ∧
      ∀ host : Host, Eval.outcome host e ⟨[("xs", .list 0 values)], 1, []⟩ =
        Eval.outcome host e' ⟨[("xs", .list 0 values)], 1, []⟩ := by
  intro byte t c xs it source b e e' values
  have hxs : xs.check {} t .empty = (.ok source, .empty) := by with_unfolding_all rfl
  have hbare : (Expr.callOn xs ⟨"Sum", ⟨3, 3⟩⟩ [it] ⟨0, 10⟩).check {} t .empty =
      (.ok e, .empty) := by with_unfolding_all rfl
  have hselected : (Expr.callOn (.callOn xs ⟨"Select", ⟨3, 6⟩⟩ [it] ⟨0, 13⟩) ⟨"Sum", ⟨14, 3⟩⟩ []
      ⟨0, 19⟩).check {} t .empty = (.ok e', .empty) := by with_unfolding_all rfl
  have hsource : value (expr {} xs) c = (.ok source, c) := value_of_ok (expr_of_check hxs) rfl
  refine ⟨expr_of_check hbare, expr_of_check hselected, fun host => ?_⟩
  -- a model without classes and records, in which types are told apart by their form
  have occurs {u : Ty} (h : Ty.Occurs [] u) : False := by
    obtain ⟨t, ht, -⟩ := h
    cases ht
  have hm : SoundModel [] .empty :=
    ⟨fun h => (occurs h).elim, fun h => (occurs h).elim, fun h => (occurs h).elim⟩
  have hD : (Discipline.safe [] .empty).Safe := hm.safe .refl nofun
  have hbyte := hD.lawful.admits_prim (.int .byte)
  have hvalued : c.scopes.Valued (.safe [] .empty) := by
    refine ⟨fun d hd => ?_, nofun⟩
    rw [List.mem_singleton.mp hd]
    exact ⟨hD.lawful.admits_sequence hbyte rfl, rfl⟩
  have hname : "xs" ≠ implicitName := by decide
  have hxsd : c.scopes.Denotes (.safe [] .empty) ⟨"xs", .parameter 0, .sequence byte⟩ :=
    .inr ⟨"xs", hname, by with_unfolding_all rfl, rfl⟩
  have hitd : (c.scopes.push byte).Denotes (.safe [] .empty) ⟨"", .parameter 0, byte⟩ := .inl rfl
  have hsourceTyped : Term.Typed (.safe [] .empty) c.scopes source := Term.Typed.parameter hxsd
  have hb : Term.Typed (.safe [] .empty) (c.scopes.push byte) b := Term.Typed.parameter hitd
  have htyped : Term.Typed (.safe [] .empty) c.scopes e' :=
    .aggregate (.aggregateSelect hsourceTyped rfl rfl hb rfl rfl nofun) rfl rfl rfl
  have hfits : c.scopes.Fits host [("xs", .list 0 values)] := by
    have hargs : ConformsAll host (t.parameters.map (·.type)) [.list 0 values] := by
      refine ⟨_, [], rfl, .inr (.inl ⟨0, values, rfl, fun v hv => ?_⟩), rfl⟩
      rcases List.mem_cons.mp hv with rfl | hv
      · exact ⟨_, rfl, rfl⟩
      · rw [List.mem_singleton.mp hv]
        exact ⟨_, rfl, rfl⟩
    exact Scopes.fits_ofTable rfl (by decide) hargs []
  have hsum : Aggregate.sum.folds = true := rfl
  obtain ⟨-, hsame⟩ := aggregate_selected (f := it) hsum hsource rfl ⟨3, 3⟩ ⟨3, 6⟩ ⟨14, 3⟩
    ⟨0, 10⟩ ⟨0, 13⟩ ⟨0, 19⟩
  obtain ⟨-, -, hsound⟩ := hsame _ _ _ _ (expr_of_check hbare) (expr_of_check hselected)
  exact hsound _ host _ hD hvalued htyped hfits

/-- A class may be declared to extend `Byte`. Its null is an element of a sequence of
bytes then: the conversion that the checker makes for the selector fails on it, while the
sum of the selected values skips it. -/
theorem sum_selected_null :
    let byte : Ty := .prim (.int .byte)
    let small : Ty := .cls "C" [] [] [] none (some byte) false
    let t : ParameterTable := ⟨[⟨"cs", .sequence small⟩, ⟨"bs", .sequence byte⟩], none⟩
    let xs : Expr := .index (.newArray none [.name ⟨"cs", ⟨7, 2⟩⟩, .name ⟨"bs", ⟨11, 2⟩⟩] ⟨1, 13⟩)
      [.literal (.integer 0 false .none) "0" ⟨16, 1⟩] ⟨0, 18⟩
    let it : Expr := .name ⟨"it", ⟨23, 2⟩⟩
    let arguments : List Value := [.list 0 [.null], .list 1 []]
    let k : EvalContext := ⟨["cs", "bs"].zip arguments, 2, []⟩
    ∃ e e', (Expr.callOn xs ⟨"Sum", ⟨19, 3⟩⟩ [it] ⟨0, 26⟩).check {} t .empty = (.ok e, .empty) ∧
      (Expr.callOn (.callOn xs ⟨"Select", ⟨19, 6⟩⟩ [it] ⟨0, 29⟩) ⟨"Sum", ⟨30, 3⟩⟩ []
        ⟨0, 35⟩).check {} t .empty = (.ok e', .empty) ∧
      e.type = .int32 ∧ e'.type = .int32 ∧
      ∀ host : Host, ConformsAll host (t.parameters.map (·.type)) arguments ∧
        Eval.outcome host e k = .error (.nullReference "conversion to 'Int32'") ∧
        Eval.outcome host e' k = .ok (.int32 0) := by
  intro byte small t xs it arguments k
  refine ⟨_, _, by with_unfolding_all rfl, by with_unfolding_all rfl, rfl, rfl,
    fun host => ⟨?_, rfl, rfl⟩⟩
  refine ⟨_, _, rfl, .inr (.inl ⟨0, [.null], rfl, fun v hv => ?_⟩),
    ⟨_, [], rfl, .inr (.inl ⟨1, [], rfl, nofun⟩), rfl⟩⟩
  rw [List.mem_singleton.mp hv]
  exact .inl ⟨rfl, rfl⟩

end Check

end QueryExpr
