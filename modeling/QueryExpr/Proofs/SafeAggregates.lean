/-
# Aggregates are safe

Over elements of the declared type, an aggregate with a safe body is safe.
Tests come to truth values for every element; sums and averages work on
numbers of one type; the least and the greatest of values is one of them. An
element that is asked for and not there is an error that may be expected, or
the value that stands for none.

Key definitions: `Eval.SafeBody`.
Key theorems: `Eval.sum_fine`, `Eval.average_fine`, `Eval.extreme_fine`,
`Eval.safe_plain`, `Eval.safe_tested`, `Eval.safe_selected`,
`Eval.safe_taken`.
-/
import QueryExpr.Proofs.SafeEval

namespace QueryExpr

variable {host : Host} {env : Environment} {t u : Ty} {vs : List Value}

/-- Without value classes there is null in all types but the primitive ones. -/
theorem Ty.acceptsNull_or (h : t.isValueClass = false) :
    t.acceptsNull = true ∨ t = .void ∨ ∃ p : Prim, t = .prim p ∧ p.isValueType = true := by
  cases t with
  | prim p => cases hp : p.isValueType <;> simp_all [acceptsNull]
  | void => exact .inr (.inl rfl)
  | cls => exact .inl (by simpa [acceptsNull, isValueClass] using h)
  | _ => exact .inl rfl

/-- What stands for no element of a type is one. -/
theorem conforms_default (hv : t.isVoid = false) (hc : t.isValueClass = false) :
    Conforms host t (.default t) := by
  rcases Ty.acceptsNull_or hc with hn | rfl | ⟨p, rfl, hp⟩
  · have hd : Value.default t = .null := by
      cases t with
      | prim p => cases p <;> first | rfl | cases hn
      | _ => rfl
    rw [hd]
    exact conforms_null hn
  · cases hv
  · cases p with
    | boolean => exact ⟨false, rfl⟩
    | int t => exact ⟨_, rfl, rfl⟩
    | char | single | double | decimal => exact ⟨_, rfl⟩
    | string | object => cases hp

namespace Eval

/-! ### Numbers -/

theorem present_holds {p : Prim} {n : Bool} (h : ∀ v ∈ vs, Conforms host (.lift p n) v) :
    ∀ v ∈ present vs, p.Holds v := by
  intro v hv
  obtain ⟨hv, hn⟩ := List.mem_filter.mp hv
  rcases conforms_lift.mp (h v hv) with ⟨-, rfl⟩ | h
  · cases hn
  · exact h

/-- Numbers are added up in a type of numbers. -/
theorem addTo_fine {p q : Prim} (hp : p.isNumberLike = true) (hq : q ∈ Ty.promotions)
    (h : ∀ v ∈ vs, p.Holds v) {total : Value} (ht : q.Holds total) :
    Fine q.Holds (addTo (.prim q) total vs) := by
  induction vs generalizing total with
  | nil => exact ht
  | cons v vs ih =>
    have hq' := Ty.isNumberLike_of_mem_promotions hq
    have hv : Fine q.Holds (v.convert (.prim q)) := (h v List.mem_cons_self).convert (m := false) hp hq'
    refine hv.bind fun w hw => ?_
    have hadd : Fine q.Holds (Operation.add.apply total w) := Operation.holds_arithmetic rfl hq ht hw
    exact hadd.bind fun total ht => ih (fun a ha => h a (List.mem_cons_of_mem _ ha)) ht

theorem sum_fine {p q : Prim} {n m : Bool} (hp : p.isNumberLike = true) (hq : q ∈ Ty.promotions)
    (h : ∀ v ∈ vs, Conforms host (.lift p n) v) : Fine q.Holds (sum (.lift q m) vs) := by
  have hq' := Ty.isNumberLike_of_mem_promotions hq
  have hn : (Ty.lift q m).nonNullable = .prim q := by cases m <;> rfl
  have hzero : Fine q.Holds ((Value.int32 0).convert (.prim q)) :=
    Prim.Holds.convert (p := .int .int32) (m := false) rfl hq' ⟨_, rfl, rfl⟩
  unfold sum
  rw [hn]
  exact hzero.bind fun zero hz => addTo_fine hp hq (present_holds h) hz

/-- The average of numbers is one of the type, or there is none. -/
theorem average_fine {p q : Prim} {n m : Bool} (hp : p.isNumberLike = true)
    (hq : q ∈ Ty.promotions) (h : ∀ v ∈ vs, Conforms host (.lift p n) v) :
    Fine (Conforms host (.lift q m)) (average (.lift q m) vs) := by
  have hq' := Ty.isNumberLike_of_mem_promotions hq
  have hn : (Ty.lift q m).nonNullable = .prim q := by cases m <;> rfl
  unfold average
  refine (sum_fine hp hq h).bind fun total ht => ?_
  dsimp only
  split
  · rw [Ty.isNullable_lift]
    cases m with
    | true => exact conforms_lift.mpr (.inl ⟨rfl, rfl⟩)
    | false => rfl
  · rw [hn]
    have hd (k : Int) :
        Fine q.Holds ((Value.scalar (.int (.wrap .int64 k))).convert (.prim q)) :=
      Prim.Holds.convert (p := .int .int64) (m := false) rfl hq' ⟨_, rfl, rfl⟩
    refine (hd _).bind fun divisor hw => ?_
    have hdiv : Fine q.Holds (Operation.divide.apply total divisor) :=
      Operation.holds_arithmetic rfl hq ht hw
    exact hdiv.mono fun v hv => conforms_lift.mpr (.inr hv)

theorem outermost_mem (o : Ordering) : ∀ (v : Value) (vs : List Value), outermost o v vs ∈ v :: vs
  | v, [] => List.mem_singleton_self v
  | v, w :: ws => by
    unfold outermost
    split
    · exact List.mem_cons_of_mem _ (outermost_mem o w ws)
    · rcases List.mem_cons.mp (outermost_mem o v ws) with h | h
      · rw [h]
        exact List.mem_cons_self
      · exact List.mem_cons_of_mem _ (List.mem_cons_of_mem _ h)

/-- The least or the greatest of values is one of them, or there is none. -/
theorem extreme_fine (o : Ordering) (h : ∀ v ∈ vs, Conforms host t v) :
    Fine (Conforms host t) (extreme o t vs) := by
  unfold extreme
  split
  · rename_i v ws hvs
    have hm : outermost o v ws ∈ present vs := by
      rw [hvs]
      exact outermost_mem o v ws
    exact h _ (List.mem_filter.mp hm).1
  · split
    · rename_i hn
      exact conforms_null hn
    · rfl

/-! ### Bodies -/

/-- The body is safe for every element, and comes to what is wanted. -/
def SafeBody (host : Host) (env : Environment) (t : Ty) (Q : Value → Prop) :
    Option (Eval Value) → Prop
  | none => True
  | some m => ∀ v, Conforms host t v → Safe host ((implicitName, v) :: env) Q m

variable {body : Option (Eval Value)}

section Tests

variable (hb : SafeBody host env t (Conforms host .boolean) body)
  (h : ∀ v ∈ vs, Conforms host t v)
include hb

theorem safe_accepts {v : Value} (hv : Conforms host t v) :
    Safe host env (fun _ => True) (accepts body v) := by
  cases body with
  | none => exact safe_pure trivial
  | some m =>
    refine (hb v hv).withElement.bind fun w hw => ?_
    obtain ⟨b, rfl⟩ := hw
    exact safe_pure trivial

include h

theorem safe_findFirst :
    Safe host env (fun r => ∀ v, r = some v → Conforms host t v) (findFirst body vs) := by
  induction vs with
  | nil => exact safe_pure fun v hv => by cases hv
  | cons v vs ih =>
    have hv := h v List.mem_cons_self
    refine (safe_accepts hb hv).bind fun b _ => ?_
    refine Safe.ite (safe_pure fun w hw => ?_) (ih fun w hw => h w (List.mem_cons_of_mem _ hw))
    cases hw
    exact hv

theorem safe_holdsForAll : Safe host env (fun _ => True) (holdsForAll body vs) := by
  induction vs with
  | nil => exact safe_pure trivial
  | cons v vs ih =>
    refine (safe_accepts hb (h v List.mem_cons_self)).bind fun b _ => ?_
    exact Safe.ite (ih fun w hw => h w (List.mem_cons_of_mem _ hw)) (safe_pure trivial)

theorem safe_count : Safe host env (fun _ => True) (count body vs) := by
  induction vs with
  | nil => exact safe_pure trivial
  | cons v vs ih =>
    refine (safe_accepts hb (h v List.mem_cons_self)).bind fun b _ => ?_
    exact (ih fun w hw => h w (List.mem_cons_of_mem _ hw)).bind fun n _ => safe_pure trivial

theorem safe_filter :
    Safe host env (fun ws => ∀ w ∈ ws, Conforms host t w) (filter body vs) := by
  induction vs with
  | nil => exact safe_pure (List.forall_mem_nil _)
  | cons v vs ih =>
    have hv := h v List.mem_cons_self
    refine (safe_accepts hb hv).bind fun b _ => ?_
    refine (ih fun w hw => h w (List.mem_cons_of_mem _ hw)).bind fun ws hws => ?_
    cases b
    · exact safe_pure hws
    · exact safe_pure (List.forall_mem_cons.mpr ⟨hv, hws⟩)

end Tests

theorem safe_select {Q : Value → Prop} {m : Eval Value} (hb : SafeBody host env t Q (some m))
    (h : ∀ v ∈ vs, Conforms host t v) :
    Safe host env (fun ws => ∀ w ∈ ws, Q w) (select (some m) vs) := by
  induction vs with
  | nil => exact safe_pure (List.forall_mem_nil _)
  | cons v vs ih =>
    refine (hb v (h v List.mem_cons_self)).withElement.bind fun w hw => ?_
    refine (ih fun w hw => h w (List.mem_cons_of_mem _ hw)).bind fun ws hws => ?_
    exact safe_pure (List.forall_mem_cons.mpr ⟨hw, hws⟩)

theorem mem_sortedBy {compare : Value → Value → Ordering} {keys : List Value} {v : Value}
    (h : v ∈ sortedBy compare keys vs) : v ∈ vs := by
  obtain ⟨⟨k, w⟩, hm, rfl⟩ := List.mem_map.mp h
  exact (List.of_mem_zip ((Ordering.stableSort_perm _ _).mem_iff.mp hm)).2

/-! ### Aggregates -/

variable {op : Aggregate}

theorem conforms_list {id : Nat} (h : ∀ v ∈ vs, Conforms host t v) :
    Conforms host (.sequence t) (.list id vs) := .inr (.inl ⟨id, vs, rfl, h⟩)

/-- What numbers come to is of the type of the aggregate. -/
theorem safe_result (hr : op.result? u = some t)
    (hs : Safe host env (fun ws => ∀ w ∈ ws, Conforms host u w) (select body vs)) :
    Safe host env (Conforms host t) (aggregate op vs body none t) := by
  have promotion {q : Prim} (hq : q ∈ [Prim.int .int32, .int .int64, .single, .double, .decimal]) :
      q ∈ Ty.promotions := by
    simp only [List.mem_cons, List.not_mem_nil, or_false] at hq
    rcases hq with rfl | rfl | rfl | rfl | rfl <;> simp [Ty.promotions]
  unfold Aggregate.result? at hr
  split at hr
  · obtain ⟨p, q, hp, rfl, hn, -, hq⟩ := Ty.accumulator?_cases hr
    rw [Ty.eq_lift_of_primitive? hp] at hs
    refine hs.bind fun ws hws => safe_ofExcept ?_
    exact (sum_fine hn (promotion hq) hws).mono fun v hv => conforms_lift.mpr (.inr hv)
  · obtain ⟨a, ha, hat⟩ := Option.map_eq_some_iff.mp hr
    obtain ⟨p, q, hp, rfl, hn, -, hq⟩ := Ty.accumulator?_cases ha
    have ht : ∃ q' ∈ Ty.promotions, t = .lift q' u.isNullable := by
      split at hat
      · exact ⟨.double, by simp [Ty.promotions], hat.symm⟩
      · exact ⟨q, promotion hq, hat.symm⟩
    obtain ⟨q', hq', rfl⟩ := ht
    rw [Ty.eq_lift_of_primitive? hp] at hs
    exact hs.bind fun ws hws => safe_ofExcept (average_fine hn hq' hws)
  · split at hr <;> cases hr
    exact hs.bind fun ws hws => safe_ofExcept (extreme_fine .lt hws)
  · split at hr <;> cases hr
    exact hs.bind fun ws hws => safe_ofExcept (extreme_fine .gt hws)
  · cases hr

/-- The first element, which has to be there. -/
theorem safe_first (hb : SafeBody host env t (Conforms host .boolean) body)
    (h : ∀ v ∈ vs, Conforms host t v) :
    Safe host env (Conforms host t) (aggregate .first vs body none t) := by
  refine (safe_findFirst hb h).bind fun r hr => ?_
  cases r with
  | none => exact safe_throw rfl
  | some v => exact safe_pure (hr v rfl)

theorem safe_firstOrDefault (hb : SafeBody host env t (Conforms host .boolean) body)
    (h : ∀ v ∈ vs, Conforms host t v) (hv : t.isVoid = false) (hc : t.isValueClass = false) :
    Safe host env (Conforms host t) (aggregate .firstOrDefault vs body none t) := by
  refine (safe_findFirst hb h).bind fun r hr => ?_
  cases r with
  | none => exact safe_pure (conforms_default hv hc)
  | some v => exact safe_pure (hr v rfl)

/-- **An aggregate without an argument is safe.** -/
theorem safe_plain (hv : t.isVoid = false) (hc : t.isValueClass = false)
    (ho : op.plain? t = some u) (h : ∀ v ∈ vs, Conforms host t v) :
    Safe host env (Conforms host u) (aggregate op vs none none u) := by
  have hb : SafeBody host env t (Conforms host .boolean) none := trivial
  have result (hr : op.result? t = some u) :
      Safe host env (Conforms host u) (aggregate op vs none none u) := by
    refine safe_result hr ?_
    have hs : select none vs = pure vs := by cases vs <;> rfl
    rw [hs]
    exact safe_pure h
  unfold Aggregate.plain? at ho
  split at ho
  · cases ho
    exact (safe_findFirst hb h).bind fun r _ => safe_pure ⟨_, rfl⟩
  · cases ho
    exact (safe_count hb h).bind fun n _ => safe_pure ⟨_, rfl, rfl⟩
  · cases ho
    exact safe_first hb h
  · cases ho
    exact safe_firstOrDefault hb h hv hc
  · exact result ho
  · exact result ho
  · exact result ho
  · exact result ho
  · cases ho

/-- **An aggregate with a safe test is safe.** -/
theorem safe_tested {m : Eval Value} (hv : t.isVoid = false) (hc : t.isValueClass = false)
    (ho : op.tested? t = some u) (hb : SafeBody host env t (Conforms host .boolean) (some m))
    (h : ∀ v ∈ vs, Conforms host t v) :
    Safe host env (Conforms host u) (aggregate op vs (some m) none u) := by
  unfold Aggregate.tested? at ho
  split at ho <;> cases ho
  · exact (safe_findFirst hb h).bind fun r _ => safe_pure ⟨_, rfl⟩
  · exact (safe_holdsForAll hb h).bind fun r _ => safe_pure ⟨_, rfl⟩
  · exact (safe_count hb h).bind fun n _ => safe_pure ⟨_, rfl, rfl⟩
  · exact (safe_filter hb h).bind fun ws hws => safe_newList fun id => conforms_list hws
  · exact safe_first hb h
  · exact safe_firstOrDefault hb h hv hc

/-- **An aggregate with a safe selector is safe.** -/
theorem safe_selected {w : Ty} {m : Eval Value} (ho : op.selected? t w = some u)
    (hb : SafeBody host env t (Conforms host w) (some m)) (h : ∀ v ∈ vs, Conforms host t v) :
    Safe host env (Conforms host u) (aggregate op vs (some m) none u) := by
  have hs := safe_select hb h
  unfold Aggregate.selected? at ho
  split at ho
  · cases ho
    exact hs.bind fun ws hws => safe_newList fun id => conforms_list hws
  · cases ho
    exact hs.bind fun keys _ => safe_newList fun id => conforms_list fun v hv =>
      h v (mem_sortedBy hv)
  · cases ho
    exact hs.bind fun keys _ => safe_newList fun id => conforms_list fun v hv =>
      h v (mem_sortedBy hv)
  · exact safe_result ho hs
  · exact safe_result ho hs
  · exact safe_result ho hs
  · exact safe_result ho hs
  · cases ho

/-- **An aggregate with a value is safe.** -/
theorem safe_taken {w : Ty} {v : Value} (ho : op.taken? t = some (w, u))
    (h : ∀ v ∈ vs, Conforms host t v) :
    Safe host env (Conforms host u) (aggregate op vs none (some v) u) := by
  unfold Aggregate.taken? at ho
  split at ho <;> cases ho
  · exact safe_newList fun id => conforms_list fun x hx => h x (List.mem_of_mem_take hx)
  · exact safe_newList fun id => conforms_list fun x hx => h x (List.mem_of_mem_drop hx)
  · exact safe_pure ⟨_, rfl⟩

end Eval
end QueryExpr
