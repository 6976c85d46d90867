/-
# Evaluating again

Where one evaluation fails, another that is started beside it fails with the same
error, if both work on alike values and the host refuses alike what is asked alike. So
a checked expression that comes to values without parts comes to the same every time
it is evaluated in an environment, whatever else has been evaluated in between: to the
same value, or to the same error.

Key definitions: `Eval.Aligned`, `Eval.Fails`, `Eval.Comes`.
Key theorems: `Eval.Fails.bind`, `Eval.fails_aggregate`, `Eval.fails_term`,
`Eval.environment_of_ok`, `Eval.comes_of_flat`.
-/
import QueryExpr.Proofs.AlikeErrors
import QueryExpr.Proofs.ChainedOrdering

namespace QueryExpr

/-! ### The same numbers -/

namespace Value

mutual
theorem alike_self : ∀ v : Value, v.Alike Eq v
  | .scalar _ | .object _ _ | .function _ => rfl
  | .list i vs => ⟨i, vs, rfl, rfl, alikeAll_self vs⟩
  | .record _ vs => ⟨vs, rfl, alikeAll_self vs⟩

theorem alikeAll_self : ∀ vs : List Value, AlikeAll Eq vs vs
  | [] => rfl
  | v :: vs => ⟨v, vs, rfl, alike_self v, alikeAll_self vs⟩
end

mutual
theorem Alike.eq : ∀ {v w : Value}, v.Alike Eq w → w = v
  | .scalar _, _, h | .object _ _, _, h | .function _, _, h => h
  | .list _ _, _, ⟨_, _, hw, hij, hvs⟩ => by rw [hw, hij, AlikeAll.eq hvs]
  | .record _ _, _, ⟨_, hw, hvs⟩ => by rw [hw, AlikeAll.eq hvs]

theorem AlikeAll.eq : ∀ {vs ws : List Value}, AlikeAll Eq vs ws → ws = vs
  | [], _, h => h
  | _ :: _, _, ⟨_, _, hw, hv, hvs⟩ => by rw [hw, Alike.eq hv, AlikeAll.eq hvs]
end

end Value

namespace Eval

open Value (Alike AlikeAll)

/-- What is bound in the first context is bound alike in the second, and nothing else
is bound there. -/
structure Aligned (R : Nat → Nat → Prop) (c c' : EvalContext) : Prop extends Beside R c c' where
  unbound : ∀ name, c.environment.lookup name = none → c'.environment.lookup name = none

/-- Whenever the first evaluation fails, the second one, started beside it, fails with
the same error. -/
def Fails {α β : Type} (R : Nat → Nat → Prop) (m : Eval α) (m' : Eval β) : Prop :=
  ∀ c c', Aligned R c c' → ∀ e d, m c = (.error e, d) → ∃ d', m' c' = (.error e, d')

variable {R : Nat → Nat → Prop}

theorem Aligned.after {c c' d d' : EvalContext} (h : Aligned R c c') (h' : Abreast c c' d d') :
    Aligned R d d' := by
  refine ⟨h.toBeside.after h', ?_⟩
  rw [h'.left, h'.right]
  exact h.unbound

theorem Aligned.withElement {c c' : EvalContext} (h : Aligned R c c') {v w : Value}
    (hvw : v.Alike R w) :
    Aligned R { c with environment := (implicitName, v) :: c.environment }
      { c' with environment := (implicitName, w) :: c'.environment } := by
  refine ⟨h.toBeside.withElement hvw, fun name hn => ?_⟩
  simp only [List.lookup_cons] at hn ⊢
  split at hn
  · cases hn
  · exact h.unbound name hn

namespace Fails

variable {α β γ δ : Type} {Q : α → β → Prop} {m : Eval α} {m' : Eval β}

theorem pure (a : α) : Fails R (pure a) m' := fun _ _ _ _ _ heq => by cases heq

theorem throw (e : EvalError) : Fails R (throw e : Eval α) (throw e : Eval β) :=
  fun _ c' _ _ _ heq => by
    cases heq
    exact ⟨c', rfl⟩

theorem ofExcept {x : Except EvalError α} {y : Except EvalError β} (h : Echoes x y) :
    Fails R (ofExcept x) (ofExcept y) := by
  cases x with
  | ok a => exact pure a
  | error e =>
    rw [h e rfl]
    exact throw e

theorem bind {f : α → Eval γ} {g : β → Eval δ} (h : Mirrors R Q m m') (hm : Fails R m m')
    (hf : ∀ a b, Q a b → Fails R (f a) (g b)) : Fails R (m >>= f) (m' >>= g) := by
  intro c c' hc e d heq
  rw [Step.bind_apply] at heq
  rw [Step.bind_apply]
  rcases hmc : m c with ⟨x | a, c₁⟩ <;> rw [hmc] at heq
  · obtain ⟨d', hd'⟩ := hm c c' hc x c₁ hmc
    rw [hd']
    cases heq
    exact ⟨d', rfl⟩
  · obtain ⟨b, c₁', hm', hab, h₁⟩ := h c c' hc.toBeside a c₁ hmc
    rw [hm']
    exact hf a b hab c₁ c₁' (hc.after h₁) e d heq

theorem newList (vs : List Value) : Fails R (newList vs) m' := fun _ _ _ _ _ heq => by cases heq

theorem ask {event event' : Event} {x y : Except EvalError Value} (h : Echoes x y) :
    Fails R (ask event x) (ask event' y) := by
  intro c c' _ e d heq
  cases x with
  | ok v => cases heq
  | error e' =>
    cases heq
    rw [h _ rfl]
    exact ⟨_, rfl⟩

theorem lookup (name : String) : Fails R (lookup name) (lookup name) := by
  intro c c' hc e d heq
  rw [lookup_apply] at heq ⊢
  cases hv : c.environment.lookup name with
  | some v => rw [hv] at heq; cases heq
  | none =>
    rw [hv] at heq
    cases heq
    exact ⟨c', by rw [hc.unbound name hv]⟩

/-- What a body fails with for an element. -/
theorem withElement {v w : Value} (hvw : v.Alike R w) (h : Fails R m m') :
    Fails R (withElement v m) (withElement w m') := by
  intro c c' hc e d heq
  have herror : (m { c with environment := (implicitName, v) :: c.environment }).1 = .error e :=
    congrArg Prod.fst heq
  obtain ⟨d', hd'⟩ := h _ _ (hc.withElement hvw) e _ (Prod.ext herror rfl)
  have herror' : (m' { c' with environment := (implicitName, w) :: c'.environment }).1 = .error e :=
    congrArg Prod.fst hd'
  exact ⟨_, Prod.ext herror' rfl⟩

end Fails

/-! ### Access -/

section Access

variable {host : Host} {v w : Value} {vs ws : List Value} (hh : host.RefusesAlike R)
include hh

theorem fails_index (hv : v.Alike R w) (hs : AlikeAll R vs ws) :
    Fails R (index host v vs) (index host w ws) := by
  unfold index
  rcases hv.cases with ⟨s, rfl, rfl⟩ | ⟨_, _, _, _, rfl, rfl, -, hi⟩ | ⟨_, _, _, rfl, rfl, -⟩ |
    ⟨id, typeName, rfl, rfl⟩ | ⟨_, rfl, rfl⟩
  · cases s with
    | string s =>
      dsimp only
      rw [Value.itemAt_text_alike _ hs]
      exact .ofExcept (.of_eq rfl)
    | _ => exact .throw _
  · exact .ofExcept (Value.itemAt_echoes hi hs)
  · exact .throw _
  · exact .ask (hh.index hs)
  · exact .throw _

theorem fails_call (hv : v.Alike R w) (method : String) (hs : AlikeAll R vs ws) :
    Fails R (call host v method vs) (call host w method ws) := by
  have hnull := hv.isNull
  have hname := hv.typeName
  unfold call
  rcases hv.cases with ⟨s, rfl, rfl⟩ | ⟨_, _, _, _, rfl, rfl, -⟩ | ⟨_, _, _, rfl, rfl, -⟩ |
    ⟨id, typeName, rfl, rfl⟩ | ⟨_, rfl, rfl⟩
  case inr.inr.inr.inl => exact .ask (hh.call hs)
  all_goals
    dsimp only
    rw [hnull, hname]
    split <;> exact .throw _

theorem fails_invoke (hv : v.Alike R w) (hs : AlikeAll R vs ws) :
    Fails R (invoke host v vs) (invoke host w ws) := by
  have hnull := hv.isNull
  have hname := hv.typeName
  unfold invoke
  rcases hv.cases with ⟨s, rfl, rfl⟩ | ⟨_, _, _, _, rfl, rfl, -⟩ | ⟨_, _, _, rfl, rfl, -⟩ |
    ⟨_, _, rfl, rfl⟩ | ⟨id, rfl, rfl⟩
  case inr.inr.inr.inr => exact .ask (hh.invoke hs)
  all_goals
    dsimp only
    rw [hnull, hname]
    split <;> exact .throw _

end Access

/-! ### The order of evaluation -/

section Control

variable {m l r : Eval Value} {ms : List (Eval Value)}

theorem fails_values (h : ∀ m ∈ ms, Mirrors R (Alike R) m m) (hf : ∀ m ∈ ms, Fails R m m) :
    Fails R (values ms) (values ms) := by
  induction ms with
  | nil => exact .pure _
  | cons m ms ih =>
    have hms : ∀ m' ∈ ms, Mirrors R (Alike R) m' m' := fun m' hm' =>
      h m' (List.mem_cons_of_mem _ hm')
    exact .bind (h m List.mem_cons_self) (hf m List.mem_cons_self) fun _ _ _ =>
      .bind (mirrors_values hms) (ih hms fun m' hm' => hf m' (List.mem_cons_of_mem _ hm'))
        fun _ _ _ => .pure _

theorem fails_conjunction (hl : Mirrors R (Alike R) l l) (hl' : Fails R l l)
    (hr : Mirrors R (Alike R) r r) (hr' : Fails R r r) :
    Fails R (conjunction l r) (conjunction l r) := by
  refine .bind hl hl' fun v w hv => ?_
  rw [hv.boolean?]
  split
  · exact .pure _
  refine .bind hr hr' fun v' w' hv' => ?_
  rw [hv'.boolean?]
  split
  · exact .pure _
  · split <;> exact .pure _

theorem fails_disjunction (hl : Mirrors R (Alike R) l l) (hl' : Fails R l l)
    (hr : Mirrors R (Alike R) r r) (hr' : Fails R r r) :
    Fails R (disjunction l r) (disjunction l r) := by
  refine .bind hl hl' fun v w hv => ?_
  rw [hv.boolean?]
  split
  · exact .pure _
  refine .bind hr hr' fun v' w' hv' => ?_
  rw [hv'.boolean?]
  split
  · exact .pure _
  · split <;> exact .pure _

theorem fails_conditional (hm : Mirrors R (Alike R) m m) (hm' : Fails R m m) (hl : Fails R l l)
    (hr : Fails R r r) : Fails R (conditional m l r) (conditional m l r) := by
  refine .bind hm hm' fun v w hv => ?_
  rw [hv.boolean?, hv.isNull, hv.typeName]
  split
  · exact hl
  · exact hr
  · split <;> exact .throw _

theorem fails_coalesce (hl : Mirrors R (Alike R) l l) (hl' : Fails R l l) (hr : Fails R r r) :
    Fails R (coalesce l r) (coalesce l r) := by
  refine .bind hl hl' fun v w hv => ?_
  rw [hv.isNull]
  split
  · exact hr
  · exact .pure _

theorem fails_isAmong (hR : Relator.BiUnique R) {v w : Value} (hv : v.Alike R w)
    (h : ∀ m ∈ ms, Mirrors R (Alike R) m m) (hf : ∀ m ∈ ms, Fails R m m) :
    Fails R (isAmong v ms) (isAmong w ms) := by
  induction ms with
  | nil => exact .pure _
  | cons m ms ih =>
    refine .bind (h m List.mem_cons_self) (hf m List.mem_cons_self) fun a b hab => ?_
    rw [hv.equals hR hab]
    split
    · exact .pure _
    · exact ih (fun m' hm' => h m' (List.mem_cons_of_mem _ hm')) fun m' hm' =>
        hf m' (List.mem_cons_of_mem _ hm')

end Control

/-! ### Aggregates -/

section Aggregates

variable {body : Option (Eval Value)} {vs ws : List Value}
  (hb : ∀ m, body = some m → Mirrors R (Alike R) m m) (hf : ∀ m, body = some m → Fails R m m)
include hb hf

theorem fails_accepts {v w : Value} (hv : v.Alike R w) :
    Fails R (accepts body v) (accepts body w) := by
  cases body with
  | none => exact .pure _
  | some m =>
    refine .bind ((hb m rfl).withElement hv) ((hf m rfl).withElement hv) fun a b hab => ?_
    rw [hab.boolean?, hab.typeName]
    split
    · exact .pure _
    · exact .throw _

theorem fails_findFirst (h : AlikeAll R vs ws) :
    Fails R (findFirst body vs) (findFirst body ws) := by
  rw [Value.alikeAll_iff] at h
  induction h with
  | nil => exact .pure _
  | cons hvw _ ih =>
    refine .bind (mirrors_accepts hb hvw) (fails_accepts hb hf hvw) fun a b hab => ?_
    subst hab
    cases a with
    | true => exact .pure _
    | false => exact ih

theorem fails_holdsForAll (h : AlikeAll R vs ws) :
    Fails R (holdsForAll body vs) (holdsForAll body ws) := by
  rw [Value.alikeAll_iff] at h
  induction h with
  | nil => exact .pure _
  | cons hvw _ ih =>
    refine .bind (mirrors_accepts hb hvw) (fails_accepts hb hf hvw) fun a b hab => ?_
    subst hab
    cases a with
    | true => exact ih
    | false => exact .pure _

theorem fails_count (h : AlikeAll R vs ws) : Fails R (count body vs) (count body ws) := by
  rw [Value.alikeAll_iff] at h
  induction h with
  | nil => exact .pure _
  | cons hvw hs ih =>
    exact .bind (mirrors_accepts hb hvw) (fails_accepts hb hf hvw) fun _ _ _ =>
      .bind (mirrors_count hb (Value.alikeAll_iff.mpr hs)) ih fun _ _ _ => .pure _

theorem fails_filter (h : AlikeAll R vs ws) : Fails R (filter body vs) (filter body ws) := by
  rw [Value.alikeAll_iff] at h
  induction h with
  | nil => exact .pure _
  | cons hvw hs ih =>
    exact .bind (mirrors_accepts hb hvw) (fails_accepts hb hf hvw) fun _ _ _ =>
      .bind (mirrors_filter hb (Value.alikeAll_iff.mpr hs)) ih fun _ _ _ => .pure _

theorem fails_select (h : AlikeAll R vs ws) : Fails R (select body vs) (select body ws) := by
  cases body with
  | none =>
    cases vs <;> exact .pure _
  | some m =>
    rw [Value.alikeAll_iff] at h
    induction h with
    | nil => exact .pure _
    | cons hvw hs ih =>
      exact .bind ((hb m rfl).withElement hvw) ((hf m rfl).withElement hvw) fun _ _ _ =>
        .bind (mirrors_select hb (Value.alikeAll_iff.mpr hs)) ih fun _ _ _ => .pure _

/-- **Aggregates fail alike on alike elements if their bodies do.** -/
theorem fails_aggregate (hR : Relator.BiUnique R) (op : Aggregate) (h : AlikeAll R vs ws)
    (argument argument' : Option Value) (type : Ty) :
    Fails R (aggregate op vs body argument type) (aggregate op ws body argument' type) := by
  have hselect := mirrors_select hb h
  have hselect' := fails_select hb hf h
  cases op with
  | any => exact .bind (mirrors_findFirst hb h) (fails_findFirst hb hf h) fun _ _ _ => .pure _
  | all => exact .bind (mirrors_holdsForAll hb h) (fails_holdsForAll hb hf h) fun _ _ _ => .pure _
  | count => exact .bind (mirrors_count hb h) (fails_count hb hf h) fun _ _ _ => .pure _
  | sum => exact .bind hselect hselect' fun _ _ hk => .ofExcept (sum_echoes hR type hk)
  | average => exact .bind hselect hselect' fun _ _ hk => .ofExcept (average_echoes hR type hk)
  | min | max => exact .bind hselect hselect' fun _ _ hk => .ofExcept (extreme_echoes _ type hk)
  | «where» => exact .bind (mirrors_filter hb h) (fails_filter hb hf h) fun _ _ _ => .newList _
  | select | orderBy | orderByDescending =>
    exact .bind hselect hselect' fun _ _ _ => .newList _
  | first =>
    refine .bind (mirrors_findFirst hb h) (fails_findFirst hb hf h) fun a b hab => ?_
    cases hab with
    | none => exact .throw _
    | some h => exact .pure _
  | firstOrDefault =>
    exact .bind (mirrors_findFirst hb h) (fails_findFirst hb hf h) fun _ _ _ => .pure _
  | take | skip => exact .newList _
  | contains => exact .pure _

end Aggregates

/-! ### Checked expressions -/

mutual
/-- **A checked expression fails the same every time.** -/
theorem fails_term {host : Host} (hh : host.Respects R) (hh' : host.RefusesAlike R)
    (hR : Relator.BiUnique R) : ∀ e : Term, Fails R (term host e) (term host e)
  | .constant .. => .pure _
  | .parameter name _ _ => .lookup name
  | .member target name _ _ =>
    .bind (mirrors_term hh hR target) (fails_term hh hh' hR target) fun _ _ hv =>
      .ofExcept (hv.member_echoes name)
  | .index target arguments _ _ =>
    .bind (mirrors_term hh hR target) (fails_term hh hh' hR target) fun _ _ hv =>
      fails_arguments hh hh' hR arguments fun _ _ hs => fails_index hh' hv hs
  | .call target method arguments _ _ =>
    .bind (mirrors_term hh hR target) (fails_term hh hh' hR target) fun _ _ hv =>
      fails_arguments hh hh' hR arguments fun _ _ hs => fails_call hh' hv method hs
  | .intrinsic op target arguments _ _ =>
    .bind (mirrors_term hh hR target) (fails_term hh hh' hR target) fun _ _ hv =>
      fails_arguments hh hh' hR arguments fun _ _ hs => .ofExcept (op.apply_echoes hv hs)
  | .function op arguments _ _ =>
    fails_arguments hh hh' hR arguments fun _ _ hs =>
      .ofExcept (op.apply_echoes (Value.alike_scalar _) hs)
  | .aggregate op source type _ =>
    .bind (mirrors_term hh hR source) (fails_term hh hh' hR source) fun _ _ hv =>
      .bind (.ofExcept (hv.elements hh)) (.ofExcept hv.elements_echoes) fun _ _ hs =>
        fails_aggregate (fun _ h => by cases h) (fun _ h => by cases h) hR op hs none none type
  | .aggregateBy op source body type _ =>
    .bind (mirrors_term hh hR source) (fails_term hh hh' hR source) fun _ _ hv =>
      .bind (.ofExcept (hv.elements hh)) (.ofExcept hv.elements_echoes) fun _ _ hs =>
        fails_aggregate (fun _ h => Option.some_inj.mp h ▸ mirrors_term hh hR body)
          (fun _ h => Option.some_inj.mp h ▸ fails_term hh hh' hR body) hR op hs none none type
  | .aggregateWith op source argument type _ =>
    .bind (mirrors_term hh hR source) (fails_term hh hh' hR source) fun _ _ hv =>
      .bind (.ofExcept (hv.elements hh)) (.ofExcept hv.elements_echoes) fun _ _ hs =>
        .bind (mirrors_term hh hR argument) (fails_term hh hh' hR argument) fun a b _ =>
          fails_aggregate (fun _ h => by cases h) (fun _ h => by cases h) hR op hs (some a) (some b)
            type
  | .convert operand type _ =>
    .bind (mirrors_term hh hR operand) (fails_term hh hh' hR operand) fun _ _ hv =>
      .ofExcept (hv.convert_echoes type)
  | .unary op operand _ _ =>
    .bind (mirrors_term hh hR operand) (fails_term hh hh' hR operand) fun _ _ hv =>
      .ofExcept (.of_eq (op.apply_alike hv))
  | .binary op left right _ _ => by
    have hl := mirrors_term hh hR left
    have hl' := fails_term hh hh' hR left
    have hr := mirrors_term hh hR right
    have hr' := fails_term hh hh' hR right
    cases op with
    | andAlso => exact fails_conjunction hl hl' hr hr'
    | orElse => exact fails_disjunction hl hl' hr hr'
    | _ => exact .bind hl hl' fun _ _ hv => .bind hr hr' fun _ _ hw =>
        .ofExcept (Operation.apply_echoes _ hv hw)
  | .conditional condition whenTrue whenFalse _ _ =>
    fails_conditional (mirrors_term hh hR condition) (fails_term hh hh' hR condition)
      (fails_term hh hh' hR whenTrue) (fails_term hh hh' hR whenFalse)
  | .coalesce left right _ _ =>
    fails_coalesce (mirrors_term hh hR left) (fails_term hh hh' hR left)
      (fails_term hh hh' hR right)
  | .inList operand candidates _ _ =>
    .bind (mirrors_term hh hR operand) (fails_term hh hh' hR operand) fun _ _ hv =>
      .bind (mirrors_isAmong hR hv (mirrors_terms hh hR candidates))
        (fails_isAmong hR hv (mirrors_terms hh hR candidates) (fails_terms hh hh' hR candidates))
        fun _ _ _ => .pure _
  | .inSequence operand source _ _ =>
    .bind (mirrors_term hh hR operand) (fails_term hh hh' hR operand) fun _ _ _ =>
      .bind (mirrors_term hh hR source) (fails_term hh hh' hR source) fun _ _ hw =>
        .bind (.ofExcept (hw.elements hh)) (.ofExcept hw.elements_echoes) fun _ _ _ => .pure _
  | .newRecord entries type _ => by
    unfold term
    split
    · exact fails_arguments hh hh' hR entries fun _ _ hs => .ofExcept (Value.ofRecord_echoes _ hs)
    · exact .throw _
  | .newArray elements _ _ => fails_arguments hh hh' hR elements fun _ _ _ => .newList _
  | .invoke delegate arguments _ _ =>
    .bind (mirrors_term hh hR delegate) (fails_term hh hh' hR delegate) fun _ _ hv =>
      fails_arguments hh hh' hR arguments fun _ _ hs => fails_invoke hh' hv hs

theorem fails_terms {host : Host} (hh : host.Respects R) (hh' : host.RefusesAlike R)
    (hR : Relator.BiUnique R) : ∀ es : List Term, ∀ m ∈ terms host es, Fails R m m
  | [], _, hm => by cases hm
  | e :: es, m, hm => by
    rcases List.mem_cons.mp hm with rfl | hm
    · exact fails_term hh hh' hR e
    · exact fails_terms hh hh' hR es m hm

/-- What uses the values of arguments fails alike if it does on alike values. -/
theorem fails_arguments {host : Host} (hh : host.Respects R) (hh' : host.RefusesAlike R)
    (hR : Relator.BiUnique R) (es : List Term) {f g : List Value → Eval Value}
    (hf : ∀ vs ws, AlikeAll R vs ws → Fails R (f vs) (g ws)) :
    Fails R (values (terms host es) >>= f) (values (terms host es) >>= g) :=
  .bind (mirrors_values (mirrors_terms hh hR es))
    (fails_values (mirrors_terms hh hR es) (fails_terms hh hh' hR es)) hf
end

/-! ### Environments -/

theorem respects_self (host : Host) : host.Respects Eq where
  field {_ _ _ v} _ := v.alike_self
  elements {_ _ items} _ := Value.alikeAll_self items
  call h := .of_eq (fun v _ => v.alike_self) (by rw [h.eq])
  index h := .of_eq (fun v _ => v.alike_self) (by rw [h.eq])
  invoke h := .of_eq (fun v _ => v.alike_self) (by rw [h.eq])

/-- **An evaluation that comes to a value leaves the environment in place.** -/
theorem environment_of_ok {host : Host} {e : Term} {c d : EvalContext} {v : Value}
    (h : term host e c = (.ok v, d)) : d.environment = c.environment := by
  have hbeside : Beside Eq c c := ⟨fun _ v hv => ⟨v, hv, v.alike_self⟩, fun _ => rfl⟩
  have hR : Relator.BiUnique (@Eq Nat) := ⟨fun _ _ _ h h' => h.trans h'.symm, fun _ _ _ h h' =>
    h.symm.trans h'⟩
  obtain ⟨_, _, -, -, habreast⟩ := mirrors_term (respects_self host) hR e c c hbeside v d h
  exact habreast.left

/-! ### The same every time -/

/-- Whatever lists have been made before, in the environment the evaluation comes to
the outcome. Unless that is an error, it leaves the environment in place. -/
def Comes {α : Type} (n : Nat) (env : Environment) (m : Eval α) (r : Except EvalError α) : Prop :=
  ∀ c, c.environment = env → n ≤ c.nextList →
    ∃ d, m c = (r, d) ∧ ∀ x, r = .ok x → d.environment = env ∧ n ≤ d.nextList

namespace Comes

variable {α β : Type} {n : Nat} {env : Environment} {m : Eval α} {f : α → Eval β} {x : α}
  {r : Except EvalError β}

theorem ofExcept (r : Except EvalError β) : Comes n env (ofExcept r) r := fun c hc hn =>
  ⟨c, by cases r <;> rfl, fun _ _ => ⟨hc, hn⟩⟩

theorem bind (hm : Comes n env m (.ok x)) (hf : Comes n env (f x) r) : Comes n env (m >>= f) r := by
  intro c hc hn
  obtain ⟨d, hd, hleft⟩ := hm c hc hn
  obtain ⟨henv, hn'⟩ := hleft x rfl
  rw [Step.bind_apply, hd]
  exact hf d henv hn'

theorem bind_error {e : EvalError} (hm : Comes n env m (.error e)) :
    Comes n env (m >>= f) (.error e) := by
  intro c hc hn
  obtain ⟨d, hd, -⟩ := hm c hc hn
  exact ⟨d, by rw [Step.bind_apply, hd], fun _ h => by cases h⟩

end Comes

/-- **A checked expression without parts in its values comes to the same every time**
it is evaluated in an environment, if the host and the environment mention no lists
that are yet to be made. -/
theorem comes_of_flat {host : Host} {n : Nat} (hh : host.IsBlind n) {env : Environment}
    (henv : ∀ name v, env.lookup name = some v → v.IsBelow n) {e : Term}
    (hflat : ∀ c v d, c.environment = env → term host e c = (.ok v, d) → ∃ s, v = .scalar s) :
    ∃ r, Comes n env (term host e) r := by
  let c₀ : EvalContext := ⟨env, n, []⟩
  refine ⟨(term host e c₀).1, fun c hc hn => ?_⟩
  have hR := Ordering.biUnique_renumbered (Nat.le_refl n) hn
  have hself : ∀ i < n, Ordering.Renumbered n n c.nextList i i := fun i hi => .inl ⟨rfl, hi⟩
  have haligned : Aligned (Ordering.Renumbered n n c.nextList) c₀ c :=
    { covers := fun name v hv => ⟨v, hc ▸ hv, (henv name v hv).alike hself⟩
      lists := fun k => .inr ⟨k, rfl, rfl⟩
      unbound := fun name hname => hc ▸ hname }
  have hrespects := hh.answers _ hR hself
  rcases h₀ : term host e c₀ with ⟨err | v, d₀⟩
  · obtain ⟨d, hd⟩ :=
      fails_term hrespects (hh.refuses _ hR hself) hR e c₀ c haligned err d₀ h₀
    exact ⟨d, hd, fun _ h => by cases h⟩
  · obtain ⟨w, d, hd, hvw, habreast⟩ := mirrors_term hrespects hR e c₀ c haligned.toBeside v d₀ h₀
    obtain ⟨s, rfl⟩ := hflat c₀ v d₀ rfl h₀
    obtain rfl : w = .scalar s := hvw
    obtain ⟨made, -, hmade⟩ := habreast.lists
    exact ⟨d, hd, fun _ _ => ⟨habreast.right.trans hc, by omega⟩⟩

end Eval
end QueryExpr
