/-
# Evaluations that keep pace

Two evaluations are started next to each other: what is bound to a name in the one
context is bound to it, up to the numbers of lists, in the other, and the lists made
from here on are related one by one. The second keeps pace with the first if,
whenever that comes to something, the second comes to something alike, and both have
made equally many lists and left their environments in place. A checked expression
keeps pace with itself: it comes to the same wherever it is evaluated, but for the
numbers of lists.

Key definitions: `Eval.Beside`, `Eval.Abreast`, `Eval.Mirrors`.
Key theorems: `Eval.Mirrors.bind`, `Eval.Mirrors.withElement`,
`Eval.mirrors_aggregate`, `Eval.mirrors_term`.
-/
import QueryExpr.Eval
import QueryExpr.Proofs.AlikeOperations
import QueryExpr.Proofs.SameEval

namespace QueryExpr.Eval

open Value (Alike AlikeAll)

/-- What is bound in the first context is bound alike in the second, and the lists
to be made in both are related. -/
structure Beside (R : Nat → Nat → Prop) (c c' : EvalContext) : Prop where
  covers : ∀ name v, c.environment.lookup name = some v →
    ∃ w, c'.environment.lookup name = some w ∧ v.Alike R w
  lists : ∀ k, R (c.nextList + k) (c'.nextList + k)

/-- From two contexts two others have been reached by making equally many lists, with
the environments in place. -/
structure Abreast (c c' d d' : EvalContext) : Prop where
  left : d.environment = c.environment
  right : d'.environment = c'.environment
  lists : ∃ made, d.nextList = c.nextList + made ∧ d'.nextList = c'.nextList + made

/-- Whenever the first evaluation comes to something, the second, started beside it,
comes to what is related to that and stays abreast. -/
def Mirrors {α β : Type} (R : Nat → Nat → Prop) (Q : α → β → Prop) (m : Eval α) (m' : Eval β) :
    Prop :=
  ∀ c c', Beside R c c' → ∀ a d, m c = (.ok a, d) →
    ∃ b d', m' c' = (.ok b, d') ∧ Q a b ∧ Abreast c c' d d'

variable {R : Nat → Nat → Prop}

theorem Abreast.refl (c c' : EvalContext) : Abreast c c' c c' := ⟨rfl, rfl, 0, rfl, rfl⟩

theorem Abreast.trans {c c' d d' e e' : EvalContext} (h : Abreast c c' d d')
    (h' : Abreast d d' e e') : Abreast c c' e e' := by
  obtain ⟨made, hd, hd'⟩ := h.lists
  obtain ⟨more, he, he'⟩ := h'.lists
  exact ⟨h'.left.trans h.left, h'.right.trans h.right, made + more, by omega, by omega⟩

theorem Beside.after {c c' d d' : EvalContext} (h : Beside R c c') (h' : Abreast c c' d d') :
    Beside R d d' := by
  obtain ⟨made, hd, hd'⟩ := h'.lists
  refine ⟨by rw [h'.left, h'.right]; exact h.covers, fun k => ?_⟩
  rw [hd, hd', Nat.add_assoc, Nat.add_assoc]
  exact h.lists _

/-- Beside each other two contexts stay if each is given an alike element. -/
theorem Beside.withElement {c c' : EvalContext} (h : Beside R c c') {v w : Value}
    (hvw : v.Alike R w) :
    Beside R { c with environment := (implicitName, v) :: c.environment }
      { c' with environment := (implicitName, w) :: c'.environment } := by
  refine ⟨fun name a ha => ?_, h.lists⟩
  simp only [List.lookup_cons] at ha ⊢
  split at ha
  · cases ha
    exact ⟨w, rfl, hvw⟩
  · exact h.covers name a ha

namespace Mirrors

variable {α β γ δ : Type} {Q : α → β → Prop} {S : γ → δ → Prop} {m : Eval α} {m' : Eval β}

theorem pure {a : α} {b : β} (h : Q a b) : Mirrors R Q (pure a) (pure b) := fun c c' _ _ _ heq => by
  cases heq
  exact ⟨b, c', rfl, h, .refl c c'⟩

theorem throw (e : EvalError) : Mirrors R Q (throw e) m' := fun _ _ _ _ _ heq => by cases heq

theorem ofExcept {x : Except EvalError α} {y : Except EvalError β} (h : Matches Q x y) :
    Mirrors R Q (ofExcept x) (ofExcept y) := by
  cases x with
  | error e => exact throw e
  | ok a =>
    obtain ⟨b, rfl, hab⟩ := h a rfl
    exact pure hab

theorem bind {f : α → Eval γ} {g : β → Eval δ} (h : Mirrors R Q m m')
    (hf : ∀ a b, Q a b → Mirrors R S (f a) (g b)) : Mirrors R S (m >>= f) (m' >>= g) := by
  intro c c' hc x d heq
  rw [Step.bind_apply] at heq
  rcases hm : m c with ⟨e | a, c₁⟩ <;> rw [hm] at heq
  · cases heq
  obtain ⟨b, c₁', hm', hab, h₁⟩ := h c c' hc a c₁ hm
  obtain ⟨y, d', hy, hxy, h₂⟩ := hf a b hab c₁ c₁' (hc.after h₁) x d heq
  exact ⟨y, d', by rw [Step.bind_apply, hm']; exact hy, hxy, h₁.trans h₂⟩

theorem newList {vs ws : List Value} (h : AlikeAll R vs ws) :
    Mirrors R (Alike R) (newList vs) (newList ws) := by
  intro c c' hc v d heq
  cases heq
  exact ⟨.list c'.nextList ws, _, rfl, ⟨_, ws, rfl, hc.lists 0, h⟩, rfl, rfl, 1, rfl, rfl⟩

theorem ask {event event' : Event} {x y : Except EvalError Value} (h : Matches (Alike R) x y) :
    Mirrors R (Alike R) (ask event x) (ask event' y) := by
  intro c c' _ v d heq
  cases heq
  obtain ⟨w, rfl, hvw⟩ := h v rfl
  exact ⟨w, _, rfl, hvw, rfl, rfl, 0, rfl, rfl⟩

theorem lookup (name : String) : Mirrors R (Alike R) (lookup name) (lookup name) := by
  intro c c' hc v d heq
  rw [lookup_apply] at heq ⊢
  cases hv : c.environment.lookup name with
  | none => rw [hv] at heq; cases heq
  | some v =>
    rw [hv] at heq
    cases heq
    obtain ⟨w, hw, hvw⟩ := hc.covers name v hv
    rw [hw]
    exact ⟨w, c', rfl, hvw, .refl c c'⟩

/-- An element is taken out again after what is evaluated with it. -/
theorem withElement {v w : Value} (hvw : v.Alike R w) (h : Mirrors R Q m m') :
    Mirrors R Q (withElement v m) (withElement w m') := by
  intro c c' hc a d heq
  rcases hm : m { c with environment := (implicitName, v) :: c.environment } with ⟨r, d₁⟩
  have hrun : Eval.withElement v m c = (r, { d₁ with environment := d₁.environment.tail }) := by
    rw [Eval.withElement, hm]
  rw [hrun] at heq
  cases heq
  obtain ⟨b, d₁', hm', hab, h₁⟩ := h _ _ (hc.withElement hvw) a d₁ hm
  refine ⟨b, { d₁' with environment := c'.environment }, ?_, hab, ?_, rfl, h₁.lists⟩
  · simp [Eval.withElement, hm', h₁.right]
  · simp [h₁.left]

end Mirrors

/-! ### Access -/

section Access

variable {host : Host} {v w : Value} {vs ws : List Value} (hh : host.Respects R)
include hh

theorem mirrors_index (hv : v.Alike R w) (hs : AlikeAll R vs ws) :
    Mirrors R (Alike R) (index host v vs) (index host w ws) := by
  unfold index
  rcases hv.cases with ⟨s, rfl, rfl⟩ | ⟨_, _, _, _, rfl, rfl, -, hi⟩ | ⟨_, _, _, rfl, rfl, -⟩ |
    ⟨id, typeName, rfl, rfl⟩ | ⟨_, rfl, rfl⟩
  · cases s with
    | string s =>
      dsimp only
      rw [Value.itemAt_text_alike _ hs]
      exact .ofExcept ((Value.flat_map _ fun _ => ⟨_, rfl⟩).matches rfl)
    | _ => exact .throw _
  · exact .ofExcept (Value.itemAt_matches hi hs)
  · exact .throw _
  · exact .ask (hh.index hs)
  · exact .throw _

theorem mirrors_call (hv : v.Alike R w) (method : String) (hs : AlikeAll R vs ws) :
    Mirrors R (Alike R) (call host v method vs) (call host w method ws) := by
  unfold call
  rcases hv.cases with ⟨s, rfl, rfl⟩ | ⟨_, _, _, _, rfl, rfl, -⟩ | ⟨_, _, _, rfl, rfl, -⟩ |
    ⟨id, typeName, rfl, rfl⟩ | ⟨_, rfl, rfl⟩
  case inr.inr.inr.inl => exact .ask (hh.call hs)
  all_goals
    dsimp only
    split <;> exact .throw _

theorem mirrors_invoke (hv : v.Alike R w) (hs : AlikeAll R vs ws) :
    Mirrors R (Alike R) (invoke host v vs) (invoke host w ws) := by
  unfold invoke
  rcases hv.cases with ⟨s, rfl, rfl⟩ | ⟨_, _, _, _, rfl, rfl, -⟩ | ⟨_, _, _, rfl, rfl, -⟩ |
    ⟨_, _, rfl, rfl⟩ | ⟨id, rfl, rfl⟩
  case inr.inr.inr.inr => exact .ask (hh.invoke hs)
  all_goals
    dsimp only
    split <;> exact .throw _

end Access

/-! ### The order of evaluation -/

section Control

variable {m n l r : Eval Value} {ms : List (Eval Value)}

theorem mirrors_values (h : ∀ m ∈ ms, Mirrors R (Alike R) m m) :
    Mirrors R (AlikeAll R) (values ms) (values ms) := by
  induction ms with
  | nil => exact .pure .nil
  | cons m ms ih =>
    exact (h m List.mem_cons_self).bind fun _ _ hv =>
      (ih fun m' hm' => h m' (List.mem_cons_of_mem _ hm')).bind fun _ _ hvs => .pure (.cons hv hvs)

theorem mirrors_conjunction (hl : Mirrors R (Alike R) l l) (hr : Mirrors R (Alike R) r r) :
    Mirrors R (Alike R) (conjunction l r) (conjunction l r) := by
  refine hl.bind fun v w hv => ?_
  rw [hv.boolean?]
  split
  · exact .pure hv
  refine hr.bind fun v' w' hv' => ?_
  rw [hv'.boolean?]
  split
  · exact .pure hv'
  split
  · exact .pure hv'
  · exact .pure (Value.alike_scalar _)

theorem mirrors_disjunction (hl : Mirrors R (Alike R) l l) (hr : Mirrors R (Alike R) r r) :
    Mirrors R (Alike R) (disjunction l r) (disjunction l r) := by
  refine hl.bind fun v w hv => ?_
  rw [hv.boolean?]
  split
  · exact .pure hv
  refine hr.bind fun v' w' hv' => ?_
  rw [hv'.boolean?]
  split
  · exact .pure hv'
  split
  · exact .pure hv'
  · exact .pure (Value.alike_scalar _)

theorem mirrors_conditional (hm : Mirrors R (Alike R) m m) (hl : Mirrors R (Alike R) l l)
    (hr : Mirrors R (Alike R) r r) :
    Mirrors R (Alike R) (conditional m l r) (conditional m l r) := by
  refine hm.bind fun v w hv => ?_
  rw [hv.boolean?, hv.isNull]
  split
  · exact hl
  · exact hr
  · split <;> exact .throw _

theorem mirrors_coalesce (hl : Mirrors R (Alike R) l l) (hr : Mirrors R (Alike R) r r) :
    Mirrors R (Alike R) (coalesce l r) (coalesce l r) := by
  refine hl.bind fun v w hv => ?_
  rw [hv.isNull]
  split
  · exact hr
  · exact .pure hv

theorem mirrors_isAmong (hR : Relator.BiUnique R) {v w : Value} (hv : v.Alike R w)
    (h : ∀ m ∈ ms, Mirrors R (Alike R) m m) :
    Mirrors R Eq (isAmong v ms) (isAmong w ms) := by
  induction ms with
  | nil => exact .pure rfl
  | cons m ms ih =>
    refine (h m List.mem_cons_self).bind fun a b hab => ?_
    rw [hv.equals hR hab]
    split
    · exact .pure rfl
    · exact ih fun m' hm' => h m' (List.mem_cons_of_mem _ hm')

end Control

/-! ### Aggregates -/

section Aggregates

variable {body : Option (Eval Value)} {vs ws : List Value}
  (hb : ∀ m, body = some m → Mirrors R (Alike R) m m)
include hb

theorem mirrors_accepts {v w : Value} (hv : v.Alike R w) :
    Mirrors R Eq (accepts body v) (accepts body w) := by
  cases body with
  | none => exact .pure rfl
  | some m =>
    refine ((hb m rfl).withElement hv).bind fun a b hab => ?_
    rw [hab.boolean?]
    split
    · exact .pure rfl
    · exact .throw _

theorem mirrors_findFirst (h : AlikeAll R vs ws) :
    Mirrors R (Option.Rel (Alike R)) (findFirst body vs) (findFirst body ws) := by
  rw [Value.alikeAll_iff] at h
  induction h with
  | nil => exact .pure .none
  | cons hvw _ ih =>
    refine (mirrors_accepts hb hvw).bind fun a b hab => ?_
    subst hab
    cases a with
    | true => exact .pure (.some hvw)
    | false => exact ih

theorem mirrors_holdsForAll (h : AlikeAll R vs ws) :
    Mirrors R Eq (holdsForAll body vs) (holdsForAll body ws) := by
  rw [Value.alikeAll_iff] at h
  induction h with
  | nil => exact .pure rfl
  | cons hvw _ ih =>
    refine (mirrors_accepts hb hvw).bind fun a b hab => ?_
    subst hab
    cases a with
    | true => exact ih
    | false => exact .pure rfl

theorem mirrors_count (h : AlikeAll R vs ws) :
    Mirrors R Eq (count body vs) (count body ws) := by
  rw [Value.alikeAll_iff] at h
  induction h with
  | nil => exact .pure rfl
  | cons hvw _ ih =>
    refine (mirrors_accepts hb hvw).bind fun a b hab => ih.bind fun n n' hn => ?_
    subst hab hn
    exact .pure rfl

theorem mirrors_filter (h : AlikeAll R vs ws) :
    Mirrors R (AlikeAll R) (filter body vs) (filter body ws) := by
  rw [Value.alikeAll_iff] at h
  induction h with
  | nil => exact .pure .nil
  | cons hvw _ ih =>
    refine (mirrors_accepts hb hvw).bind fun a b hab => ih.bind fun kept kept' hk => ?_
    subst hab
    cases a with
    | true => exact .pure (.cons hvw hk)
    | false => exact .pure hk

theorem mirrors_select (h : AlikeAll R vs ws) :
    Mirrors R (AlikeAll R) (select body vs) (select body ws) := by
  cases body with
  | none =>
    cases vs <;> cases ws <;> exact .pure h
  | some m =>
    rw [Value.alikeAll_iff] at h
    induction h with
    | nil => exact .pure .nil
    | cons hvw _ ih =>
      exact ((hb m rfl).withElement hvw).bind fun _ _ hk => ih.bind fun _ _ hks =>
        .pure (.cons hk hks)

/-- **Aggregates keep pace on alike elements if their bodies do.** -/
theorem mirrors_aggregate (hR : Relator.BiUnique R) (op : Aggregate) (h : AlikeAll R vs ws)
    {argument argument' : Option Value} (ha : Option.Rel (Alike R) argument argument')
    (type : Ty) :
    Mirrors R (Alike R) (aggregate op vs body argument type)
      (aggregate op ws body argument' type) := by
  have hamount : amount argument' = amount argument := by
    cases ha with
    | none => rfl
    | some h => simp only [amount, Option.bind_some, h.integer?]
  have hs := Value.alikeAll_iff.mp h
  cases op with
  | any =>
    refine (mirrors_findFirst hb h).bind fun a b hab => .pure ?_
    cases hab <;> exact Value.alike_scalar _
  | all =>
    refine (mirrors_holdsForAll hb h).bind fun a b hab => .pure ?_
    exact hab ▸ Value.alike_scalar _
  | count =>
    refine (mirrors_count hb h).bind fun a b hab => .pure ?_
    exact hab ▸ Value.alike_scalar _
  | sum => exact (mirrors_select hb h).bind fun _ _ hk => .ofExcept (sum_matches hR type hk)
  | average => exact (mirrors_select hb h).bind fun _ _ hk => .ofExcept (average_matches hR type hk)
  | min => exact (mirrors_select hb h).bind fun _ _ hk => .ofExcept (extreme_matches _ type hk)
  | max => exact (mirrors_select hb h).bind fun _ _ hk => .ofExcept (extreme_matches _ type hk)
  | «where» => exact (mirrors_filter hb h).bind fun _ _ hk => .newList hk
  | select => exact (mirrors_select hb h).bind fun _ _ hk => .newList hk
  | orderBy =>
    exact (mirrors_select hb h).bind fun _ _ hk =>
      .newList (sortedBy_alike (fun ha hb => ha.compareKeys hb) hk h)
  | orderByDescending =>
    exact (mirrors_select hb h).bind fun _ _ hk =>
      .newList (sortedBy_alike (fun ha hb => congrArg Ordering.swap (ha.compareKeys hb)) hk h)
  | first =>
    refine (mirrors_findFirst hb h).bind fun a b hab => ?_
    cases hab with
    | none => exact .throw _
    | some h => exact .pure h
  | firstOrDefault =>
    refine (mirrors_findFirst hb h).bind fun a b hab => .pure ?_
    cases hab with
    | none => exact default_alike type
    | some h => exact h
  | take =>
    refine .newList (Value.alikeAll_iff.mpr ?_)
    rw [hamount]
    exact List.forall₂_take _ hs
  | skip =>
    refine .newList (Value.alikeAll_iff.mpr ?_)
    rw [hamount]
    exact List.forall₂_drop _ hs
  | contains =>
    have hd : (argument.getD .null).Alike R (argument'.getD .null) := by
      cases ha with
      | none => exact Value.alike_scalar _
      | some h => exact h
    exact .pure (any_alike (fun _ _ hab => hab.equals hR hd) h ▸ Value.alike_scalar _)

end Aggregates

/-! ### Checked expressions -/

mutual
/-- **A checked expression keeps pace with itself.** -/
theorem mirrors_term {host : Host} (hh : host.Respects R) (hR : Relator.BiUnique R) :
    ∀ e : Term, Mirrors R (Alike R) (term host e) (term host e)
  | .constant s _ _ => .pure (Value.alike_scalar s)
  | .parameter name _ _ => .lookup name
  | .member target name _ _ =>
    (mirrors_term hh hR target).bind fun _ _ hv => .ofExcept (hv.member hh name)
  | .index target arguments _ _ =>
    (mirrors_term hh hR target).bind fun _ _ hv =>
      (mirrors_values (mirrors_terms hh hR arguments)).bind fun _ _ hs => mirrors_index hh hv hs
  | .call target method arguments _ _ =>
    (mirrors_term hh hR target).bind fun _ _ hv =>
      (mirrors_values (mirrors_terms hh hR arguments)).bind fun _ _ hs =>
        mirrors_call hh hv method hs
  | .intrinsic op target arguments _ _ =>
    (mirrors_term hh hR target).bind fun _ _ hv =>
      (mirrors_values (mirrors_terms hh hR arguments)).bind fun _ _ hs =>
        .ofExcept (Intrinsic.apply_matches hR op hv hs)
  | .function op arguments _ _ =>
    (mirrors_values (mirrors_terms hh hR arguments)).bind fun _ _ hs =>
      .ofExcept (Intrinsic.apply_matches hR op (Value.alike_scalar _) hs)
  | .aggregate op source type _ =>
    (mirrors_term hh hR source).bind fun _ _ hv =>
      (Mirrors.ofExcept (hv.elements hh)).bind fun _ _ hs =>
        mirrors_aggregate (fun _ h => by cases h) hR op hs .none type
  | .aggregateBy op source body type _ =>
    (mirrors_term hh hR source).bind fun _ _ hv =>
      (Mirrors.ofExcept (hv.elements hh)).bind fun _ _ hs =>
        mirrors_aggregate (fun _ h => Option.some_inj.mp h ▸ mirrors_term hh hR body) hR op hs
          .none type
  | .aggregateWith op source argument type _ =>
    (mirrors_term hh hR source).bind fun _ _ hv =>
      (Mirrors.ofExcept (hv.elements hh)).bind fun _ _ hs =>
        (mirrors_term hh hR argument).bind fun _ _ ha =>
          mirrors_aggregate (fun _ h => by cases h) hR op hs (.some ha) type
  | .convert operand type _ =>
    (mirrors_term hh hR operand).bind fun _ _ hv => .ofExcept (hv.convert type)
  | .unary op operand _ _ =>
    (mirrors_term hh hR operand).bind fun _ _ hv =>
      .ofExcept ((op.flat_apply _).matches (op.apply_alike hv))
  | .binary op left right _ _ => by
    have hl := mirrors_term hh hR left
    have hr := mirrors_term hh hR right
    cases op with
    | andAlso => exact mirrors_conjunction hl hr
    | orElse => exact mirrors_disjunction hl hr
    | _ => exact hl.bind fun _ _ hv => hr.bind fun _ _ hw =>
        .ofExcept (Operation.apply_matches hR _ hv hw)
  | .conditional condition whenTrue whenFalse _ _ =>
    mirrors_conditional (mirrors_term hh hR condition) (mirrors_term hh hR whenTrue)
      (mirrors_term hh hR whenFalse)
  | .coalesce left right _ _ =>
    mirrors_coalesce (mirrors_term hh hR left) (mirrors_term hh hR right)
  | .inList operand candidates _ _ =>
    (mirrors_term hh hR operand).bind fun _ _ hv =>
      (mirrors_isAmong hR hv (mirrors_terms hh hR candidates)).bind fun _ _ hab =>
        .pure (hab ▸ Value.alike_scalar _)
  | .inSequence operand source _ _ =>
    (mirrors_term hh hR operand).bind fun _ _ hv =>
      (mirrors_term hh hR source).bind fun _ _ hw =>
        (Mirrors.ofExcept (hw.elements hh)).bind fun _ _ hs =>
          .pure (any_alike (fun _ _ hab => hv.equals hR hab) hs ▸ Value.alike_scalar _)
  | .newRecord entries type _ => by
    unfold term
    split
    · exact (mirrors_values (mirrors_terms hh hR entries)).bind fun _ _ hs =>
        .ofExcept (Value.ofRecord_matches _ hs)
    · exact .throw _
  | .newArray elements _ _ =>
    (mirrors_values (mirrors_terms hh hR elements)).bind fun _ _ hs => .newList hs
  | .invoke delegate arguments _ _ =>
    (mirrors_term hh hR delegate).bind fun _ _ hv =>
      (mirrors_values (mirrors_terms hh hR arguments)).bind fun _ _ hs => mirrors_invoke hh hv hs

theorem mirrors_terms {host : Host} (hh : host.Respects R) (hR : Relator.BiUnique R) :
    ∀ es : List Term, ∀ m ∈ terms host es, Mirrors R (Alike R) m m
  | [], _, hm => by cases hm
  | e :: es, m, hm => by
    rcases List.mem_cons.mp hm with rfl | hm
    · exact mirrors_term hh hR e
    · exact mirrors_terms hh hR es m hm
end

end QueryExpr.Eval
