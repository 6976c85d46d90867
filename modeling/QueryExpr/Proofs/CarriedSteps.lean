/-
# Checking under other names

What an expression is checked to can be carried over to other names: where the
parts of an expression yield terms, the parts of another one yield the renamed
terms over the renamed context, and so do the two as a whole. That is so for
every routine of the checker. It is told for what is accepted, and only of terms
whose proper parts have a given property: what the routines are asked to do with
a part is shown by the term they yield (`Check.Reveals`).

Key definitions: `Check.Reveals`, `Check.Carries`, `Check.CarriesTerm`,
`Check.CarriesAll`.
Key theorems: `Check.Carries.bind`, `Check.carries_request`,
`Check.carries_values`.
-/
import QueryExpr.Proofs.RenamedTerms
import QueryExpr.Proofs.WellTyped

namespace QueryExpr

/-! ### Parts of converted terms -/

namespace Term

variable {P : Term → Prop} {e : Term}

theorem EveryPart.of_convertTo {t : Ty} (h : (e.convertTo t).EveryPart P) : e.EveryPart P := by
  unfold Term.convertTo at h
  split at h
  · exact h
  · split at h
    · rename_i hnull
      cases e with
      | constant => trivial
      | _ => cases hnull
    · exact h.2

theorem EveryPart.of_withSpan {span : Span} (h : (e.withSpan span).EveryPart P) :
    e.EveryPart P := by
  cases e <;> exact h

theorem EveryPart.of_brought {op : Aggregate} (h : (op.brought e).EveryPart P) :
    e.EveryPart P := by
  unfold Aggregate.brought at h
  split at h
  · exact h.of_convertTo
  · exact h

theorem EveryPart.of_convertBody {t : Ty} {body : Term}
    (h : e.EveryPart P) (hbody : Lambda.convertBody body t = .ok e) : body.EveryPart P := by
  unfold Lambda.convertBody Term.coerce? at hbody
  split at hbody
  · split at hbody <;> cases hbody
    exact h
  · split at hbody
    · cases hbody
    · split at hbody
      · rename_i he
        split at he <;> cases he
        cases hbody
        exact h.of_convertTo
      · cases hbody

/-- The property holds of every proper part of each of the terms. -/
abbrev AllParts (P : Term → Prop) (es : List Term) : Prop := ∀ e ∈ es, e.EveryPart P

theorem AllParts.of_map {f : Term → Term} {es : List Term}
    (hf : ∀ e, (f e).EveryPart P → e.EveryPart P) (h : EveryPartOfAll P (es.map f)) : AllParts P es :=
  fun e he => hf e (everyPartOfAll_iff.mp h (f e) (List.mem_map_of_mem he)).2

/-- Every argument is passed to a parameter, so that none is lost. -/
theorem AllParts.of_convertArguments {es : List Term} {ts : List Ty}
    (ha : List.Forall₂ (fun e t => e.isAssignable t = true) es ts)
    (h : EveryPartOfAll P (convertArguments es ts)) : AllParts P es := by
  induction ha with
  | nil => exact List.forall_mem_nil _
  | cons _ _ ih =>
    exact List.forall_mem_cons.mpr ⟨h.1.2.of_convertTo, ih h.2⟩

end Term

namespace Check

variable {α β γ δ : Type} {r : Renaming} {P : Term → Prop} {V : α → Prop} {W : γ → Prop}
  {h : α → β} {h' : γ → δ} {c : Context} {m : Check α} {m' : Check β} {q : Prop}

/-! ### What a term shows -/

/-- Whatever the check yields, the fact holds if that has the property. -/
def Reveals (V : α → Prop) (m : Check α) (q : Prop) : Prop :=
  ∀ c x d, m c = (.ok x, d) → V x → q

theorem reveals_pure {x : α} (hx : V x → q) : Reveals V (pure x) q :=
  fun _ _ _ heq hV => by cases heq; exact hx hV

theorem reveals_fail (cause : Cause) (span : Span) : Reveals V (fail cause span) q :=
  fun _ _ _ heq _ => by cases heq

theorem Reveals.mono {q' : Prop} (hm : Reveals V m q) (hq : q → q') : Reveals V m q' :=
  fun c x d heq hV => hq (hm c x d heq hV)

theorem Reveals.after {k : α → Check γ} (hk : ∀ x, Reveals W (k x) q) : Reveals W (m >>= k) q := by
  intro c y d heq hW
  rw [Step.bind_apply] at heq
  rcases hm : m c with ⟨e | x, c'⟩ <;> rw [hm] at heq
  · cases heq
  · exact hk x c' y d heq hW

/-- What the last step shows is shown by what it starts from. -/
theorem Reveals.bind {k : α → Check γ} (hm : Reveals V m q) (hk : ∀ x, Reveals W (k x) (V x)) :
    Reveals W (m >>= k) q := by
  intro c y d heq hW
  rw [Step.bind_apply] at heq
  rcases hx : m c with ⟨e | x, c'⟩ <;> rw [hx] at heq
  · cases heq
  · exact hm c x c' hx (hk x c' y d heq hW)

theorem Reveals.guarded {p : Prop} [Decidable p] (cause : Cause) (span : Span)
    (hm : Reveals V m q) :
    Reveals V (if p then Check.fail cause span >>= fun _ : PUnit => m else m) q := by
  split
  · exact Reveals.after fun _ => hm
  · exact hm

/-! ### Steps -/

/-- What the first check yields in the context, the second one yields in the
renamed context, carried over; so it is told of what has the property. -/
def Carries (r : Renaming) (V : α → Prop) (h : α → β) (c : Context) (m : Check α)
    (m' : Check β) : Prop :=
  ∀ x d, m c = (.ok x, d) → V x → m' (c.rename r) = (.ok (h x), d.rename r)

/-- The second check comes to the renamed term of the first one, as it is told of
terms whose proper parts have the property. -/
abbrev CarriesTerm (r : Renaming) (P : Term → Prop) : Context → Check Term → Check Term → Prop :=
  Carries r (Term.EveryPart P) (Term.rename r)

theorem carries_pure (x : α) : Carries r V h c (pure x) (pure (h x)) :=
  fun _ _ heq _ => by cases heq; rfl

theorem carries_term (e : Term) : CarriesTerm r P c (pure e) (pure (e.rename r)) := carries_pure e

theorem carries_fail (cause : Cause) (span : Span) : Carries r V h c (fail cause span) m' :=
  fun _ _ heq _ => by cases heq

theorem Carries.bind {k : α → Check γ} {k' : β → Check δ} (hm : Carries r V h c m m')
    (hV : ∀ x, Reveals W (k x) (V x))
    (hk : ∀ x d, m c = (.ok x, d) → V x → Carries r W h' d (k x) (k' (h x))) :
    Carries r W h' c (m >>= k) (m' >>= k') := by
  intro y d heq hW
  rw [Step.bind_apply] at heq ⊢
  rcases hx : m c with ⟨e | x, c'⟩ <;> rw [hx] at heq
  · cases heq
  · have hVx := hV x c' y d heq hW
    rw [hm x c' hx hVx]
    exact hk x c' hx hVx y d heq hW

/-- A step that shows nothing. -/
theorem Carries.andThen {k : α → Check γ} {k' : β → Check δ}
    (hm : Carries r (fun _ => True) h c m m')
    (hk : ∀ x d, m c = (.ok x, d) → Carries r W h' d (k x) (k' (h x))) :
    Carries r W h' c (m >>= k) (m' >>= k') :=
  hm.bind (fun _ _ _ _ _ _ => trivial) fun x d hx _ => hk x d hx

theorem carries_ofExcept {x : Except Failure α} {x' : Except Failure β}
    (hx : ∀ y, x = .ok y → x' = .ok (h y)) : Carries r V h c (ofExcept x) (ofExcept x') := by
  intro y d heq _
  rw [ofExcept_apply] at heq ⊢
  cases heq
  rw [hx y rfl]

theorem carries_request (ps : Properties) (span : Span) :
    Carries r (fun _ => True) (RecordType.rename r) c (request ps span)
      (request (ps.rename r) span) := by
  intro record d heq _
  rw [request_apply] at heq ⊢
  have hrequest := c.records.request_rename (r := r) ps
  rcases hps : c.records.request ps with ⟨cause | record', records⟩ <;> rw [hps] at heq hrequest
  · cases heq
  · cases heq
    dsimp only [Context.rename]
    rw [hrequest]
    rfl

theorem Carries.withElement (t : Ty)
    (hm : Carries r V h { c with scopes := c.scopes.push t } m m') :
    Carries r V h c (withElement t m) (withElement (t.rename r) m') := by
  intro x d heq hV
  rw [withElement_apply] at heq ⊢
  rcases hx : m { c with scopes := c.scopes.push t } with ⟨e | y, d'⟩ <;> rw [hx] at heq
  · cases heq
  · cases heq
    have hm' := hm x d' hx hV
    rw [show (⟨(c.rename r).records, (c.rename r).scopes.push (t.rename r)⟩ : Context) =
      Context.rename r ⟨c.records, c.scopes.push t⟩ from rfl, hm']
    refine congrArg (Prod.mk _) ?_
    dsimp only [Context.rename]
    rw [Scopes.rename_pop]

theorem Carries.ite {p : Prop} [Decidable p] {n : Check α} {n' : Check β}
    (hm : Carries r V h c m m') (hn : Carries r V h c n n') :
    Carries r V h c (if p then m else n) (if p then m' else n') := by
  split
  · exact hm
  · exact hn

/-- It makes no difference if the step before may fail. -/
theorem Carries.guarded {p : Prop} [Decidable p] (cause cause' : Cause) (span span' : Span)
    (hm : Carries r V h c m m') :
    Carries r V h c (if p then Check.fail cause span >>= fun _ : PUnit => m else m)
      (if p then Check.fail cause' span' >>= fun _ : PUnit => m' else m') := by
  refine Carries.ite ?_ hm
  intro x d heq _
  cases heq

/-! ### Values -/

/-- The checks of several parts, each in the context that those before it leave. -/
inductive CarriesAll (r : Renaming) (P : Term → Prop) :
    Context → List (Check Term) → List (Check Term) → Prop
  | nil {c : Context} : CarriesAll r P c [] []
  | cons {c : Context} {m m' : Check Term} {ms ms' : List (Check Term)} :
      CarriesTerm r P c m m' → CarriesAll r P (m c).2 ms ms' →
      CarriesAll r P c (m :: ms) (m' :: ms')

theorem CarriesAll.length_eq {ms ms' : List (Check Term)} (h : CarriesAll r P c ms ms') :
    ms.length = ms'.length := by
  induction h with
  | nil => rfl
  | cons _ _ ih => exact congrArg (· + 1) ih

section
variable {m m' a a' b b' : Check Term} {ms ms' : List (Check Term)} {d : Context} {e : Term}

/-- What has a value is what the check yields, and it is not `Void`. -/
theorem value_ok (heq : value m c = (.ok e, d)) : m c = (.ok e, d) ∧ e.type.isVoid = false := by
  unfold value at heq
  rw [Step.bind_apply] at heq
  rcases hm : m c with ⟨f | e', c'⟩ <;> rw [hm] at heq
  · cases heq
  · dsimp only at heq
    cases hv : e'.type.isVoid <;> rw [hv] at heq <;> cases heq
    exact ⟨rfl, hv⟩

/-- What a check of a value leaves is what the check itself leaves. -/
theorem value_leaves (heq : value m c = (.ok e, d)) : (m c).2 = d := by
  rw [(value_ok heq).1]

theorem carries_value (hm : CarriesTerm r P c m m') :
    CarriesTerm r P c (value m) (value m') := by
  refine hm.bind (fun e => (reveals_pure id).guarded _ _) fun e d _ _ => ?_
  rw [e.type_rename, Ty.isVoid_rename]
  exact (carries_pure e).guarded _ _ _ _

theorem carries_values (hms : CarriesAll r P c ms ms') :
    Carries r (Term.AllParts P) (Term.renameAll r) c (values ms) (values ms') := by
  induction hms with
  | nil => exact carries_pure []
  | cons hm _ ih =>
    refine (carries_value hm).bind (fun e => ?_) fun e d heq _ => ?_
    · exact Reveals.after fun es => reveals_pure fun h => (List.forall_mem_cons.mp h).1
    · rw [value_leaves heq] at ih
      refine ih.bind (fun es => ?_) fun es _ _ _ => carries_pure (e :: es)
      exact reveals_pure fun h => (List.forall_mem_cons.mp h).2

theorem reveals_converted (e : Term) (t : Ty) :
    Reveals (Term.EveryPart P) (converted e t) (e.EveryPart P) := by
  unfold converted Term.coerce?
  split
  · rename_i e' he
    split at he <;> cases he
    exact reveals_pure Term.EveryPart.of_convertTo
  · exact reveals_fail _ _

/-- Converting leaves the context as it is. -/
theorem converted_leaves {e' : Term} {t : Ty} (heq : converted e t c = (.ok e', d)) : c = d := by
  unfold converted at heq
  cases he : e.coerce? t <;> rw [he] at heq <;> cases heq
  rfl

theorem carries_converted (e : Term) (t : Ty) :
    CarriesTerm r P c (converted e t) (converted (e.rename r) (t.rename r)) := by
  unfold converted
  rw [e.coerce?_rename]
  cases e.coerce? t with
  | some e => exact carries_pure e
  | none => exact carries_fail _ _

end
end Check
end QueryExpr
