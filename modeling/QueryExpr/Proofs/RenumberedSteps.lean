/-
# Checking over two caches, step by step

What is in scope corresponds if its types do, name by name. A check answers another one
if, started in contexts that correspond, it goes on wherever the other one does, and
the two yield what corresponds in contexts that do so again. What has been yielded
before still corresponds later, as caches only grow.

Key definitions: `Scopes.Corresponds`, `Context.Corresponds`, `Check.Pairs`,
`Check.PairsTerm`.
Key theorems: `Scopes.Corresponds.lookup?`, `Check.Pairs.bind`, `Check.pairs_request`,
`Check.pairs_values`.
-/
import QueryExpr.Proofs.CheckSteps
import QueryExpr.Proofs.RenumberedConversions

namespace QueryExpr

variable {ts : List Ty} {w w' : Caches}

/-! ### Names in scope -/

/-- The name stands for the same of a type that corresponds. -/
structure Symbol.Corresponds (ts : List Ty) (w : Caches) (s s' : Symbol) : Prop where
  name : s.name = s'.name
  kind : s.kind = s'.kind
  type : s.type.Corresponds ts w s'.type

/-- The parameters have the same names and types that correspond, and the same one is
`it`. -/
structure ParameterTable.Corresponds (ts : List Ty) (w : Caches) (t t' : ParameterTable) :
    Prop where
  parameters : List.Forall₂ (fun d d' : Declaration => d.name = d'.name ∧
    d.type.Corresponds ts w d'.type) t.parameters t'.parameters
  implicit : t.implicit = t'.implicit

/-- The tables of the lambdas correspond, and so do the elements. -/
structure Scopes.Corresponds (ts : List Ty) (w : Caches) (s s' : Scopes) : Prop where
  root : s.root.Corresponds ts w s'.root
  elements : List.Forall₂ (Ty.Corresponds ts w) s.elements s'.elements

/-- What corresponds place by place is found at the same places. -/
theorem getElem?_of_forall₂ {α β : Type} {R : α → β → Prop} {xs : List α} {ys : List β}
    (h : List.Forall₂ R xs ys) (i : Nat) : Option.Rel R xs[i]? ys[i]? := by
  induction h generalizing i with
  | nil => exact .none
  | cons hx _ ih =>
    cases i with
    | zero => exact .some hx
    | succ i => exact ih i

namespace ParameterTable.Corresponds

variable {t t' : ParameterTable}

theorem mono (hg : w.Grows w') (h : t.Corresponds ts w t') : t.Corresponds ts w' t' :=
  ⟨h.parameters.imp fun _ _ h => ⟨h.1, h.2.mono hg⟩, h.implicit⟩

/-- A table of declared types corresponds to itself. -/
theorem of_given (h : ∀ d ∈ t.parameters, d.type.Throughout (Ty.Known ts .empty)) :
    t.Corresponds ts w t :=
  ⟨List.forall₂_same.mpr fun d hd => ⟨rfl, .same (h d hd)⟩, rfl⟩

/-- Elements of types that correspond are in tables that do. -/
theorem ofElement {e e' : Ty} (h : e.Corresponds ts w e') :
    (ParameterTable.ofElement e).Corresponds ts w (.ofElement e') := ⟨.cons ⟨rfl, h⟩ .nil, rfl⟩

theorem symbolAt? (h : t.Corresponds ts w t') (i : Nat) :
    Option.Rel (Symbol.Corresponds ts w) (t.symbolAt? i) (t'.symbolAt? i) := by
  have hd := getElem?_of_forall₂ h.parameters i
  unfold ParameterTable.symbolAt?
  generalize t.parameters[i]? = d, t'.parameters[i]? = d' at hd
  cases hd with
  | none => exact .none
  | some hd => exact .some ⟨hd.1, rfl, hd.2⟩

theorem lookup? (h : t.Corresponds ts w t') (name : String) :
    Option.Rel (Symbol.Corresponds ts w) (t.lookup? name) (t'.lookup? name) := by
  unfold ParameterTable.lookup?
  cases hc : Symbol.constant? name with
  | some s =>
    refine .some ⟨rfl, rfl, ?_⟩
    unfold Symbol.constant? at hc
    split at hc <;> cases hc
    · exact .prim _
    · exact .prim _
    · exact .null
  | none =>
    dsimp only
    split
    · exact .none
    · have hindex : t.parameters.findIdx? (fun d => d.name == name) =
          t'.parameters.findIdx? fun d => d.name == name := by
        have hparameters := h.parameters
        generalize t.parameters = ds, t'.parameters = ds' at hparameters
        induction hparameters with
        | nil => rfl
        | cons hd _ ih => rw [List.findIdx?_cons, List.findIdx?_cons, hd.1, ih]
      rw [hindex]
      cases t'.parameters.findIdx? fun d => d.name == name with
      | none => exact .none
      | some i => exact h.symbolAt? i

theorem implicit? (h : t.Corresponds ts w t') :
    Option.Rel (Symbol.Corresponds ts w) t.implicit? t'.implicit? := by
  unfold ParameterTable.implicit?
  rw [h.implicit]
  cases t'.implicit with
  | none => exact .none
  | some i => exact h.symbolAt? i

end ParameterTable.Corresponds

namespace Scopes.Corresponds

variable {s s' : Scopes} {e e' : Ty}

theorem mono (hg : w.Grows w') (h : s.Corresponds ts w s') : s.Corresponds ts w' s' :=
  ⟨h.root.mono hg, h.elements.imp fun _ _ h => h.mono hg⟩

theorem push (h : s.Corresponds ts w s') (he : e.Corresponds ts w e') :
    (s.push e).Corresponds ts w (s'.push e') := ⟨h.root, .cons he h.elements⟩

theorem pop (h : s.Corresponds ts w s') : s.pop.Corresponds ts w s'.pop := by
  refine ⟨h.root, ?_⟩
  have helements := h.elements
  unfold Scopes.pop
  generalize s.elements = es, s'.elements = es' at helements
  cases helements with
  | nil => exact .nil
  | cons _ h => exact h

theorem current (h : s.Corresponds ts w s') : s.current.Corresponds ts w s'.current := by
  have helements := h.elements
  unfold Scopes.current
  generalize s.elements = es, s'.elements = es' at helements
  cases helements with
  | nil => exact h.root
  | cons he _ => exact .ofElement he

theorem implicit? (h : s.Corresponds ts w s') :
    Option.Rel (Symbol.Corresponds ts w) s.implicit? s'.implicit? := h.current.implicit?

theorem lookup? (h : s.Corresponds ts w s') (name : String) :
    Option.Rel (Symbol.Corresponds ts w) (s.lookup? name) (s'.lookup? name) := by
  have htables : List.Forall₂ (ParameterTable.Corresponds ts w) s.tables s'.tables :=
    List.rel_append (List.forall₂_map_left_iff.mpr (List.forall₂_map_right_iff.mpr
      (h.elements.imp fun _ _ he => .ofElement he))) (.cons h.root .nil)
  unfold Scopes.lookup?
  generalize s.tables = us, s'.tables = us' at htables
  induction htables with
  | nil => exact .none
  | @cons t t' _ _ ht _ ih =>
    have hfound := ht.lookup? name
    rw [List.findSome?_cons, List.findSome?_cons]
    generalize t.lookup? name = x, t'.lookup? name = x' at hfound
    cases hfound with
    | some hx => exact .some hx
    | none => exact ih

end Scopes.Corresponds

/-! ### Steps -/

/-- The caches of two contexts. -/
def Context.caches (k k' : Context) : Caches := ⟨k.records, k'.records⟩

/-- Both contexts serve the declared types, and what is in scope corresponds. -/
structure Context.Corresponds (ts : List Ty) (k k' : Context) : Prop where
  sound : (k.caches k').Sound ts
  scopes : k.scopes.Corresponds ts (k.caches k') k'.scopes

namespace Caches.Grows

theorem refl : w.Grows w := ⟨.refl, .refl⟩

theorem trans {w'' : Caches} (h : w.Grows w') (h' : w'.Grows w'') : w.Grows w'' :=
  ⟨h.left.trans h'.left, h.right.trans h'.right⟩

end Caches.Grows

namespace Check

variable {α β γ δ : Type} {S : Caches → α → β → Prop} {T : Caches → γ → δ → Prop}
  {m : Check α} {m' : Check β}

/-- Started in corresponding contexts beyond the caches, the second check goes on
wherever the first one does, and what they yield is so related. -/
def Pairs (ts : List Ty) (w : Caches) (S : Caches → α → β → Prop) (m : Check α)
    (m' : Check β) : Prop :=
  ∀ k k', w.Grows (k.caches k') → k.Corresponds ts k' → ∀ x d, m k = (.ok x, d) →
    ∃ x' d', m' k' = (.ok x', d') ∧ (k.caches k').Grows (d.caches d') ∧ d.Corresponds ts d' ∧
      S (d.caches d') x x'

/-- The two checks yield terms that correspond. -/
abbrev PairsTerm (ts : List Ty) (w : Caches) : Check Term → Check Term → Prop :=
  Pairs ts w (Term.Corresponds ts)

theorem Pairs.later (hg : w.Grows w') (h : Pairs ts w S m m') : Pairs ts w' S m m' :=
  fun k k' hg' => h k k' (hg.trans hg')

theorem pairs_pure {x : α} {x' : β} (h : ∀ w', w.Grows w' → S w' x x') :
    Pairs ts w S (pure x) (pure x') :=
  fun k k' hg hk _ _ heq => by
    cases heq
    exact ⟨x', k', rfl, .refl, hk, h _ hg⟩

theorem pairs_term {e e' : Term} (h : e.Corresponds ts w e') :
    PairsTerm ts w (pure e) (pure e') := pairs_pure fun _ hg => h.mono hg

theorem pairs_fail (cause : Cause) (span : Span) : Pairs ts w S (fail cause span) m' :=
  fun _ _ _ _ _ _ heq => by cases heq

theorem Pairs.bind {f : α → Check γ} {f' : β → Check δ} (hm : Pairs ts w S m m')
    (hf : ∀ w', w.Grows w' → w'.Sound ts → ∀ x x', S w' x x' → Pairs ts w' T (f x) (f' x')) :
    Pairs ts w T (m >>= f) (m' >>= f') := by
  intro k k' hg hk y d heq
  obtain ⟨x, c, hx, hy⟩ := Step.bind_ok_iff.mp heq
  obtain ⟨x', c', hx', hgrows, hc, hS⟩ := hm k k' hg hk x c hx
  -- what follows starts where the first steps have left the two contexts
  obtain ⟨y', d', hy', hgrows', hd, hT⟩ :=
    hf _ (hg.trans hgrows) hc.sound x x' hS c c' .refl hc y d hy
  exact ⟨y', d', Step.bind_ok_iff.mpr ⟨x', c', hx', hy'⟩, hgrows.trans hgrows', hd, hT⟩

theorem Pairs.ite {p : Prop} [Decidable p] {n : Check α} {n' : Check β} (hm : Pairs ts w S m m')
    (hn : Pairs ts w S n n') : Pairs ts w S (if p then m else n) (if p then m' else n') := by
  split
  · exact hm
  · exact hn

/-- It makes no difference if the step before may fail. -/
theorem Pairs.guarded {p : Prop} [Decidable p] (cause cause' : Cause) (span span' : Span)
    (hm : Pairs ts w S m m') :
    Pairs ts w S (if p then Check.fail cause span >>= fun _ : PUnit => m else m)
      (if p then Check.fail cause' span' >>= fun _ : PUnit => m' else m') :=
  .ite (fun _ _ _ _ _ _ heq => by cases heq) hm

theorem pairs_scopes : Pairs ts w (Scopes.Corresponds ts) scopes scopes :=
  fun k k' _ hk _ _ heq => by
    cases heq
    exact ⟨k'.scopes, k', rfl, .refl, hk, hk.scopes⟩

theorem pairs_ofExcept {x : Except Failure α} {x' : Except Failure β}
    (h : ∀ y, x = .ok y → ∃ y', x' = .ok y' ∧ ∀ w', w.Grows w' → S w' y y') :
    Pairs ts w S (ofExcept x) (ofExcept x') := by
  intro k k' hg hk y d heq
  rw [ofExcept_apply] at heq
  cases heq
  obtain ⟨y', rfl, hS⟩ := h y rfl
  exact ⟨y', k', rfl, .refl, hk, hS _ hg⟩

/-- **What is requested over the one cache is requested over the other one**, and the
records correspond. -/
theorem pairs_request {ps qs : Properties} (hp : ps.Correspond ts w qs) (span : Span) :
    Pairs ts w (fun w r s => r.type.Corresponds ts w s.type) (request ps span)
      (request qs span) := by
  intro k k' hg hk r d heq
  rw [request_apply] at heq
  rcases hr : k.records.request ps with ⟨cause | r', records⟩ <;> rw [hr] at heq <;> cases heq
  obtain ⟨s, records', hs, hsound, hgrows, hcorr⟩ := hk.sound.request (hp.mono hg) hr
  refine ⟨s, { k' with records := records' }, ?_, hgrows, ⟨hsound, hk.scopes.mono hgrows⟩, hcorr⟩
  rw [request_apply, show k'.records.request qs = _ from hs]
  rfl

theorem Pairs.withElement {t t' : Ty} (ht : t.Corresponds ts w t') (hm : Pairs ts w S m m') :
    Pairs ts w S (withElement t m) (withElement t' m') := by
  intro k k' hg hk x d heq
  rw [withElement_apply] at heq
  rcases hx : m { k with scopes := k.scopes.push t } with ⟨f | y, c⟩ <;> rw [hx] at heq <;>
    cases heq
  have hpush : Context.Corresponds ts ⟨k.records, k.scopes.push t⟩
      ⟨k'.records, k'.scopes.push t'⟩ := ⟨hk.sound, hk.scopes.push (ht.mono hg)⟩
  obtain ⟨x', c', hx', hgrows, hc, hS⟩ := hm ⟨k.records, k.scopes.push t⟩
    ⟨k'.records, k'.scopes.push t'⟩ hg hpush x c hx
  refine ⟨x', { c' with scopes := c'.scopes.pop }, ?_, hgrows, ⟨hc.sound, hc.scopes.pop⟩, hS⟩
  rw [withElement_apply, hx']

/-! ### Values -/

section
variable {m m' : Check Term} {ms ms' : List (Check Term)} {e e' : Term} {t t' : Ty}

theorem pairs_value (hm : PairsTerm ts w m m') : PairsTerm ts w (value m) (value m') :=
  hm.bind fun _ _ _ e e' he => by
    rw [he.type.isVoid]
    exact (pairs_term he).guarded _ _ _ _

theorem pairs_values (hms : List.Forall₂ (PairsTerm ts w) ms ms') :
    Pairs ts w (fun w => List.Forall₂ (Term.Corresponds ts w)) (values ms) (values ms') := by
  induction hms with
  | nil => exact pairs_pure fun _ _ => .nil
  | cons hm _ ih =>
    refine (pairs_value hm).bind fun w₁ hg _ e e' he => ?_
    refine (ih.later hg).bind fun w₂ hg' _ es es' hes => ?_
    -- the caches may have grown since the terms were yielded
    refine pairs_pure fun _ hg'' => ?_
    exact .cons (he.mono (hg'.trans hg'')) (hes.imp fun _ _ h => h.mono hg'')

theorem pairs_converted (hw : w.Sound ts) (he : e.Corresponds ts w e')
    (ht : t.Corresponds ts w t') : PairsTerm ts w (converted e t) (converted e' t') := by
  unfold converted Term.coerce?
  rw [hw.isAssignable he ht]
  cases e'.isAssignable t' with
  | true => exact pairs_term (hw.convertTo he ht)
  | false => exact pairs_fail _ _

end
end Check
end QueryExpr
