/-
# Membership in a list as a chain of equalities

The membership brings its operands to one common type, a chain of equalities each pair
to a type of its own, and evaluates the left operand anew for each of them. Where no
floating-point type is chosen both come to the same, be it a value or an error: the
conversions keep what equality looks at, and an operand comes to the same every time.

Key definitions: `Eval.firstEqual`, `Eval.Suits`, `Eval.ListAgreement`.
Key theorems: `Eval.comes_inList`, `Eval.comes_anyEqual`, `Eval.Suits.agree`,
`Check.listed_agrees`.
-/
import QueryExpr.Proofs.CheckedMemberships
import QueryExpr.Proofs.CheckTyping
import QueryExpr.Proofs.ComparedOperands

namespace QueryExpr

namespace Eval

variable {host : Host} {n : Nat} {env : Environment} {a e : Term} {es : List Term}
  {v v' : Value} {r : Except EvalError Value} {rs : List (Except EvalError Value)} {t : Ty}
  {ts : List Ty}

/-! ### Candidates one after the other -/

/-- Whether the value is among what candidates come to, up to the first that it equals
or that fails. -/
def firstEqual (v : Value) : List (Except EvalError Value) → Except EvalError Bool
  | [] => .ok false
  | r :: rs => do if v.equals (← r) then .ok true else firstEqual v rs

/-- The evaluation comes to the outcome, kept by a conversion. -/
def ComesPassed (n : Nat) (env : Environment) (m : Eval Value) (r : Except EvalError Value) :
    Prop :=
  ∃ r', Comes n env m r' ∧ Passed r r'

/-- **A value is looked for among candidates** in the order in which they stand. -/
theorem comes_isAmong (hv : v.Kept v') {ms : List (Eval Value)}
    (h : List.Forall₂ (ComesPassed n env) ms rs) :
    Comes n env (isAmong v' ms) (firstEqual v rs) := by
  induction h with
  | nil => exact .ofExcept (.ok false)
  | @cons m r ms rs hm _ ih =>
    obtain ⟨r', hm, hpassed⟩ := hm
    cases hpassed with
    | error x => exact hm.bind_error
    | @ok w w' hw =>
      refine hm.bind ?_
      rw [hv.equals hw]
      show Comes n env _ (if v.equals w then .ok true else firstEqual v rs)
      split
      · exact .ofExcept (.ok true)
      · exact ih

/-- An equality comes to whether the values are equal, if the left one is there. -/
theorem comes_equality {p : Term × Ty}
    (hl : ComesPassed n env (term host (a.convertTo p.2)) (.ok v))
    (hr : ComesPassed n env (term host (p.1.convertTo p.2)) r) :
    Comes n env (term host (a.equality p)) ((r.map v.equals).map Value.boolean) := by
  obtain ⟨_, hl, hv⟩ := hl
  obtain ⟨r', hr, hw⟩ := hr
  cases hv with
  | @ok _ v' hv =>
    refine hl.bind ?_
    cases hw with
    | error => exact hr.bind_error
    | @ok w w' hw =>
      refine hr.bind ?_
      show Comes n env (ofExcept (.ok (Value.boolean (v'.equals w'))))
        (.ok (Value.boolean (v.equals w)))
      rw [hv.equals hw]
      exact .ofExcept _

/-- What an outcome is, unless it is false and another one counts. -/
def orElse (x y : Except EvalError Bool) : Except EvalError Bool :=
  x >>= fun b => if b then .ok true else y

theorem comes_orElse {l r : Term} {s : Span} {x y : Except EvalError Bool}
    (hl : Comes n env (term host l) (x.map Value.boolean))
    (hr : Comes n env (term host r) (y.map Value.boolean)) :
    Comes n env (term host (.binary .orElse l r .boolean s)) ((orElse x y).map Value.boolean) := by
  cases x with
  | error => exact Comes.bind_error hl
  | ok b =>
    refine Comes.bind hl ?_
    cases b with
    | true => exact .ofExcept (.ok (Value.boolean true))
    | false =>
      cases y with
      | error => exact Comes.bind_error hr
      | ok b' =>
        refine Comes.bind hr ?_
        cases b' <;> exact .ofExcept (.ok (Value.boolean _))

/-- The links of a chain are evaluated until one of them settles it. -/
theorem comes_links {ps : List (Term × Ty)}
    (hl : ∀ q ∈ ps, ComesPassed n env (term host (a.convertTo q.2)) (.ok v))
    (hr : List.Forall₂ (fun q r => ComesPassed n env (term host (q.1.convertTo q.2)) r) ps rs)
    {l : Term} {x : Except EvalError Bool} (hx : Comes n env (term host l) (x.map Value.boolean)) :
    Comes n env
      (term host (ps.foldl (fun l p => .binary .orElse l (a.equality p) .boolean (.empty 0)) l))
      ((orElse x (firstEqual v rs)).map Value.boolean) := by
  induction hr generalizing l x with
  | nil =>
    have hfalse : orElse x (firstEqual v []) = x := by
      rcases x with _ | b
      · rfl
      · cases b <;> rfl
    rw [hfalse]
    exact hx
  | @cons p r ps rs hp _ ih =>
    obtain ⟨hlp, hl⟩ := List.forall_mem_cons.mp hl
    have hassoc : orElse (orElse x (r.map v.equals)) (firstEqual v rs) =
        orElse x (firstEqual v (r :: rs)) := by
      rcases x with _ | b
      · rfl
      · cases b
        · cases r <;> rfl
        · rfl
    rw [← hassoc]
    exact ih hl (comes_orElse hx (comes_equality hlp hp))

/-- **A chain of equalities** comes to what the search among the candidates does. -/
theorem comes_anyEqual {x y : Except EvalError Value} {p : Term × Ty} {ps : List (Term × Ty)}
    (hl : ∀ q ∈ p :: ps, ComesPassed n env (term host (a.convertTo q.2)) x)
    (hr : List.Forall₂ (fun q r => ComesPassed n env (term host (q.1.convertTo q.2)) r) (p :: ps)
      (y :: rs)) :
    Comes n env (term host (a.anyEqual p ps))
      ((x >>= fun v => firstEqual v (y :: rs)).map Value.boolean) := by
  cases x with
  | ok v =>
    obtain ⟨hlp, hl⟩ := List.forall_mem_cons.mp hl
    obtain ⟨hp, hr⟩ := List.forall₂_cons.mp hr
    have hfirst : orElse (y.map v.equals) (firstEqual v rs) = firstEqual v (y :: rs) := by
      cases y <;> rfl
    show Comes n env _ ((firstEqual v (y :: rs)).map Value.boolean)
    rw [← hfirst]
    exact comes_links hl hr (comes_equality hlp hp)
  | error x =>
    -- the left operand fails before any candidate is evaluated
    obtain ⟨_, hx, hpassed⟩ := hl p List.mem_cons_self
    cases hpassed
    have hfails {l : Term} (h : Comes n env (term host l) (.error x)) : Comes n env (term host
        (ps.foldl (fun l p => .binary .orElse l (a.equality p) .boolean (.empty 0)) l))
          (.error x) := by
      clear hl hr
      induction ps generalizing l with
      | nil => exact h
      | cons q ps ih => exact ih (Comes.bind_error h)
    exact hfails hx.bind_error

/-- **A membership in a list** comes to what the search among the candidates does. -/
theorem comes_inList {x : Except EvalError Value} {s : Span}
    (hx : ComesPassed n env (term host a) x)
    (hr : List.Forall₂ (fun e r => ComesPassed n env (term host e) r) es rs) :
    Comes n env (term host (.inList a es .boolean s))
      ((x >>= fun v => firstEqual v rs).map Value.boolean) := by
  obtain ⟨_, hx, hpassed⟩ := hx
  cases hpassed with
  | error => exact Comes.bind_error hx
  | @ok v v' hv =>
    refine Comes.bind hx ?_
    have hms : List.Forall₂ (ComesPassed n env) (terms host es) rs := by
      clear hx hv
      induction hr with
      | nil => exact .nil
      | cons he _ ih => exact .cons he ih
    have hamong := comes_isAmong hv hms
    show Comes n env _ ((firstEqual v rs).map Value.boolean)
    cases hfirst : firstEqual v rs with
    | error =>
      rw [hfirst] at hamong
      exact hamong.bind_error
    | ok b =>
      rw [hfirst] at hamong
      exact hamong.bind (.ofExcept (.ok (Value.boolean b)))

/-! ### Operands that are brought to types of comparison -/

/-- What a membership of checked operands is evaluated with: a host and an environment
without lists that are yet to be made, in which operands come to values of their types,
and no character above sixteen bits is brought to a type that cuts it. -/
structure Suits (host : Host) (n : Nat) (env : Environment) (a : Term) (es : List Term) :
    Prop where
  blind : host.IsBlind n
  below (name : String) (v : Value) : env.lookup name = some v → v.IsBelow n
  delivers : ∀ e ∈ a :: es, Delivers host env e
  uncut (e : Term) (t : Ty) : Converted a es e t → e.type.cutsChars t = true →
    ∀ c v d, c.environment = env → term host e c = (.ok v, d) →
      ∀ i, v.integer? = some i → i ≤ 65535

/-- Wherever operands are integers, characters, truth values, texts or null, and none is
brought to a floating-point type, the two terms come to the same, be it a value or an
error. -/
def ListAgreement (a : Term) (es : List Term) (b b' : Term) : Prop :=
  (∀ e ∈ a :: es, e.type.isDiscrete = true) →
    (∀ e t, Converted a es e t → t.isFloating = false) →
      ∀ host n env, Suits host n env a es →
        ∃ r, Comes n env (term host b) r ∧ Comes n env (term host b') r

variable {D : Discipline} {scopes : Scopes}

/-- Each operand comes to the same every time. -/
theorem Suits.comes (h : Suits host n env a es) (hd : ∀ e ∈ a :: es, e.type.isDiscrete = true)
    {e : Term} (he : e ∈ a :: es) : ∃ r, Comes n env (term host e) r :=
  comes_of_flat h.blind h.below fun _ _ _ hc hv => (h.delivers e he).scalar (hd e he) hc hv

/-- **Membership in a list agrees with a chain of equalities**, be it in a value or in
an error, if no floating-point type is chosen. -/
theorem Suits.agree (h : Suits host n env a (e :: es))
    (htyped : ∀ a' ∈ a :: e :: es, a'.Typed D scopes)
    (hd : ∀ a' ∈ a :: e :: es, a'.type.isDiscrete = true)
    (hfloating : ∀ a' u, Converted a (e :: es) a' u → u.isFloating = false)
    (hbest : Ty.bestOf a.type (e :: es) = .ok t)
    (hts : List.Forall₂ (fun e t => Ty.equality? a e = some t) (e :: es) (u :: ts)) (s : Span) :
    ∃ r, Comes n env
          (term host (.inList (a.convertTo t) ((e :: es).map (·.convertTo t)) .boolean s)) r ∧
        Comes n env (term host (a.anyEqual (e, u) (es.zip ts))) r := by
  have ha : a ∈ a :: e :: es := List.mem_cons_self
  have hbasic (a' : Term) (ha' : a' ∈ a :: e :: es) := Ty.isBasic_of_isDiscrete (hd a' ha')
  choose! outcome hcomes using fun a' (ha' : a' ∈ a :: e :: es) => h.comes hd ha'
  have passed {a' : Term} {v : Ty} (ha' : a' ∈ a :: e :: es) (hc : Converted a (e :: es) a' v)
      (hv : a'.type.converts v = true) :
      ComesPassed n env (term host (a'.convertTo v)) (outcome a') :=
    (hcomes a' ha').convertTo (h.delivers a' ha') (hd a' ha') hv (hfloating a' v hc)
      (h.uncut a' v hc)
  -- the membership brings all operands to one type
  obtain ⟨-, hat, hest⟩ := (hbasic a ha).bestOf
    (fun a' ha' => ⟨htyped a' (List.mem_cons_of_mem _ ha'), hbasic a' (List.mem_cons_of_mem _ ha')⟩)
    hbest
  have hcandidates : List.Forall₂ (fun e r => ComesPassed n env (term host e) r)
      ((e :: es).map (·.convertTo t)) ((e :: es).map outcome) := by
    refine List.forall₂_map_left_iff.mpr (List.forall₂_map_right_iff.mpr
      (List.forall₂_same.mpr fun a' ha' => ?_))
    have hmem := List.mem_cons_of_mem a ha'
    exact passed hmem (.common hbest hmem) (hest a' ha')
  -- the chain brings the left operand and each candidate to a type of their own
  obtain ⟨hlength, hpairs⟩ := List.forall₂_iff_zip.mp hts
  have hfst : ((e :: es).zip (u :: ts)).map Prod.fst = e :: es :=
    List.map_fst_zip (Nat.le_of_eq hlength)
  have hpair (q : Term × Ty) (hq : q ∈ (e, u) :: es.zip ts) : q.1 ∈ e :: es ∧
      Ty.equality? a q.1 = some q.2 ∧ a.type.converts q.2 = true ∧
        q.1.type.converts q.2 = true := by
    have hmem : q.1 ∈ e :: es := hfst ▸ List.mem_map_of_mem hq
    have heq := hpairs hq
    exact ⟨hmem, heq, Ty.IsBasic.equality? (htyped a ha)
      (htyped q.1 (List.mem_cons_of_mem _ hmem)) heq⟩
  have hlefts (q : Term × Ty) (hq : q ∈ (e, u) :: es.zip ts) :
      ComesPassed n env (term host (a.convertTo q.2)) (outcome a) := by
    obtain ⟨hmem, heq, hq, -⟩ := hpair q hq
    exact passed ha (.left hmem heq) hq
  have hrights : List.Forall₂ (fun q r => ComesPassed n env (term host (q.1.convertTo q.2)) r)
      ((e, u) :: es.zip ts) (outcome e :: es.map outcome) := by
    rw [← List.map_cons, ← hfst, List.map_map]
    refine List.forall₂_map_right_iff.mpr (List.forall₂_same.mpr fun q hq => ?_)
    obtain ⟨hmem, heq, -, hq⟩ := hpair q hq
    exact passed (List.mem_cons_of_mem a hmem) (.right hmem heq) hq
  exact ⟨_, comes_inList (passed ha (.common hbest ha) hat) hcandidates,
    comes_anyEqual hlefts hrights⟩

end Eval

/-! ### Checked memberships and chains -/

namespace Check

open Eval

variable {o : Options} {k k₁ k₂ : Context} {x c : Expr} {cs : List Expr} {s : Span} {b b' : Term}

/-- Checked operands are made by the rules. -/
theorem typed_operands {es : List Expr} {as : List Term}
    (hes : Expr.AllRegular (· ≠ implicitName) es) (h : values (exprs o es) k = (.ok as, k₁)) :
    ∀ a ∈ as, a.Typed .scoped k.scopes := by
  have hall (t : Ty) : Discipline.scoped.Admits t := fun _ _ => trivial
  have hs : k.scopes.Valued .scoped :=
    ⟨fun d _ => ⟨hall d.type, trivial⟩, fun t _ => ⟨hall t, trivial⟩⟩
  have hsound : ∀ m ∈ exprs o es, Sound .scoped m := by
    rw [← exprsWhere_all]
    exact sound_exprsWhere Discipline.lawful_scoped (fun _ _ _ _ => trivial) o es hes
  have hyields := yields_values Discipline.lawful_scoped hs hsound k rfl (fun r _ => hall r.type)
    fun _ _ _ => trivial
  exact fun a ha => ((hyields.2 as (by rw [h])).2 a ha).1

/-- **A membership in a list and a chain of equalities** are checked with the same
operands, and agree. -/
theorem listed_agrees (hx : Expr.AllRegular (· ≠ implicitName) (x :: c :: cs))
    (h : expr o (.inList x (c :: cs) s) k = (.ok b, k₁))
    (h' : expr o (x.anyEqual c cs) k = (.ok b', k₂)) :
    k₂ = k₁ ∧ ∃ a as, values (exprs o (x :: c :: cs)) k = (.ok (a :: as), k₁) ∧
      ListAgreement a as b b' := by
  obtain ⟨a, as, t, hvalues, hbest, rfl⟩ := inList_ok h
  obtain ⟨a', e, es, u, ts, hvalues', hu, hts, rfl⟩ := anyEqual_ok h'
  cases hvalues.symm.trans hvalues'
  exact ⟨rfl, a, e :: es, hvalues, fun hd hfloating host n env hsuits =>
    hsuits.agree (typed_operands hx hvalues) hd hfloating hbest (.cons hu hts) s⟩

end Check
end QueryExpr
