/-
# Evaluation by what names stand for

A second way to evaluate a term asks what each name stands for where it is
used. A parameter is found by its place among the arguments; the element of a
body is the innermost binding. Nothing is found by its name.

Both ways come to the same when the first one finds under the name of each
parameter what the second one finds at its place. So a lambda gives each
parameter the argument of the last parameter that is bound to the same name.

Key definitions: `Eval.element`, `Eval.referred`, `Eval.resolved`,
`Lambda.invokeByPlace`.
Key theorems: `Term.Typed.same_resolved`, `Lambda.invoke_lastAlike`.
-/
import Mathlib
import QueryExpr.Proofs.CompiledLambda
import QueryExpr.Proofs.SameEval

namespace QueryExpr

namespace Eval

/-- The current element of the innermost body. -/
def element : Eval Value := do
  match (← get).environment with
  | (_, v) :: _ => return v
  | [] => throw (.unboundParameter implicitName)

/-- The value of what a name stands for. -/
def referred (argument : Nat → Option Value) (s : Scopes) (name : String) : Eval Value :=
  match s.referent? name with
  | some .element => element
  | some (.argument i) =>
    match argument i with
    | some v => return v
    | none => throw (.unboundParameter name)
  | none => throw (.unboundParameter name)

mutual
/-- Evaluates a checked expression with the arguments at the given places. -/
def resolved (host : Host) (argument : Nat → Option Value) : Scopes → Term → Eval Value
  | _, .constant v _ _ => return .scalar v
  | s, .parameter name _ _ => referred argument s name
  | s, .member target name _ _ => do
    ofExcept ((← resolved host argument s target).member host name)
  | s, .index target arguments _ _ => do
    let v ← resolved host argument s target
    index host v (← values (resolvedAll host argument s arguments))
  | s, .call target method arguments _ _ => do
    let v ← resolved host argument s target
    call host v method (← values (resolvedAll host argument s arguments))
  | s, .intrinsic op target arguments _ _ => do
    let v ← resolved host argument s target
    ofExcept (op.apply v (← values (resolvedAll host argument s arguments)))
  | s, .function op arguments _ _ => do
    ofExcept (op.apply .null (← values (resolvedAll host argument s arguments)))
  | s, .aggregate op source type _ => do
    aggregate op (← ofExcept ((← resolved host argument s source).elements host)) none none type
  | s, .aggregateBy op source body type _ => do
    let items ← ofExcept ((← resolved host argument s source).elements host)
    -- the body has its own scope, whose `it` is the element
    let inner := s.push (source.type.element?.getD .void)
    aggregate op items (some (resolved host argument inner body)) none type
  | s, .aggregateWith op source operand type _ => do
    let items ← ofExcept ((← resolved host argument s source).elements host)
    aggregate op items none (some (← resolved host argument s operand)) type
  | s, .convert operand type _ => do
    ofExcept ((← resolved host argument s operand).convert type)
  | s, .unary op operand _ _ => do ofExcept (op.apply (← resolved host argument s operand))
  | s, .binary .andAlso left right _ _ =>
    conjunction (resolved host argument s left) (resolved host argument s right)
  | s, .binary .orElse left right _ _ =>
    disjunction (resolved host argument s left) (resolved host argument s right)
  | s, .binary op left right _ _ => do
    let l ← resolved host argument s left
    ofExcept (op.apply l (← resolved host argument s right))
  | s, .conditional condition whenTrue whenFalse _ _ =>
    conditional (resolved host argument s condition) (resolved host argument s whenTrue)
      (resolved host argument s whenFalse)
  | s, .coalesce left right _ _ =>
    coalesce (resolved host argument s left) (resolved host argument s right)
  | s, .inList operand candidates _ _ => do
    let v ← resolved host argument s operand
    return .boolean (← isAmong v (resolvedAll host argument s candidates))
  | s, .inSequence operand source _ _ => do
    let v ← resolved host argument s operand
    let items ← ofExcept ((← resolved host argument s source).elements host)
    return .boolean (items.any v.equals)
  | s, .newRecord entries type _ =>
    match type with
    | .record id properties => do
      ofExcept (Value.ofRecord ⟨id, properties⟩
        (← values (resolvedAll host argument s entries)))
    | _ => throw (.typeMismatch "record" type.display)
  | s, .newArray elements _ _ => do newList (← values (resolvedAll host argument s elements))
  | s, .invoke delegate arguments _ _ => do
    let v ← resolved host argument s delegate
    invoke host v (← values (resolvedAll host argument s arguments))
termination_by structural _ e => e

/-- The evaluations of several expressions. -/
def resolvedAll (host : Host) (argument : Nat → Option Value) :
    Scopes → List Term → List (Eval Value)
  | _, [] => []
  | s, e :: es => resolved host argument s e :: resolvedAll host argument s es
termination_by structural _ es => es
end

end Eval

/-- Evaluates the body of a lambda. The parameter at a place has the argument
at the place given for it. -/
def Lambda.invokeByPlace (host : Host) (f : Lambda) (t : ParameterTable) (place : Nat → Nat)
    (arguments : List Value) : Eval Value := do
  if f.parameters.length != arguments.length then
    throw (.argumentCount f.parameters.length arguments.length)
  let v ← Eval.resolved host (fun i => arguments[place i]?) (.ofTable t) f.body
  return if f.returns.isVoid then .null else v

namespace Eval

variable {host : Host} {argument : Nat → Option Value} {s : Scopes} {base base' : Environment}
  {vs : List Value}

/-- What is bound to the elements of bodies, the current one first. -/
def ofElements (vs : List Value) : Environment := vs.map fun v => (implicitName, v)

/-- Under the name of each parameter stands the argument at its place. -/
def Places (argument : Nat → Option Value) (ds : List Declaration) (env : Environment) : Prop :=
  ∀ i d, ds[i]? = some d → ∃ v, argument i = some v ∧ env.lookup d.boundName = some v

theorem lookup_ofElements {name : String} (h : name ≠ implicitName) :
    (ofElements vs ++ base).lookup name = base.lookup name := by
  induction vs with
  | nil => rfl
  | cons v vs ih =>
    have hne : (name == implicitName) = false := by simpa using h
    show List.lookup name ((implicitName, v) :: (ofElements vs ++ base)) = _
    rw [List.lookup_cons, hne]
    exact ih

/-- A parameter that is taken for what its name stands for comes to that. -/
theorem same_referred (hl : vs.length = s.elements.length)
    (hb : Places argument s.root.parameters base) {sym : Symbol} {r : Referent}
    (hr : s.Resolves sym r) (hs : s.referent? sym.boundName = some r) :
    Same (ofElements vs ++ base) (ofElements vs ++ base') (lookup sym.boundName)
      (referred argument s sym.boundName) := by
  have argument_found {i : Nat} {d : Declaration} (hi : s.root.parameters[i]? = some d)
      (hb' : (ofElements vs ++ base).lookup d.boundName = base.lookup d.boundName)
      (hs : s.referent? d.boundName = some (.argument i)) :
      Same (ofElements vs ++ base) (ofElements vs ++ base') (lookup d.boundName)
        (referred argument s d.boundName) := by
    obtain ⟨v, hv, hlook⟩ := hb i d hi
    refine same_of_unmoved (r := .ok v) (fun _ _ => ?_) fun _ _ => ?_
    · rw [lookup_apply]
      simp only [hb', hlook]
    · simp only [referred, hs, hv]
      rfl
  cases hr with
  | @element t ts ht =>
    rw [ht] at hl
    obtain ⟨v, vs, rfl⟩ : ∃ v vs', vs = v :: vs' := List.exists_cons_of_length_eq_add_one hl
    refine same_of_unmoved (r := .ok v) (fun _ _ => rfl) fun _ _ => ?_
    simp only [referred, hs]
    rfl
  | @implicit n i t he hi =>
    obtain ⟨j, -, d, hj, hsym⟩ := ParameterTable.implicit?_eq hi
    cases hsym
    have hvs : vs = [] := by
      rw [he] at hl
      exact List.eq_nil_of_length_eq_zero hl
    subst hvs
    exact argument_found hj rfl hs
  | @named n i t hn hi =>
    obtain ⟨hne, j, d, hd, rfl, hsym⟩ := ParameterTable.lookup?_eq hi rfl
    cases hsym
    have hbound : d.boundName = d.name := by simp [Declaration.boundName, hne]
    exact argument_found hd (lookup_ofElements (hbound ▸ hn)) hs

theorem same_terms {es : List Term} {env env' : Environment}
    (h : ∀ e ∈ es, Same env env' (term host e) (resolved host argument s e)) :
    List.Forall₂ (Same env env') (terms host es) (resolvedAll host argument s es) := by
  induction es with
  | nil => exact .nil
  | cons e es ih =>
    have he := h e List.mem_cons_self
    exact .cons he (ih fun a ha => h a (List.mem_cons_of_mem _ ha))

theorem same_convertTo {e : Term} {env env' : Environment}
    (h : Same env env' (term host e) (resolved host argument s e)) (t : Ty) :
    Same env env' (term host (e.convertTo t)) (resolved host argument s (e.convertTo t)) := by
  unfold Term.convertTo
  split
  · exact h
  · split
    · exact still_pure _ _ _
    · exact h.then fun v => still_ofExcept _

theorem same_binary {op : Operation} {l r : Term} {t : Ty} {span : Span}
    {env env' : Environment} (hl : Same env env' (term host l) (resolved host argument s l))
    (hr : Same env env' (term host r) (resolved host argument s r)) :
    Same env env' (term host (.binary op l r t span))
      (resolved host argument s (.binary op l r t span)) := by
  have operator (op : Operation) : Same env env'
      (do
        let v ← term host l
        ofExcept (op.apply v (← term host r)))
      (do
        let v ← resolved host argument s l
        ofExcept (op.apply v (← resolved host argument s r))) :=
    hl.bind fun v => hr.then fun w => still_ofExcept _
  cases op with
  | andAlso => exact same_conjunction hl hr
  | orElse => exact same_disjunction hl hr
  | _ => exact operator _

end Eval

open Eval in
/-- **Both ways of evaluation come to the same**, if under the name of each
parameter stands the argument at its place. -/
theorem Term.Typed.same_resolved {host : Host} {argument : Nat → Option Value}
    {base base' : Environment} {s : Scopes} {e : Term} (h : Typed .scoped s e)
    (hd : ParameterTable.duplicate? s.root.parameters = none)
    (hb : Places argument s.root.parameters base) :
    ∀ {vs : List Value}, vs.length = s.elements.length →
      Same (ofElements vs ++ base) (ofElements vs ++ base') (term host e)
        (resolved host argument s e) := by
  induction h with
  | constant => exact fun _ => still_pure _ _ _
  | parameter h =>
    intro vs hl
    obtain ⟨r, hr, hs⟩ := h.resolves hd
    exact same_referred hl hb hr hs
  | member _ _ _ ih => exact fun hl => (ih hd hb hl).then fun v => still_ofExcept _
  | index _ _ _ _ _ _ ih ihs =>
    intro vs hl
    have hvs := same_values (same_terms fun a ha => ihs a ha hd hb hl)
    exact (ih hd hb hl).bind fun v => hvs.then fun _ => still_index _ _ _
  | call _ _ _ _ _ _ ih ihs =>
    intro vs hl
    have hvs := same_values (same_terms fun a ha => ihs a ha hd hb hl)
    exact (ih hd hb hl).bind fun v => hvs.then fun _ => still_call _ _ _ _
  | property _ _ _ ih => exact fun hl => (ih hd hb hl).then fun v => still_ofExcept _
  | method _ _ _ _ _ _ ih ihs =>
    intro vs hl
    have hvs := same_values (same_terms fun a ha => ihs a ha hd hb hl)
    exact (ih hd hb hl).bind fun v => hvs.then fun _ => still_ofExcept _
  | function _ _ _ _ ihs =>
    intro vs hl
    exact (same_values (same_terms fun a ha => ihs a ha hd hb hl)).then fun _ => still_ofExcept _
  | aggregate _ _ _ _ ih =>
    exact fun hl => (ih hd hb hl).bind fun v => (still_ofExcept _ _ _).bind fun items =>
      same_aggregate sameBody_none _ _ _ _
  | @aggregateTest s op source test element t span _ _ he _ _ _ ih ihb
  | @aggregateSelect s op source test element t span _ _ he _ _ _ _ ih ihb =>
    intro vs hl
    refine (ih hd hb hl).bind fun v => (still_ofExcept _ _ _).bind fun items => ?_
    -- the current element is bound in the environment of the body
    have body (w : Value) : Same ((implicitName, w) :: (ofElements vs ++ base))
        ((implicitName, w) :: (ofElements vs ++ base')) (term host test)
        (resolved host argument (s.push (source.type.element?.getD .void)) test) := by
      rw [he]
      show Same (ofElements (w :: vs) ++ base) (ofElements (w :: vs) ++ base') _ _
      exact ihb hd hb (congrArg Nat.succ hl)
    exact same_aggregate (sameBody_some body) _ _ _ _
  | aggregateWith _ _ _ _ _ _ _ ih iha =>
    exact fun hl => (ih hd hb hl).bind fun v => (still_ofExcept _ _ _).bind fun items =>
      (iha hd hb hl).bind fun w => same_aggregate sameBody_none _ _ _ _
  | convert _ _ _ _ _ ih | negate _ _ _ _ ih | not _ _ _ _ ih =>
    exact fun hl => (ih hd hb hl).then fun v => still_ofExcept _
  | arithmetic _ _ _ _ _ _ _ _ ihl ihr | concat _ _ _ _ ihl ihr
  | equality _ _ _ _ _ _ ihl ihr | ordering _ _ _ _ _ _ ihl ihr
  | logic _ _ _ _ _ _ _ ihl ihr =>
    exact fun hl => same_binary (ihl hd hb hl) (ihr hd hb hl)
  | conditional _ _ _ _ _ _ _ _ _ ihc iha ihb =>
    exact fun hl => same_conditional (ihc hd hb hl) (iha hd hb hl) (ihb hd hb hl)
  | coalesce _ _ _ _ _ _ _ ihl ihr =>
    exact fun hl => same_coalesce (ihl hd hb hl) (ihr hd hb hl)
  | coalesceNull _ _ _ _ ihl ihr =>
    exact fun hl => same_coalesce (same_convertTo (ihl hd hb hl) _) (ihr hd hb hl)
  | @inList s e es t span _ _ _ _ _ _ _ ih ihs =>
    intro vs hl
    have hes : ∀ a ∈ es.map (·.convertTo t), Same (ofElements vs ++ base)
        (ofElements vs ++ base') (term host a) (resolved host argument s a) := by
      intro a ha
      obtain ⟨b, hbm, rfl⟩ := List.mem_map.mp ha
      exact same_convertTo (ihs b hbm hd hb hl) t
    exact (same_convertTo (ih hd hb hl) t).bind fun v =>
      (same_isAmong v (same_terms hes)).then fun _ => still_pure _
  | inSequence _ _ _ _ _ _ ih ihs =>
    exact fun hl => (ih hd hb hl).bind fun v => (ihs hd hb hl).bind fun w =>
      (still_ofExcept _ _ _).bind fun items => still_pure _ _ _
  | newRecord _ _ _ _ ihs =>
    intro vs hl
    exact (same_values (same_terms fun a ha => ihs a ha hd hb hl)).then fun _ => still_ofExcept _
  | newArray _ _ _ _ ihs =>
    intro vs hl
    exact (same_values (same_terms fun a ha => ihs a ha hd hb hl)).then fun _ => still_newList _
  | invoke _ _ _ _ _ ih ihs =>
    intro vs hl
    have hvs := same_values (same_terms fun a ha => ihs a ha hd hb hl)
    exact (ih hd hb hl).bind fun v => hvs.then fun _ => still_invoke _ _ _

/-- Under the name of each parameter stands the argument of the last parameter
bound to that name. -/
theorem Eval.places_lastAlike {ds : List Declaration} {arguments : List Value}
    (h : ds.length = arguments.length) (env : Environment) :
    Places (fun i => arguments[Declaration.lastAlike ds i]?) ds
      (((ds.map Declaration.boundName).zip arguments).reverse ++ env) := by
  intro i d hi
  cases hl : Declaration.lastNamed d.boundName ds with
  | none => exact absurd rfl (Declaration.lastNamed_eq_none hl d (List.mem_of_getElem? hi))
  | some k =>
    have hk : k < ds.length := by
      obtain ⟨⟨e, he, -⟩, -⟩ := Declaration.lastNamed_eq_some hl
      exact (List.getElem?_eq_some_iff.mp he).1
    have hv : arguments[k]? = some arguments[k] := List.getElem?_eq_getElem (h ▸ hk)
    have hlast : Declaration.lastAlike ds i = k := by
      simp [Declaration.lastAlike, hi, hl]
    refine ⟨arguments[k], ?_, ?_⟩
    · show arguments[Declaration.lastAlike ds i]? = some arguments[k]
      rw [hlast, hv]
    · rw [List.lookup_append, Declaration.lookup_bindings _ h, hl]
      simp [hv]

namespace Lambda

/-- A lambda whose body is made by the rules of typing gives each parameter the
argument of the last parameter alike. -/
theorem invoke_eq {f : Lambda} {t : ParameterTable}
    (hf : Term.Typed .scoped (.ofTable t) f.body)
    (hd : ParameterTable.duplicate? t.parameters = none) (ht : t.parameters = f.parameters)
    (host : Host) (arguments : List Value) :
    f.invoke host arguments =
      f.invokeByPlace host t (Declaration.lastAlike f.parameters) arguments := by
  obtain ⟨ds, implicit⟩ := t
  obtain rfl : ds = f.parameters := ht
  refine Eval.Same.eq fun env => ?_
  unfold invoke invokeByPlace
  by_cases hn : f.parameters.length = arguments.length
  · have hne : (f.parameters.length != arguments.length) = false := by simpa using hn
    have hb := Eval.places_lastAlike hn env
    have hbody : Eval.Same
        (((f.parameters.map Declaration.boundName).zip arguments).reverse ++ env) env
        (Eval.term host f.body)
        (Eval.resolved host (fun i => arguments[Declaration.lastAlike f.parameters i]?)
          (.ofTable ⟨f.parameters, implicit⟩) f.body) := hf.same_resolved hd hb List.length_nil
    rw [hne]
    exact (Eval.Same.withBindings_left hbody).then fun v => Eval.still_pure _
  · have hne : (f.parameters.length != arguments.length) = true := by simpa using hn
    rw [hne]
    exact Eval.still_throw _ _ _

/-- **A compiled lambda gives each parameter the argument of the last parameter
bound to the same name**, and each element of a body is the current one. Every
parameter in the body stands for what the checker took it for. It gets its own
argument just if no later parameter is bound to its name, and the only name
that several are bound to is `it`. -/
theorem invoke_lastAlike {o : Options} {ds : List Declaration} {implicit : Option Nat}
    {target : Target} {text : String} {records records' : RecordCache} {f : Lambda}
    (h : compile o ds implicit target text records = (.ok f, records')) :
    ∃ t, ParameterTable.make ds implicit = .ok t ∧ Term.Typed .scoped (.ofTable t) f.body ∧
      (∀ (s : Scopes) (sym : Symbol), s.root = t → s.Denotes .scoped sym →
        ∃ r, s.Resolves sym r ∧ s.referent? sym.boundName = some r) ∧
      (∀ host arguments, f.invoke host arguments =
        f.invokeByPlace host t (Declaration.lastAlike ds) arguments) ∧
      (∀ (i : Nat) (d : Declaration), ds[i]? = some d → (Declaration.lastAlike ds i = i ↔
        ∀ (j : Nat) (e : Declaration), i < j → ds[j]? = some e → e.boundName ≠ d.boundName)) ∧
      ∀ (i j : Nat) (d e : Declaration), i < j → ds[i]? = some d → ds[j]? = some e →
        e.boundName = d.boundName → d.boundName = implicitName := by
  have hall (t : Ty) : Discipline.scoped.Admits t := fun _ _ => trivial
  obtain ⟨hp, t, hmake, hbody, -⟩ := compile_typed Discipline.lawful_scoped
    (fun _ _ _ _ => trivial) (fun d _ => ⟨hall d.type, trivial⟩) (fun t _ => hall t)
    (fun t e _ _ => e.avoids_none o t records) (fun r _ => hall r.type) (fun _ _ _ => trivial) h
  obtain ⟨hds, hdup⟩ := ParameterTable.make_ok hmake
  have hroot : ParameterTable.duplicate? t.parameters = none := hds ▸ hdup
  refine ⟨t, hmake, hbody, fun s sym hs hd => ?_, fun host arguments => ?_,
    fun i d hi => Declaration.lastAlike_eq_iff hi,
    fun i j d e hij hi hj => ParameterTable.boundName_eq hdup hij hi hj⟩
  · subst hs
    exact hd.resolves hroot
  · rw [invoke_eq hbody hroot (hds.trans hp.symm), hp]

/-- Of parameters of which one alone is bound to `it`, each has its own
argument. -/
theorem invoke_lastAlike_it :
    let ds : List Declaration := [⟨"", .int32⟩, ⟨"x", .int32⟩]
    ∃ f t, compile {} ds (some 0) .inferred "it + x" .empty = (.ok f, .empty) ∧
      ParameterTable.make ds (some 0) = .ok t ∧
      ∀ host arguments, f.invoke host arguments =
        f.invokeByPlace host t (Declaration.lastAlike ds) arguments := by
  intro ds
  have h : compile {} ds (some 0) .inferred "it + x" .empty =
      (.ok ⟨ds, .binary .add (.parameter "it" .int32 ⟨0, 2⟩) (.parameter "x" .int32 ⟨5, 1⟩) .int32
        ⟨0, 6⟩, .int32, .ofDelegate none ds .int32⟩, .empty) := by with_unfolding_all rfl
  obtain ⟨t, ht, -, -, hi, -⟩ := invoke_lastAlike h
  exact ⟨_, t, h, ht, hi⟩

/-- Of two parameters without names the first of the wanted type is `it`, and
the argument of the other is read for it. -/
theorem invoke_ne_invokeByPlace :
    let ds : List Declaration := [⟨"", .int32⟩, ⟨"", .int32⟩]
    ∃ f t, ofContext {} .int32 (some ds) none "it" .empty = (.ok f, .empty) ∧
      ParameterTable.make ds (some 0) = .ok t ∧
      (Scopes.ofTable t).Resolves ⟨"", .parameter 0, .int32⟩ (.argument 0) ∧
      ∀ host, (f.invoke host [.int32 1, .int32 2] (.start 0)).1 = .ok (.int32 2) ∧
        (f.invokeByPlace host t id [.int32 1, .int32 2] (.start 0)).1 = .ok (.int32 1) := by
  intro ds
  have h : ofContext {} .int32 (some ds) none "it" .empty =
      (.ok ⟨ds, .parameter "it" .int32 ⟨0, 2⟩, .int32, .ofDelegate none ds .int32⟩, .empty) := rfl
  exact ⟨_, ⟨ds, some 0⟩, h, rfl, .implicit rfl rfl, fun host => ⟨rfl, rfl⟩⟩

end Lambda

end QueryExpr
