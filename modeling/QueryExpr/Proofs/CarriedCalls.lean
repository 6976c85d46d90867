/-
# Aggregates and calls under other names

What is asked of a target is carried over to other names: a member, an element,
a call. The member or method has its new name, an aggregate keeps the one it
has, and so does what is built in. The body of an aggregate is carried over in
the context that it is checked in.

Key definitions: `Context.inArguments`, `Check.callName`.
Key theorems: `Check.carries_aggregate`, `Check.carries_member`,
`Check.carries_method`, `Check.carries_invoke`.
-/
import QueryExpr.Proofs.CarriedSteps

namespace QueryExpr

/-! ### The arguments of a method -/

/-- What is in scope in the argument of an aggregate: the element, unless the
argument is a value. -/
def Aggregate.argumentScopes (op : Aggregate) (element : Ty) (s : Scopes) : Scopes :=
  if (op.taken? element).isSome then s else s.push element

/-- What is in scope in the arguments of a method of a value of the type: in the
argument of an aggregate, its element. -/
def Check.argumentScopes (target : Ty) (name : String) (s : Scopes) : Scopes :=
  match target.element?, Aggregate.ofName? name with
  | some element, some op => op.argumentScopes element s
  | _, _ => s

/-- The context of the arguments of a method of a value of the type. -/
def Context.inArguments (c : Context) (target : Ty) (name : String) : Context :=
  { c with scopes := Check.argumentScopes target name c.scopes }

/-- Whether a call of the name on a value of the type is an aggregate, which
comes before any method of its name. -/
def Check.isAggregate (target : Ty) (name : String) : Bool :=
  target.element?.isSome && (Aggregate.ofName? name).isSome

/-- The new name of the method that a call on a value of the type is one of. An
aggregate and a built-in method keep theirs. -/
def Check.callName (r : Renaming) (target : Ty) (name : String) : String :=
  if isAggregate target name || (target.methods name).isEmpty then name else target.nameIn r name

namespace Check

variable {α β : Type} {r : Renaming} {P : Term → Prop} {c d : Context} {m m' : Check Term}
  {ms ms' : List (Check Term)}

/-! ### Aggregates -/

theorem carries_body (t : Ty)
    (hm : CarriesTerm r P { c with scopes := c.scopes.push t } m m') :
    CarriesTerm r P c (body t m) (body (t.rename r) m') :=
  Carries.withElement t (carries_value hm)

theorem carries_predicate (t : Ty)
    (hm : CarriesTerm r P { c with scopes := c.scopes.push t } m m') :
    CarriesTerm r P c (predicate t m) (predicate (t.rename r) m') := by
  refine (carries_body t hm).bind (fun e => (reveals_pure id).guarded _ _) fun e d _ _ => ?_
  have hboolean : (e.type.rename r == .boolean) = (e.type == .boolean) :=
    Ty.beq_rename e.type .boolean
  rw [e.type_rename, hboolean]
  exact (carries_pure e).guarded _ _ _ _

theorem reveals_aggregate (source : Term) (element : Ty) (op : Aggregate)
    (ms : List (Check Term)) (span : Span) :
    Reveals (Term.EveryPart P) (aggregate source element op ms span)
      (P source ∧ source.EveryPart P) := by
  rcases aggregate_cases source element op ms span with
    ⟨cause, h⟩ | ⟨t, -, -, h⟩ | ⟨m, t, -, -, h⟩ | ⟨m, -, h⟩ | ⟨m, u, t, -, -, h⟩
  all_goals rw [h]
  · exact reveals_fail _ _
  · exact reveals_pure id
  · exact Reveals.after fun e => reveals_pure fun h => h.1
  · refine Reveals.after fun e => ?_
    split
    · exact reveals_pure fun h => h.1
    · exact reveals_fail _ _
  · exact Reveals.after fun e => Reveals.after fun e => reveals_pure fun h => h.1

theorem carries_aggregate (source : Term) (element : Ty) (op : Aggregate) (span : Span)
    (hms : CarriesAll r P { c with scopes := op.argumentScopes element c.scopes } ms ms') :
    CarriesTerm r P c (aggregate source element op ms span)
      (aggregate (source.rename r) (element.rename r) op ms' span) := by
  cases hms with
  | nil =>
    rw [aggregate_nil, aggregate_nil, Aggregate.plain?_rename]
    cases op.plain? element with
    | some t => exact carries_term (.aggregate op source t span)
    | none => exact carries_fail _ _
  | cons hm hms =>
    cases hms with
    | cons _ _ =>
      rw [aggregate_more]
      exact carries_fail _ _
    | nil =>
      rw [aggregate_one, aggregate_one, Aggregate.tested?_rename, Aggregate.taken?_rename]
      cases ht : op.tested? element with
      | some t =>
        have hnone : op.taken? element = none := by cases op <;> first | rfl | cases ht
        have hm := carries_predicate (c := c) element (by
          rwa [Aggregate.argumentScopes, hnone] at hm)
        exact hm.bind (fun e => reveals_pure fun h => h.2.2) fun e _ _ _ =>
          carries_term (.aggregateBy op source e t span)
      | none =>
        cases hu : op.taken? element with
        | some ut =>
          rw [Aggregate.argumentScopes, hu] at hm
          refine (carries_value hm).bind (fun e => ?_) fun e _ _ _ => ?_
          · exact (reveals_converted e ut.1).bind fun e => reveals_pure fun h => h.2.2
          · exact (carries_converted e ut.1).bind (fun e => reveals_pure fun h => h.2.2)
              fun e _ _ _ => carries_term (.aggregateWith op source e ut.2 span)
        | none =>
          rw [Aggregate.argumentScopes, hu] at hm
          refine (carries_body element hm).bind (fun e => ?_) fun e _ _ _ => ?_
          · split
            · exact reveals_pure fun h => h.2.2.of_brought
            · exact reveals_fail _ _
          · rw [e.type_rename, Aggregate.selected?_rename, ← Aggregate.rename_brought]
            cases op.selected? element e.type with
            | some t => exact carries_term (.aggregateBy op source (op.brought e) t span)
            | none => exact carries_fail _ _

/-! ### Members, calls and indexing -/

variable (hP : ∀ e, P e → e.type.Coherent r) {n : String} (hn : r.Free n)

theorem reveals_member (target : Term) (n : String) (span : Span) :
    Reveals (Term.EveryPart P) (member target n span) (P target ∧ target.EveryPart P) := by
  unfold member
  split
  · exact reveals_pure id
  · split
    · exact reveals_pure fun h => h.1
    · exact reveals_fail _ _

/-- A built-in property keeps its name. -/
theorem property?_nameIn {t : Ty} {x : Intrinsic × Ty} (h : Builtin.property? t n = some x) :
    t.nameIn r n = n ∧ (t.rename r).member? n = none ∧ x.2.rename r = x.2 := by
  have hprim : x.2.rename r = x.2 := by
    obtain ⟨p, hp⟩ : ∃ p, x.2 = .prim p := Builtin.property?_prim h
    rw [hp]
    rfl
  have hself {t : Ty} (hchain : t.chain = [t]) (hname : t.newName r n = n) : t.nameIn r n = n := by
    unfold Ty.nameIn
    rw [hchain, List.find?_singleton]
    split <;> rename_i u hu
    · split at hu <;> cases hu
      exact hname
    · rfl
  cases t with
  | prim | nullable | array => exact ⟨hself rfl rfl, rfl, hprim⟩
  | _ => cases h

include hP hn in
theorem carries_member (target : Term) (span : Span) :
    CarriesTerm r P c (member target n span)
      (member (target.rename r) (target.type.nameIn r n) span) := by
  intro e d heq hparts
  have htarget := (reveals_member target n span c e d heq hparts).1
  have hfound := (Ty.takes_nameIn (hP target htarget) hn).member?
  unfold member at heq ⊢
  rw [target.type_rename]
  cases hm : target.type.member? n with
  | some t =>
    rw [hm] at heq hfound
    cases heq
    rw [hfound]
    rfl
  | none =>
    rw [hm] at heq
    cases hx : Builtin.property? target.type n with
    | none => rw [hx] at heq; cases heq
    | some x =>
      rw [hx] at heq
      cases heq
      obtain ⟨hname, hnone, hprim⟩ := property?_nameIn (r := r) hx
      rw [hname, hnone, Builtin.property?_rename, hx]
      show _ = (Except.ok (Term.intrinsic x.1 (target.rename r) [] (x.2.rename r) span), _)
      rw [hprim]
      rfl

/-- The chosen candidate is one that every argument can be passed to. -/
theorem choose_ok {candidates : List α} {parameters : α → List Ty} {es : List Term}
    {name owner : String} {span : Span} {x : α}
    (heq : choose candidates parameters es name owner span c = (.ok x, d)) :
    x ∈ candidates ∧ List.Forall₂ (fun e t => e.isAssignable t = true) es (parameters x) :=
  (settled_choose candidates parameters es name owner span c rfl).2 x (by rw [heq])

/-- What is made of the converted arguments shows the arguments. -/
theorem reveals_chosen {candidates : List α} {parameters : α → List Ty} {es : List Term}
    {name owner : String} {span : Span} {f : α → Term}
    (hf : ∀ x, (f x).EveryPart P → Term.EveryPartOfAll P (convertArguments es (parameters x))) :
    Reveals (Term.EveryPart P)
      (choose candidates parameters es name owner span >>= fun x => pure (f x))
      (Term.AllParts P es) := by
  intro c e d heq hparts
  rw [Step.bind_apply] at heq
  rcases hx : choose candidates parameters es name owner span c with ⟨failure | x, c'⟩ <;>
    rw [hx] at heq
  · cases heq
  · cases heq
    exact Term.AllParts.of_convertArguments (choose_ok hx).2 (hf x hparts)

/-- The candidate chosen among the renamed ones is the renamed candidate. -/
theorem carries_choose (candidates : List α) (parameters : α → List Ty) (f : α → β)
    (parameters' : β → List Ty) (es : List Term) (name owner name' owner' : String) (span : Span)
    (hf : ∀ x ∈ candidates, parameters' (f x) = (parameters x).map (Ty.rename r)) :
    Carries r (fun _ => True) f c (choose candidates parameters es name owner span)
      (choose (candidates.map f) parameters' (Term.renameAll r es) name' owner' span) := by
  have hparameters : (candidates.map f).map parameters' =
      (candidates.map parameters).map (List.map (Ty.rename r)) := by
    rw [List.map_map, List.map_map]
    exact List.map_congr_left hf
  unfold choose
  rw [hparameters, selectOverload_rename]
  cases selectOverload (candidates.map parameters) es with
  | found i =>
    dsimp only
    rw [List.getElem?_map]
    cases candidates[i]? with
    | some x => exact carries_pure x
    | none => exact carries_fail _ _
  | noneApplicable | ambiguous => exact carries_fail _ _

theorem reveals_index (target : Term) (ms : List (Check Term)) (span : Span) :
    Reveals (Term.EveryPart P) (index target ms span) (P target ∧ target.EveryPart P) := by
  refine Reveals.after fun es => ?_
  dsimp only
  repeat' split
  · exact reveals_pure fun h => h.1
  all_goals exact reveals_fail _ _

theorem carries_index (target : Term) (span : Span) (hms : CarriesAll r P c ms ms') :
    CarriesTerm r P c (index target ms span) (index (target.rename r) ms' span) := by
  have hparameters : ((Check.indexers target.type).map (Signature.rename r)).map
      (fun s => s.parameters) =
      ((Check.indexers target.type).map (fun s => s.parameters)).map (List.map (Ty.rename r)) := by
    rw [List.map_map, List.map_map]
    rfl
  refine (carries_values hms).bind (fun es => ?_) fun es d _ _ => ?_
  · dsimp only
    split
    · rename_i i hi
      split
      · rename_i s hs
        obtain ⟨ts, hts, ha⟩ := selectOverload_found hi
        rw [List.getElem?_map, hs] at hts
        cases hts
        exact reveals_pure fun h => Term.AllParts.of_convertArguments ha h.2
      · exact reveals_fail _ _
    · exact reveals_fail _ _
    · exact reveals_fail _ _
  · dsimp only
    rw [target.type_rename, Ty.indexers_rename, hparameters, selectOverload_rename]
    cases selectOverload ((indexers target.type).map (·.parameters)) es with
    | found i =>
      dsimp only
      rw [List.getElem?_map]
      cases (indexers target.type)[i]? with
      | some s =>
        show Carries r _ _ d _ (pure (Term.index (target.rename r) (convertArguments
          (Term.renameAll r es) (s.parameters.map (Ty.rename r))) (s.returns.rename r) span))
        rw [← renameAll_convertArguments]
        exact carries_term (.index target (convertArguments es s.parameters) s.returns span)
      | none => exact carries_fail _ _
    | noneApplicable | ambiguous => exact carries_fail _ _

theorem reveals_method (target : Term) (n : String) (ms : List (Check Term)) (span : Span) :
    Reveals (Term.EveryPart P) (method target n ms span) (P target ∧ target.EveryPart P) := by
  unfold method
  split
  · exact reveals_aggregate _ _ _ _ _
  · refine Reveals.after fun es => ?_
    dsimp only
    split
    · exact Reveals.after fun b => reveals_pure fun h => h.1
    · exact Reveals.after fun s => reveals_pure fun h => h.1

theorem inArguments_of_not {t : Ty} (h : isAggregate t n = false) : c.inArguments t n = c := by
  unfold isAggregate at h
  unfold Context.inArguments argumentScopes
  cases he : t.element? with
  | none => rfl
  | some element =>
    cases ho : Aggregate.ofName? n with
    | none => rfl
    | some op =>
      rw [he, ho] at h
      cases h

/-- A call that is no aggregate is one of a method of the class, or else of a
built-in one. -/
theorem method_of_not {target : Term} {span : Span} (h : isAggregate target.type n = false) :
    method target n ms span = (do
      let es ← values ms
      if (target.type.methods n).isEmpty then
        choose (Builtin.methods target.type n) (·.parameters) es n target.type.display span >>=
          fun b => pure (.intrinsic b.op target (convertArguments es b.parameters) b.returns span)
      else
        choose (target.type.methods n) (·.parameters) es n target.type.display span >>=
          fun s => pure (.call target n (convertArguments es s.parameters) s.returns span)) := by
  unfold isAggregate at h
  unfold method
  split
  · rename_i element op he ho
    rw [he, ho] at h
    cases h
  · rfl

theorem isAggregate_rename {t : Ty} : isAggregate (t.rename r) n = isAggregate t n := by
  rw [isAggregate, isAggregate, Ty.element?_rename, Option.isSome_map]

/-- What has no method of a name has none under a renaming by which no other name
becomes this one. -/
theorem methods_rename_of_nil {t : Ty} (hn : r.Free n) (h : t.methods n = []) :
    (t.rename r).methods n = [] := by
  unfold Ty.methods at h ⊢
  rw [Ty.chain_rename, List.flatMap_map, List.flatMap_eq_nil_iff]
  rw [List.flatMap_eq_nil_iff] at h
  intro u hu
  have hnone := h u hu
  cases u with
  | cls c ps ms is e b v =>
    rw [Ty.ownMethods, List.map_eq_nil_iff, List.filter_eq_nil_iff] at hnone
    rw [Ty.rename, Ty.ownMethods, Ty.renameMethods_eq_map, List.map_eq_nil_iff, List.filter_map,
      List.map_eq_nil_iff, List.filter_eq_nil_iff]
    intro m hm heq
    have hname : m.1 = n := hn c m.1 (beq_iff_eq.mp heq)
    exact hnone m hm (beq_iff_eq.mpr hname)
  | _ => rfl

include hn in
/-- A built-in method of a value. -/
theorem carries_builtin (target : Term) (span : Span) (hnot : isAggregate target.type n = false)
    (hnone : target.type.methods n = []) (hms : CarriesAll r P c ms ms') :
    CarriesTerm r P c (method target n ms span) (method (target.rename r) n ms' span) := by
  have hnot' : isAggregate (target.rename r).type n = false := by
    rw [target.type_rename, isAggregate_rename, hnot]
  have hnone' : (target.rename r).type.methods n = [] := by
    rw [target.type_rename, methods_rename_of_nil hn hnone]
  rw [method_of_not hnot, method_of_not hnot', hnone, hnone']
  dsimp only [List.isEmpty_nil, if_true]
  rw [target.type_rename, Builtin.methods_rename]
  refine (carries_values hms).bind (fun es => reveals_chosen fun b h => h.2) fun es d _ _ => ?_
  have hchoose := carries_choose (r := r) (c := d) (Builtin.methods target.type n)
    Builtin.parameters id Builtin.parameters es n target.type.display n
    (target.type.rename r).display span fun b hb =>
      (Builtin.isPrimitive_methods hb).rename.1.symm
  rw [List.map_id] at hchoose
  refine hchoose.andThen fun b d heq => ?_
  obtain ⟨hparameters, hreturns⟩ := (Builtin.isPrimitive_methods (choose_ok heq).1).rename (r := r)
  have hterm :
      (Term.intrinsic b.op target (convertArguments es b.parameters) b.returns span).rename r =
        .intrinsic b.op (target.rename r) (convertArguments (Term.renameAll r es) b.parameters)
          b.returns span := by
    rw [Term.rename, renameAll_convertArguments, hparameters, hreturns]
  rw [id, ← hterm]
  exact carries_term _

/-- No new name is one of an aggregate. -/
theorem isAggregate_nameIn (hr : ∀ c, r c n = n ∨ Aggregate.ofName? (r c n) = none) {t u : Ty}
    (h : isAggregate t n = false) : isAggregate (t.rename r) (u.nameIn r n) = false := by
  have hname : u.nameIn r n = n ∨ Aggregate.ofName? (u.nameIn r n) = none := by
    unfold Ty.nameIn
    split
    · rename_i v _
      cases v with
      | cls c => exact hr c
      | _ => exact .inl rfl
    · exact .inl rfl
  rcases hname with hsame | hnone
  · rw [hsame, isAggregate_rename, h]
  · rw [isAggregate, hnone, Option.isSome_none, Bool.and_false]

/-- A method of a class. -/
theorem carries_declared (target : Term) (span : Span) (hnot : isAggregate target.type n = false)
    (hsome : (target.type.methods n).isEmpty = false)
    (hnot' : isAggregate (target.type.rename r) (target.type.nameIn r n) = false)
    (htakes : target.type.Takes r n (target.type.nameIn r n)) (hms : CarriesAll r P c ms ms') :
    CarriesTerm r P c (method target n ms span)
      (method (target.rename r) (target.type.nameIn r n) ms' span) := by
  rw [← target.type_rename] at hnot'
  rw [method_of_not hnot, method_of_not hnot', target.type_rename, htakes.methods,
    List.isEmpty_map, hsome]
  simp only [Bool.false_eq_true, if_false]
  refine (carries_values hms).bind (fun es => reveals_chosen fun s h => h.2) fun es d _ _ => ?_
  have hchoose := carries_choose (r := r) (c := d) (target.type.methods n) Signature.parameters
    (Signature.rename r) Signature.parameters es n target.type.display
    (target.type.nameIn r n) (target.type.rename r).display span fun _ _ => rfl
  refine hchoose.andThen fun s d _ => ?_
  have hterm : (Term.call target n (convertArguments es s.parameters) s.returns span).rename r =
      .call (target.rename r) (target.type.nameIn r n)
        (convertArguments (Term.renameAll r es) (s.rename r).parameters) (s.rename r).returns
        span := by
    rw [Term.rename, renameAll_convertArguments]
    rfl
  rw [← hterm]
  exact carries_term _

include hP hn in
theorem carries_method (hr : ∀ c, r c n = n ∨ Aggregate.ofName? (r c n) = none) (target : Term)
    (span : Span) (hms : CarriesAll r P (c.inArguments target.type n) ms ms') :
    CarriesTerm r P c (method target n ms span)
      (method (target.rename r) (callName r target.type n) ms' span) := by
  cases hagg : isAggregate target.type n with
  | true =>
    rw [callName, hagg, Bool.true_or, if_pos rfl]
    obtain ⟨he, ho⟩ := Bool.and_eq_true_iff.mp hagg
    obtain ⟨element, he⟩ := Option.isSome_iff_exists.mp he
    obtain ⟨op, ho⟩ := Option.isSome_iff_exists.mp ho
    rw [Context.inArguments, argumentScopes, he, ho] at hms
    have haggregate := carries_aggregate target element op span hms
    unfold method
    rw [target.type_rename, Ty.element?_rename, he, ho]
    exact haggregate
  | false =>
    rw [inArguments_of_not hagg] at hms
    cases hmethods : (target.type.methods n).isEmpty with
    | true =>
      rw [callName, hagg, hmethods, Bool.false_or, if_pos rfl]
      exact carries_builtin hn target span hagg (List.isEmpty_iff.mp hmethods) hms
    | false =>
      rw [callName, hagg, hmethods, Bool.false_or, if_neg Bool.false_ne_true]
      intro e d heq hparts
      have htarget := (reveals_method target n ms span c e d heq hparts).1
      have htakes := Ty.takes_nameIn (hP target htarget) hn
      exact carries_declared target span hagg hmethods (isAggregate_nameIn hr hagg) htakes hms e d
        heq hparts

theorem carries_invokeArguments (hms : CarriesAll r P c ms ms') : ∀ ts : List Ty,
    Carries r (Term.EveryPartOfAll P) (Term.renameAll r) c (invokeArguments ms ts)
      (invokeArguments ms' (ts.map (Ty.rename r))) := by
  induction hms with
  | nil => exact fun _ => carries_pure []
  | @cons c m m' ms ms' hm _ ih =>
    intro ts
    cases ts with
    | nil => exact carries_pure []
    | cons t ts =>
      refine (carries_value hm).bind (fun e => ?_) fun e d heq _ => ?_
      · refine (reveals_converted e t).bind fun e => Reveals.after fun es => ?_
        exact reveals_pure fun h => h.1.2
      · refine (carries_converted (P := P) e t).bind (fun e' => ?_) fun e' d' heq' _ => ?_
        · exact Reveals.after fun es => reveals_pure fun h => h.1.2
        · rw [value_leaves heq, converted_leaves heq'] at ih
          refine (ih ts).bind (fun es => ?_) fun es _ _ _ => carries_pure (e' :: es)
          exact reveals_pure fun h => h.2

theorem carries_invoke (delegate : Term) (name : String) (span : Span)
    (hms : CarriesAll r P c ms ms') :
    CarriesTerm r P c (invoke delegate name ms span)
      (invoke (delegate.rename r) name ms' span) := by
  unfold invoke
  rw [delegate.type_rename, ← hms.length_eq]
  cases delegate.type with
  | delegate dn ns types returns =>
    rw [Ty.rename, Ty.renameAll_eq_map]
    dsimp only
    rw [List.length_map]
    refine Carries.guarded _ _ _ _ ?_
    exact (carries_invokeArguments hms types).bind (fun es => reveals_pure fun h => h.2)
      fun es _ _ _ => carries_term (.invoke delegate es returns span)
  | _ => exact carries_fail _ _

theorem carries_function (owner : KnownType) (name : Name) (span : Span)
    (hms : CarriesAll r P c ms ms') :
    CarriesTerm r P c (function owner name ms span) (function owner name ms' span) := by
  refine Carries.guarded _ _ _ _ ?_
  refine (carries_values hms).bind (fun es => reveals_chosen fun b h => h) fun es d _ _ => ?_
  have hchoose := carries_choose (r := r) (c := d) (Builtin.functions owner name.text)
    Builtin.parameters id Builtin.parameters es name.text owner.name name.text owner.name span
    fun b hb => (Builtin.isPrimitive_functions hb).rename.1.symm
  rw [List.map_id] at hchoose
  refine hchoose.andThen fun b d heq => ?_
  obtain ⟨hparameters, hreturns⟩ :=
    (Builtin.isPrimitive_functions (choose_ok heq).1).rename (r := r)
  have hterm : (Term.function b.op (convertArguments es b.parameters) b.returns span).rename r =
      .function b.op (convertArguments (Term.renameAll r es) b.parameters) b.returns span := by
    rw [Term.rename, renameAll_convertArguments, hparameters, hreturns]
  rw [id, ← hterm]
  exact carries_term _

/-- The type of a constant is no matter of names. -/
theorem rename_ofScalar (v : Scalar) (span : Span) :
    (Term.ofScalar v span).rename r = .ofScalar v span := by
  cases v <;> rfl

theorem carries_ofScalar (v : Scalar) (span : Span) :
    CarriesTerm r P c (pure (.ofScalar v span)) (pure (.ofScalar v span)) := by
  have hcarries := carries_term (r := r) (P := P) (c := c) (.ofScalar v span)
  rwa [rename_ofScalar] at hcarries

theorem carries_staticConstant (owner : KnownType) (name : Name) (span : Span) :
    CarriesTerm r P c (staticConstant owner name span) (staticConstant owner name span) := by
  unfold staticConstant
  cases Builtin.constant? owner name.text with
  | some v => exact carries_ofScalar v span
  | none => exact carries_fail _ _

end Check
end QueryExpr
