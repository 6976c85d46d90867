/-
# Checking what has been moved

A check looks at what stands where only to tell it in what it yields: moved
expressions are checked like those they come from, with the same record types,
and come to the moved term or the moved failure. That is so because every
routine of the checker follows its parts (`Check.Follows`).

Key definitions: `Check.Follows`, `Check.Moved`.
Key theorems: `Check.moved_expr`, `Expr.check_relocate`,
`Lambda.assemble_relocate`.
-/
import Mathlib.Data.List.Forall2
import QueryExpr.Proofs.AggregateForms
import QueryExpr.Proofs.CheckSteps
import QueryExpr.Proofs.Relocation

namespace QueryExpr

variable {f : Nat → Nat}

/-! ### Terms that have to agree -/

theorem Term.length_relocateAll (es : List Term) : (relocateAll f es).length = es.length := by
  rw [relocateAll_eq_map, List.length_map]

theorem selectOverload_relocate (candidates : List (List Ty)) (es : List Term) :
    selectOverload candidates (Term.relocateAll f es) = selectOverload candidates es := by
  rw [selectOverload, selectOverload, Term.length_relocateAll]
  congr 1
  funext i t
  rw [Term.relocateAll_eq_map, List.getElem?_map]
  cases es[i]? with
  | none => rfl
  | some e => exact congrFun e.assignmentCost?_relocate t

theorem relocateAll_convertArguments : ∀ (es : List Term) (ts : List Ty),
    Term.relocateAll f (convertArguments es ts) = convertArguments (Term.relocateAll f es) ts
  | [], _ => rfl
  | _ :: _, [] => rfl
  | e :: es, t :: ts => by
    rw [convertArguments, List.zipWith_cons_cons, Term.relocateAll, e.relocate_convertTo]
    exact congrArg _ (relocateAll_convertArguments es ts)

namespace Ty

theorem unify?_relocate (t : Ty) (e : Term) : unify? t (e.relocate f) = unify? t e := by
  rw [unify?, unify?, e.type_relocate, e.isAssignable_relocate]

theorem equality?_relocate (l r : Term) :
    equality? (l.relocate f) (r.relocate f) = equality? l r := by
  rw [equality?, equality?, l.type_relocate, r.type_relocate, l.isAssignable_relocate,
    r.isAssignable_relocate]

theorem bestOf_relocate : ∀ (t : Ty) (es : List Term),
    bestOf t (Term.relocateAll f es) = relocated f id (bestOf t es)
  | _, [] => rfl
  | t, e :: es => by
    rw [Term.relocateAll, bestOf, bestOf, unify?_relocate, e.type_relocate, e.span_relocate]
    cases unify? t e with
    | some u => exact bestOf_relocate u es
    | none => rfl

theorem best_relocate (es : List Term) :
    best (Term.relocateAll f es) = relocated f id (best es) := by
  cases es with
  | nil => rfl
  | cons e es =>
    rw [Term.relocateAll, best, best, bestOf_relocate, e.type_relocate]
    cases bestOf e.type es <;> rfl

end Ty

namespace Check

variable {α β γ δ : Type} {h : α → β} {h' : γ → δ} {m : Check α} {m' : Check β}

/-! ### Steps -/

/-- The second check comes to what the first one comes to, moved, and leaves the
same context. -/
def Follows (f : Nat → Nat) (h : α → β) (m : Check α) (m' : Check β) : Prop :=
  ∀ c, m' c = (relocated f h (m c).1, (m c).2)

/-- The second check comes to the moved term of the first one. -/
abbrev Moved (f : Nat → Nat) (m m' : Check Term) : Prop := Follows f (Term.relocate f) m m'

theorem follows_pure (x : α) : Follows f h (pure x) (pure (h x)) := fun _ => rfl

theorem moved_pure (e : Term) : Moved f (pure e) (pure (e.relocate f)) := follows_pure e

theorem follows_fail (cause : Cause) (span : Span) :
    Follows f h (fail cause span) (fail cause (span.relocate f)) := fun _ => rfl

theorem follows_scopes : Follows f id scopes scopes := fun _ => rfl

theorem Follows.bind {k : α → Check γ} {k' : β → Check δ} (hm : Follows f h m m')
    (hk : ∀ x, Follows f h' (k x) (k' (h x))) : Follows f h' (m >>= k) (m' >>= k') := by
  intro c
  rw [Step.bind_apply, Step.bind_apply, hm c]
  rcases m c with ⟨_ | x, d⟩
  · rfl
  · exact hk x d

theorem follows_ofExcept (x : Except Failure α) :
    Follows f h (ofExcept x) (ofExcept (relocated f h x)) := by
  intro c
  rw [ofExcept_apply, ofExcept_apply]

theorem follows_request (ps : Properties) (span : Span) :
    Follows f id (request ps span) (request ps (span.relocate f)) := by
  intro c
  rw [request_apply, request_apply]
  cases (c.records.request ps).1 <;> rfl

theorem Follows.withElement (type : Ty) (hm : Follows f h m m') :
    Follows f h (withElement type m) (withElement type m') := by
  intro c
  rw [withElement_apply, withElement_apply, hm]

theorem Follows.ite {p : Prop} [Decidable p] {n : Check α} {n' : Check β} (hm : Follows f h m m')
    (hn : Follows f h n n') : Follows f h (if p then m else n) (if p then m' else n') := by
  split
  · exact hm
  · exact hn

/-- It makes no difference if the step before may fail. -/
theorem Follows.guarded {p : Prop} [Decidable p] (cause : Cause) (span : Span)
    (hm : Follows f h m m') :
    Follows f h (if p then Check.fail cause span >>= fun _ : PUnit => m else m)
      (if p then Check.fail cause (span.relocate f) >>= fun _ : PUnit => m' else m') :=
  .ite ((follows_fail (h := id) cause span).bind fun _ => hm) hm

/-! ### Values -/

section
variable {m m' a a' b b' : Check Term} {ms ms' : List (Check Term)}

theorem moved_value (hm : Moved f m m') : Moved f (value m) (value m') :=
  hm.bind fun e => by
    rw [e.type_relocate, e.span_relocate]
    exact (follows_pure e).guarded _ _

theorem follows_values (hms : List.Forall₂ (Moved f) ms ms') :
    Follows f (Term.relocateAll f) (values ms) (values ms') := by
  induction hms with
  | nil => exact follows_pure []
  | cons hm _ ih =>
    exact (moved_value hm).bind fun e => ih.bind fun es => follows_pure (e :: es)

theorem moved_converted (e : Term) (t : Ty) :
    Moved f (converted e t) (converted (e.relocate f) t) := by
  unfold converted
  rw [e.coerce?_relocate, e.type_relocate, e.span_relocate]
  cases e.coerce? t with
  | some e => exact follows_pure e
  | none => exact follows_fail _ _

/-! ### Aggregates and calls -/

theorem moved_body (element : Ty) (hm : Moved f m m') :
    Moved f (body element m) (body element m') :=
  Follows.withElement element (moved_value hm)

theorem moved_predicate (element : Ty) (hm : Moved f m m') :
    Moved f (predicate element m) (predicate element m') :=
  (moved_body element hm).bind fun e => by
    rw [e.type_relocate, e.span_relocate]
    exact (follows_pure e).guarded _ _

theorem relocate_brought (op : Aggregate) (e : Term) :
    (op.brought e).relocate f = op.brought (e.relocate f) := by
  unfold Aggregate.brought
  rw [e.type_relocate]
  cases op.input? e.type with
  | some t => exact e.relocate_convertTo t
  | none => rfl

theorem moved_aggregate (source : Term) (element : Ty) (op : Aggregate) (span : Span)
    (hms : List.Forall₂ (Moved f) ms ms') :
    Moved f (aggregate source element op ms span)
      (aggregate (source.relocate f) element op ms' (span.relocate f)) := by
  cases hms with
  | nil =>
    rw [aggregate_nil, aggregate_nil, source.type_relocate]
    cases op.plain? element with
    | some t => exact moved_pure (.aggregate op source t span)
    | none => exact follows_fail _ _
  | cons hm hms =>
    cases hms with
    | cons _ _ =>
      rw [aggregate_more, aggregate_more, source.type_relocate]
      exact follows_fail _ _
    | nil =>
      rw [aggregate_one, aggregate_one, source.type_relocate]
      cases op.tested? element with
      | some t =>
        exact (moved_predicate element hm).bind fun e =>
          moved_pure (.aggregateBy op source e t span)
      | none =>
        cases op.taken? element with
        | some ut =>
          exact (moved_value hm).bind fun e => (moved_converted e ut.1).bind fun e =>
            moved_pure (.aggregateWith op source e ut.2 span)
        | none =>
          refine (moved_body element hm).bind fun e => ?_
          rw [e.type_relocate, ← relocate_brought]
          cases op.selected? element e.type with
          | some t => exact moved_pure (.aggregateBy op source (op.brought e) t span)
          | none => exact follows_fail _ _

theorem moved_member (target : Term) (name : String) (span : Span) :
    Moved f (member target name span) (member (target.relocate f) name (span.relocate f)) := by
  unfold member
  rw [target.type_relocate]
  cases target.type.member? name with
  | some t => exact moved_pure (.member target name t span)
  | none =>
    cases Builtin.property? target.type name with
    | some p => exact moved_pure (.intrinsic p.1 target [] p.2 span)
    | none => exact follows_fail _ _

theorem follows_choose (candidates : List α) (parameters : α → List Ty) (es : List Term)
    (name owner : String) (span : Span) :
    Follows f id (choose candidates parameters es name owner span)
      (choose candidates parameters (Term.relocateAll f es) name owner (span.relocate f)) := by
  unfold choose
  rw [selectOverload_relocate]
  cases selectOverload (candidates.map parameters) es with
  | found i =>
    dsimp only
    cases candidates[i]? with
    | some c => exact follows_pure c
    | none => exact follows_fail _ _
  | noneApplicable | ambiguous => exact follows_fail _ _

theorem moved_index (target : Term) (span : Span) (hms : List.Forall₂ (Moved f) ms ms') :
    Moved f (index target ms span) (index (target.relocate f) ms' (span.relocate f)) := by
  refine (follows_values hms).bind fun es => ?_
  dsimp only
  rw [target.type_relocate, selectOverload_relocate]
  cases selectOverload ((indexers target.type).map (·.parameters)) es with
  | found i =>
    dsimp only
    cases (indexers target.type)[i]? with
    | some s =>
      dsimp only
      rw [← relocateAll_convertArguments]
      exact moved_pure (.index target (convertArguments es s.parameters) s.returns span)
    | none => exact follows_fail _ _
  | noneApplicable | ambiguous => exact follows_fail _ _

theorem moved_method (target : Term) (name : String) (span : Span)
    (hms : List.Forall₂ (Moved f) ms ms') :
    Moved f (method target name ms span)
      (method (target.relocate f) name ms' (span.relocate f)) := by
  unfold method
  rw [target.type_relocate]
  split
  · exact moved_aggregate target _ _ span hms
  · refine (follows_values hms).bind fun es => .ite ?_ ?_
    · refine (follows_choose _ _ es name _ span).bind fun b => ?_
      rw [id, ← relocateAll_convertArguments]
      exact moved_pure (.intrinsic b.op target (convertArguments es b.parameters) b.returns span)
    · refine (follows_choose _ _ es name _ span).bind fun m => ?_
      rw [id, ← relocateAll_convertArguments]
      exact moved_pure (.call target name (convertArguments es m.parameters) m.returns span)

theorem follows_invokeArguments (hms : List.Forall₂ (Moved f) ms ms') : ∀ ts : List Ty,
    Follows f (Term.relocateAll f) (invokeArguments ms ts) (invokeArguments ms' ts) := by
  induction hms with
  | nil => exact fun _ => follows_pure []
  | cons hm _ ih =>
    intro ts
    cases ts with
    | nil => exact follows_pure []
    | cons t ts =>
      exact (moved_value hm).bind fun e => (moved_converted e t).bind fun e =>
        (ih ts).bind fun es => follows_pure (e :: es)

theorem moved_invoke (delegate : Term) (name : String) (span : Span)
    (hms : List.Forall₂ (Moved f) ms ms') :
    Moved f (invoke delegate name ms span)
      (invoke (delegate.relocate f) name ms' (span.relocate f)) := by
  unfold invoke
  rw [delegate.type_relocate, ← hms.length_eq]
  split
  · rename_i types returns _
    refine ((follows_invokeArguments hms types).bind fun es => ?_).guarded _ _
    exact moved_pure (.invoke delegate es returns span)
  · exact follows_fail _ _

theorem moved_function (owner : KnownType) (name : Name) (span : Span)
    (hms : List.Forall₂ (Moved f) ms ms') :
    Moved f (function owner name ms span)
      (function owner (name.relocate f) ms' (span.relocate f)) := by
  refine ((follows_values hms).bind fun es => ?_).guarded _ _
  refine (follows_choose _ _ es name.text _ span).bind fun b => ?_
  rw [id, ← relocateAll_convertArguments]
  exact moved_pure (.function b.op (convertArguments es b.parameters) b.returns span)

theorem moved_ofScalar (c : Scalar) (span : Span) :
    Moved f (pure (.ofScalar c span)) (pure (.ofScalar c (span.relocate f))) :=
  moved_pure (.ofScalar c span)

theorem moved_staticConstant (owner : KnownType) (name : Name) (span : Span) :
    Moved f (staticConstant owner name span)
      (staticConstant owner (name.relocate f) (span.relocate f)) := by
  unfold staticConstant
  rw [Name.relocate]
  cases Builtin.constant? owner name.text with
  | some c => exact moved_ofScalar c span
  | none => exact follows_fail _ name.span

/-! ### Operators and constructions -/

theorem moved_literal (v : Literal) (written : String) (span : Span) :
    Moved f (literal v written span) (literal v written (span.relocate f)) := by
  cases v with
  | integer magnitude negative suffix =>
    unfold literal
    dsimp only
    cases Literal.integer? magnitude negative suffix with
    | some c => exact moved_ofScalar c span
    | none => exact follows_fail _ _
  | real v suffix =>
    unfold literal
    dsimp only
    cases Literal.real? v suffix with
    | some c => exact moved_ofScalar c span
    | none => exact follows_fail _ _
  | string | char | boolean | null => exact moved_ofScalar _ span

theorem moved_unary (op : UnaryOp) (e : Term) (span : Span) :
    Moved f (unary op e span) (unary op (e.relocate f) (span.relocate f)) := by
  unfold unary
  rw [e.type_relocate]
  dsimp only
  split
  · rw [← e.relocate_convertTo]
    exact moved_pure (.unary op (e.convertTo _) _ span)
  · exact follows_fail _ _

theorem moved_coalesce (l r : Term) (span : Span) :
    Moved f (coalesce l r span)
      (coalesce (l.relocate f) (r.relocate f) (span.relocate f)) := by
  unfold coalesce
  simp only [Term.type_relocate, Term.span_relocate, Term.isAssignable_relocate,
    ← Term.relocate_convertTo]
  refine .ite ?_ (.ite (follows_fail _ _) (.ite ?_ (.ite ?_ (follows_fail _ _))))
  · exact moved_pure (.coalesce (l.convertTo r.type) (r.convertTo r.type) r.type span)
  · exact moved_pure (.coalesce l (r.convertTo l.type.nonNullable) l.type.nonNullable span)
  · exact moved_pure (.coalesce l (r.convertTo l.type) l.type span)

theorem operationTypes?_relocate (op : Operation) (l r : Term) :
    operationTypes? op (l.relocate f) (r.relocate f) = operationTypes? op l r := by
  unfold operationTypes?
  rw [l.type_relocate, r.type_relocate, Ty.equality?_relocate]

theorem moved_binary (o : Options) (op : BinaryOp) (l r : Term) (span : Span) :
    Moved f (binary o op l r span)
      (binary o op (l.relocate f) (r.relocate f) (span.relocate f)) := by
  unfold binary
  cases Operation.ofBinaryOp? op with
  | none => exact moved_coalesce l r span
  | some operation =>
    simp only [Term.type_relocate, operationTypes?_relocate, ← Term.relocate_convertTo]
    refine .ite (moved_pure (.binary .concat l r .string span)) ?_
    cases operationTypes? operation l r with
    | some ts =>
      exact moved_pure (.binary operation (l.convertTo ts.1) (r.convertTo ts.1) ts.2 span)
    | none => exact follows_fail _ _

theorem moved_conditional (span : Span) (hm : Moved f m m') (ha : Moved f a a')
    (hb : Moved f b b') :
    Moved f (conditional m a b span) (conditional m' a' b' (span.relocate f)) := by
  refine (moved_value hm).bind fun c => ?_
  rw [c.type_relocate, c.span_relocate]
  refine Follows.guarded _ _ ?_
  refine (moved_value ha).bind fun a => (moved_value hb).bind fun b => ?_
  simp only [Term.type_relocate, Ty.unify?_relocate, ← Term.relocate_convertTo]
  cases (Ty.unify? a.type b).or (Ty.unify? b.type a) with
  | some t => exact moved_pure (.conditional c (a.convertTo t) (b.convertTo t) t span)
  | none => exact follows_fail _ _

theorem follows_candidates (operand : Term) (span : Span) (hms : List.Forall₂ (Moved f) ms ms') :
    ∀ t : Ty, Follows f (Prod.map id (Term.relocateAll f)) (candidates operand span t ms)
      (candidates (operand.relocate f) (span.relocate f) t ms') := by
  induction hms with
  | nil => exact fun t => follows_pure (t, [])
  | cons hm _ ih =>
    intro t
    refine (moved_value hm).bind fun e => ?_
    rw [Ty.unify?_relocate, operand.type_relocate, e.type_relocate]
    cases Ty.unify? t e with
    | some t => exact (ih t).bind fun x => follows_pure (x.1, e :: x.2)
    | none => exact follows_fail _ _

theorem relocateAll_map_convertTo (es : List Term) (t : Ty) :
    Term.relocateAll f (es.map (·.convertTo t)) =
      (Term.relocateAll f es).map (·.convertTo t) := by
  simp only [Term.relocateAll_eq_map, List.map_map]
  exact List.map_congr_left fun e _ => e.relocate_convertTo t

theorem moved_inList (span : Span) (hm : Moved f m m') (hms : List.Forall₂ (Moved f) ms ms') :
    Moved f (inList m ms span) (inList m' ms' (span.relocate f)) := by
  refine (moved_value hm).bind fun e => ?_
  rw [e.type_relocate]
  refine (follows_candidates e span hms e.type).bind fun (t, es) => ?_
  show Moved f _ (pure (.inList ((e.relocate f).convertTo t)
    ((Term.relocateAll f es).map (·.convertTo t)) .boolean (span.relocate f)))
  rw [← e.relocate_convertTo, ← relocateAll_map_convertTo]
  exact moved_pure (.inList (e.convertTo t) (es.map (·.convertTo t)) .boolean span)

theorem moved_inSource (span : Span) (hm : Moved f m m') (ha : Moved f a a') :
    Moved f (inSource m a span) (inSource m' a' (span.relocate f)) := by
  refine (moved_value hm).bind fun e => (moved_value ha).bind fun s => ?_
  simp only [Term.type_relocate, Term.isAssignable_relocate, ← Term.relocate_convertTo]
  cases s.type.element? with
  | some t =>
    exact .ite (moved_pure (.inSequence (e.convertTo t) s .boolean span)) (follows_fail _ _)
  | none => exact follows_fail _ _

theorem moved_newRecord (names : List Name) (span : Span) (hms : List.Forall₂ (Moved f) ms ms') :
    Moved f (newRecord names ms span)
      (newRecord (names.map (Name.relocate f)) ms' (span.relocate f)) := by
  refine (follows_values hms).bind fun es => ?_
  -- nulls become objects before the move as after it, and the signature has no places
  have hes : (Term.relocateAll f es).map
      (fun e => if e.type.isNull then e.convertTo .object else e) =
      Term.relocateAll f (es.map fun e => if e.type.isNull then e.convertTo .object else e) := by
    simp only [Term.relocateAll_eq_map, List.map_map]
    refine List.map_congr_left fun e _ => ?_
    simp only [Function.comp_apply, e.type_relocate, ← e.relocate_convertTo]
    exact (apply_ite _ _ _ _).symm
  rw [hes]
  generalize es.map (fun e => if e.type.isNull then e.convertTo .object else e) = es
  have hps : List.zipWith (fun (n : Name) (e : Term) => (n.text, e.type))
      (names.map (Name.relocate f)) (Term.relocateAll f es) =
      List.zipWith (fun n e => (n.text, e.type)) names es := by
    rw [Term.relocateAll_eq_map, List.zipWith_map]
    simp only [Term.type_relocate, Name.relocate]
  dsimp only
  rw [hps]
  exact (follows_request _ span).bind fun r => moved_pure (.newRecord es r.type span)

theorem follows_convertedAll (t : Ty) : ∀ es : List Term,
    Follows f (Term.relocateAll f) (convertedAll t es) (convertedAll t (Term.relocateAll f es))
  | [] => follows_pure []
  | e :: es =>
    (moved_converted e t).bind fun e => (follows_convertedAll t es).bind fun es =>
      follows_pure (e :: es)

theorem moved_newArray (type : Option TypeName) (span : Span)
    (hms : List.Forall₂ (Moved f) ms ms') :
    Moved f (newArray type ms span)
      (newArray (type.map (TypeName.relocate f)) ms' (span.relocate f)) := by
  refine (follows_values hms).bind fun es => ?_
  -- however the type of the elements is found, what follows is the same
  have rest (t : Ty) :
      Moved f (convertedAll t es >>= fun es => pure (.newArray es (.array t) span))
        (convertedAll t (Term.relocateAll f es) >>= fun es =>
          pure (.newArray es (.array t) (span.relocate f))) :=
    (follows_convertedAll t es).bind fun es => moved_pure (.newArray es (.array t) span)
  match type with
  | some ⟨_, .prim p⟩ => exact (follows_pure (h := id) (Ty.prim p)).bind rest
  | some ⟨n, .math⟩ => exact (follows_fail (h := id) _ n.span).bind rest
  | none =>
    show Moved f _ (ofExcept (Ty.best (Term.relocateAll f es)) >>= _)
    rw [Ty.best_relocate]
    exact (follows_ofExcept (h := id) _).bind rest

theorem moved_conversion (type : KnownType) (span : Span)
    (hms : List.Forall₂ (Moved f) ms ms') :
    Moved f (conversion type ms span) (conversion type ms' (span.relocate f)) := by
  cases type with
  | math => exact follows_fail _ _
  | prim p =>
    cases hms with
    | nil => exact follows_fail _ _
    | cons hm hms =>
      cases hms with
      | cons _ _ => exact follows_fail _ _
      | nil =>
        refine (moved_value hm).bind fun e => ?_
        rw [e.type_relocate, e.isAssignable_relocate, ← e.relocate_convertTo,
          ← Term.relocate_withSpan]
        exact .ite (moved_pure _) (follows_fail _ _)

/-! ### Names -/

theorem follows_implicitTarget (o : Options) (span : Span) :
    Follows f (Option.map (Term.relocate f)) (implicitTarget o span)
      (implicitTarget o (span.relocate f)) := by
  unfold implicitTarget
  refine .ite (follows_scopes.bind fun s => ?_) (follows_pure none)
  have hmap : (s.implicit?.map (reference · span)).map (Term.relocate f) =
      s.implicit?.map (reference · (span.relocate f)) := by
    rw [Option.map_map]
    rfl
  rw [id, ← hmap]
  exact follows_pure _

theorem follows_shadowingTarget (o : Options) (name : String) (span : Span) :
    Follows f (Option.map (Term.relocate f)) (shadowingTarget o name span)
      (shadowingTarget o name (span.relocate f)) := by
  refine (follows_implicitTarget o span).bind fun it => ?_
  rw [Option.filter_map]
  simp only [Function.comp_def, Term.type_relocate]
  exact follows_pure _

theorem resolveImplicit_relocate (s : Scopes) (span : Span) :
    s.resolveImplicit (span.relocate f) = relocated f id (s.resolveImplicit span) := by
  unfold Scopes.resolveImplicit ParameterTable.resolveImplicit
  cases s.current.implicit? <;> rfl

theorem moved_named (o : Options) (n : Name) : Moved f (named o n) (named o (n.relocate f)) := by
  refine follows_scopes.bind fun s => .ite ?_ ?_
  · show Moved f _ (ofExcept (s.resolveImplicit (n.span.relocate f)) >>= _)
    rw [resolveImplicit_relocate]
    exact (follows_ofExcept _).bind fun s => moved_pure (reference s n.span)
  · dsimp only [id, Name.relocate]
    cases s.lookup? n.text with
    | some s =>
      dsimp only
      cases s.kind with
      | constant c => exact moved_ofScalar c n.span
      | parameter => exact moved_pure (reference s n.span)
    | none =>
      refine (follows_implicitTarget o n.span).bind fun it => ?_
      cases it with
      | some it => exact moved_member it n.text n.span
      | none => exact follows_fail _ n.span

theorem moved_memberOfType (o : Options) (owner : TypeName) (n : Name) (span : Span) :
    Moved f (memberOfType o owner n span)
      (memberOfType o (owner.relocate f) (n.relocate f) (span.relocate f)) := by
  refine (follows_shadowingTarget o _ owner.name.span).bind fun it => ?_
  cases it with
  | some it =>
    exact (moved_member it owner.name.text owner.name.span).bind fun target =>
      moved_member target n.text span
  | none => exact moved_staticConstant owner.known n span

theorem moved_call (o : Options) (n : Name) (span : Span)
    (hms : List.Forall₂ (Moved f) ms ms') :
    Moved f (call o n ms span) (call o (n.relocate f) ms' (span.relocate f)) := by
  unfold call
  refine .ite ?_ (follows_scopes.bind fun s => ?_)
  -- the word of a conditional takes three arguments, no more and no less
  · match hms with
    | .cons hc (.cons ha (.cons hb .nil)) => exact moved_conditional span hc ha hb
    | .nil | .cons _ .nil | .cons _ (.cons _ .nil) | .cons _ (.cons _ (.cons _ (.cons _ _))) =>
      exact follows_fail _ _
  · dsimp only [id, Name.relocate]
    cases (s.lookup? n.text).filter Symbol.isParameter with
    | some s => exact moved_invoke (reference s n.span) n.text span hms
    | none =>
      refine (follows_implicitTarget o n.span).bind fun it => ?_
      cases it with
      | some it => exact moved_method it n.text span hms
      | none => exact follows_fail _ n.span

theorem moved_callOnType (o : Options) (owner : TypeName) (n : Name) (span : Span)
    (hms : List.Forall₂ (Moved f) ms ms') :
    Moved f (callOnType o owner n ms span)
      (callOnType o (owner.relocate f) (n.relocate f) ms' (span.relocate f)) := by
  refine (follows_shadowingTarget o _ owner.name.span).bind fun it => ?_
  cases it with
  | some it =>
    exact (moved_member it owner.name.text owner.name.span).bind fun target =>
      moved_method target n.text span hms
  | none => exact moved_function owner.known n span hms

theorem moved_convertOrCall (o : Options) (type : TypeName) (span : Span)
    (hms : List.Forall₂ (Moved f) ms ms') :
    Moved f (convertOrCall o type ms span)
      (convertOrCall o (type.relocate f) ms' (span.relocate f)) := by
  refine (follows_shadowingTarget o _ type.name.span).bind fun it => ?_
  cases it with
  | some it => exact moved_method it type.name.text span hms
  | none => exact moved_conversion type.known span hms

end

/-! ### Expressions -/

theorem moved_typeName (hf : Monotone f) (o : Options) (type : TypeName) :
    Moved f (typeName o type) (typeName o (type.relocate f)) := by
  refine (follows_shadowingTarget o _ type.name.span).bind fun it => ?_
  cases it with
  | some it => exact moved_member it type.name.text type.name.span
  | none =>
    show Moved f _ (fail _ (.empty (type.name.span.relocate f).stop))
    rw [Span.stop_relocate hf, ← Span.relocate_empty]
    exact follows_fail _ _

mutual
/-- **Moved expressions are checked like those they come from.** -/
theorem moved_expr (hf : Monotone f) (o : Options) : ∀ e : Expr,
    Moved f (expr o e) (expr o (e.relocate f))
  | .literal v written span => moved_literal v written span
  | .name n => moved_named o n
  | .typeName type => moved_typeName hf o type
  | .member target n span => by
    have h := moved_expr hf o target
    cases target with
    | typeName owner => exact moved_memberOfType o owner n span
    | _ => exact (moved_value h).bind fun e => moved_member e n.text span
  | .index target arguments span =>
    (moved_value (moved_expr hf o target)).bind fun e =>
      moved_index e span (moved_exprs hf o arguments)
  | .call n arguments span => moved_call o n span (moved_exprs hf o arguments)
  | .callOn target n arguments span => by
    have h := moved_expr hf o target
    have hs := moved_exprs hf o arguments
    cases target with
    | typeName owner => exact moved_callOnType o owner n span hs
    | _ => exact (moved_value h).bind fun e => moved_method e n.text span hs
  | .conversion type arguments span => moved_convertOrCall o type span (moved_exprs hf o arguments)
  | .unary op operand span =>
    (moved_value (moved_expr hf o operand)).bind fun e => moved_unary op e span
  | .binary op left right span =>
    (moved_value (moved_expr hf o left)).bind fun l =>
      (moved_value (moved_expr hf o right)).bind fun r => moved_binary o op l r span
  | .conditional c a b span =>
    moved_conditional span (moved_expr hf o c) (moved_expr hf o a) (moved_expr hf o b)
  | .inList operand items span =>
    moved_inList span (moved_expr hf o operand) (moved_exprs hf o items)
  | .inSource operand source span =>
    moved_inSource span (moved_expr hf o operand) (moved_expr hf o source)
  | .newRecord names items span => moved_newRecord names span (moved_exprs hf o items)
  | .newArray type items span => moved_newArray type span (moved_exprs hf o items)
termination_by structural e => e

theorem moved_exprs (hf : Monotone f) (o : Options) : ∀ es : List Expr,
    List.Forall₂ (Moved f) (exprs o es) (exprs o (Expr.relocateAll f es))
  | [] => .nil
  | e :: es => .cons (moved_expr hf o e) (moved_exprs hf o es)
termination_by structural es => es
end

end Check

/-- **Checking a moved expression comes to the moved term**, or to the moved
failure, and leaves the same record types. -/
theorem Expr.check_relocate (hf : Monotone f) (e : Expr) (o : Options) (table : ParameterTable)
    (records : RecordCache) :
    (e.relocate f).check o table records =
      (relocated f (Term.relocate f) (e.check o table records).1,
        (e.check o table records).2) := by
  unfold check
  rw [Check.moved_expr hf o e]
  rfl

/-! ### Lambdas -/

namespace Lambda

theorem convertBody_relocate (body : Term) (wanted : Ty) :
    convertBody (body.relocate f) wanted =
      relocated f (Term.relocate f) (convertBody body wanted) := by
  unfold convertBody
  rw [body.type_relocate, body.span_relocate, body.isCallShaped_relocate, body.coerce?_relocate]
  split
  · split <;> rfl
  · split
    · rfl
    · cases body.coerce? wanted <;> rfl

/-- What is wrong with parameters is found at the start of the text. -/
theorem checkParameters_failure {d : Delegate} {parameters : List Declaration} {failure : Failure}
    (h : checkParameters d parameters = .error failure) : failure.span = .empty 0 := by
  unfold checkParameters at h
  grind

/-- A lambda is put together from a moved body like from the body itself. -/
theorem assemble_relocate (h : f 0 = 0) (parameters : List Declaration) (body : Term)
    (target : Target) :
    assemble parameters (body.relocate f) target =
      relocated f (relocate f) (assemble parameters body target) := by
  cases target with
  | inferred =>
    rw [assemble, assemble, body.type_relocate]
    rfl
  | type wanted =>
    rw [assemble, assemble, convertBody_relocate]
    cases convertBody body wanted <;> rfl
  | delegate d =>
    rw [assemble, assemble, convertBody_relocate]
    cases hp : checkParameters d parameters with
    | error failure =>
      have hstart : failure.relocate f = failure := by
        rw [Failure.relocate, checkParameters_failure hp, Span.relocate_empty, h,
          ← checkParameters_failure hp]
      exact congrArg Except.error hstart.symm
    | ok => cases convertBody body d.returns <;> rfl

end Lambda
end QueryExpr
