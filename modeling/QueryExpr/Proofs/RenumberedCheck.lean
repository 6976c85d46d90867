/-
# Checking over two caches

Whether an expression can be checked is no matter of the record types made so far. What
can be checked over one cache can be checked over any other one that serves the same
declared types, and it has the type there that corresponds: the record types in it may
have other numbers.

Key theorems: `Check.pairs_expr`, `Expr.check_corresponds`.
-/
import QueryExpr.Proofs.RenumberedCalls

namespace QueryExpr

variable {ts : List Ty} {w w' : Caches}

namespace Check

variable {m m' a a' b b' : Check Term} {ms ms' : List (Check Term)} {e e' l l' : Term}
  {t t' : Ty} {es es' : List Term}

/-! ### Literals and operators -/

theorem pairs_literal (v : Literal) (written : String) (span : Span) :
    PairsTerm ts w (literal v written span) (literal v written span) := by
  cases v with
  | integer magnitude negative suffix =>
    unfold literal
    dsimp only
    cases Literal.integer? magnitude negative suffix with
    | some v => exact pairs_ofScalar v span
    | none => exact pairs_fail _ _
  | real v suffix =>
    unfold literal
    dsimp only
    cases Literal.real? v suffix with
    | some v => exact pairs_ofScalar v span
    | none => exact pairs_fail _ _
  | string | char | boolean | null => exact pairs_ofScalar _ span

/-- The operand is brought to the type of the result, if there is one. -/
theorem pairs_unaryResult (op : UnaryOp) {type type' : Option Ty} (span : Span) :
    Ty.CorrespondOption ts w type type' → PairsTerm ts w
      (match type with
        | some t => pure (.unary op (e.convertTo t) t span)
        | none => fail (.operandType op.symbol e.type.display) span)
      (match type' with
        | some t => pure (.unary op (e'.convertTo t) t span)
        | none => fail (.operandType op.symbol e'.type.display) span) := by
  intro h
  cases h with
  | some ht => exact pairs_term ⟨ht, rfl, rfl⟩
  | none => exact pairs_fail _ _

theorem pairs_unary (op : UnaryOp) (he : e.Corresponds ts w e') (span : Span) :
    PairsTerm ts w (unary op e span) (unary op e' span) := by
  refine pairs_unaryResult op span ?_
  cases op with
  | negate => exact he.type.negation?
  | not =>
    dsimp only
    rw [he.type.isBoolean]
    split
    · exact .some he.type
    · exact .none

theorem pairs_coalesce (hw : w.Sound ts) (hl : l.Corresponds ts w l') (he : e.Corresponds ts w e')
    (span : Span) : PairsTerm ts w (coalesce l e span) (coalesce l' e' span) := by
  unfold coalesce
  dsimp only
  rw [hl.type.isNull, hl.type.acceptsNull, hw.isAssignable he hl.type.nonNullable,
    hw.isAssignable he hl.type]
  refine .ite ?_ (.ite (pairs_fail _ _) (.ite ?_ (.ite ?_ (pairs_fail _ _))))
  · exact pairs_term ⟨he.type, rfl, rfl⟩
  · exact pairs_term ⟨hl.type.nonNullable, rfl, rfl⟩
  · exact pairs_term ⟨hl.type, rfl, rfl⟩

theorem pairs_binary (o : Options) (op : BinaryOp) (hw : w.Sound ts) (hl : l.Corresponds ts w l')
    (he : e.Corresponds ts w e') (span : Span) :
    PairsTerm ts w (binary o op l e span) (binary o op l' e' span) := by
  unfold binary
  cases Operation.ofBinaryOp? op with
  | none => exact pairs_coalesce hw hl he span
  | some operation =>
    have htypes := hw.operationTypes? operation hl he
    dsimp only
    rw [hl.type.isString, he.type.isString]
    refine .ite (pairs_term ⟨.prim _, rfl, rfl⟩) ?_
    generalize operationTypes? operation l e = v, operationTypes? operation l' e' = v' at htypes
    cases htypes with
    | some h => exact pairs_term ⟨h.2, rfl, rfl⟩
    | none => exact pairs_fail _ _

/-! ### Conditionals and memberships -/

theorem pairs_conditional (span : Span) (hm : PairsTerm ts w m m') (ha : PairsTerm ts w a a')
    (hb : PairsTerm ts w b b') :
    PairsTerm ts w (conditional m a b span) (conditional m' a' b' span) := by
  refine (pairs_value hm).bind fun w₁ hg hw c c' hc => ?_
  have hboolean : (c.type == .boolean) = (c'.type == .boolean) := hw.beq hc.type (.prim _)
  rw [hboolean]
  refine .guarded _ _ _ _ ?_
  refine (pairs_value (ha.later hg)).bind fun w₂ hg' _ e e' he => ?_
  refine (pairs_value (hb.later (hg.trans hg'))).bind fun w₃ hg'' hw l l' hl => ?_
  have he := he.mono hg''
  have hunify : Ty.CorrespondOption ts w₃ ((Ty.unify? e.type l).or (Ty.unify? l.type e))
      ((Ty.unify? e'.type l').or (Ty.unify? l'.type e')) := by
    have hleft := hw.unify? he.type hl
    generalize Ty.unify? e.type l = v, Ty.unify? e'.type l' = v' at hleft
    cases hleft with
    | some h => exact .some h
    | none => exact hw.unify? hl.type he
  generalize (Ty.unify? e.type l).or (Ty.unify? l.type e) = v,
    (Ty.unify? e'.type l').or (Ty.unify? l'.type e') = v' at hunify
  cases hunify with
  | some hv => exact pairs_term ⟨hv, rfl, rfl⟩
  | none => exact pairs_fail _ _

theorem pairs_candidates (span : Span) (hms : List.Forall₂ (PairsTerm ts w) ms ms') :
    ∀ {w' : Caches} {t t' : Ty}, w.Grows w' → t.Corresponds ts w' t' →
      Pairs ts w' (fun _ _ _ => True) (candidates e span t ms) (candidates e' span t' ms') := by
  induction hms with
  | nil => exact fun _ _ => pairs_pure fun _ _ => trivial
  | cons hm _ ih =>
    intro w' t t' hg ht
    refine (pairs_value (hm.later hg)).bind fun w'' hg' hw c c' hc => ?_
    have hunify := hw.unify? (ht.mono hg') hc
    generalize Ty.unify? t c = v, Ty.unify? t' c' = v' at hunify
    cases hunify with
    | some hv =>
      exact (ih (hg.trans hg') hv).bind fun _ _ _ _ _ _ => pairs_pure fun _ _ => trivial
    | none => exact pairs_fail _ _

theorem pairs_inList (span : Span) (hm : PairsTerm ts w m m')
    (hms : List.Forall₂ (PairsTerm ts w) ms ms') :
    PairsTerm ts w (inList m ms span) (inList m' ms' span) := by
  refine (pairs_value hm).bind fun w' hg _ c c' hc => ?_
  exact (pairs_candidates span hms hg hc.type).bind fun _ _ _ _ _ _ =>
    pairs_term ⟨.prim _, rfl, rfl⟩

theorem pairs_inSource (span : Span) (hm : PairsTerm ts w m m') (ha : PairsTerm ts w a a') :
    PairsTerm ts w (inSource m a span) (inSource m' a' span) := by
  refine (pairs_value hm).bind fun w' hg _ c c' hc => ?_
  refine (pairs_value (ha.later hg)).bind fun w'' hg' hw s s' hs => ?_
  have helement := hs.type.element?
  generalize s.type.element? = v, s'.type.element? = v' at helement
  cases helement with
  | some hv =>
    dsimp only
    rw [hw.isAssignable (hc.mono hg') hv]
    exact .ite (pairs_term ⟨.prim _, rfl, rfl⟩) (pairs_fail _ _)
  | none => exact pairs_fail _ _

/-! ### Constructions -/

theorem pairs_newRecord (names : List Name) (span : Span)
    (hms : List.Forall₂ (PairsTerm ts w) ms ms') :
    PairsTerm ts w (newRecord names ms span) (newRecord names ms' span) := by
  refine (pairs_values hms).bind fun w' _ hw es es' hes => ?_
  have hobjects : List.Forall₂ (Term.Corresponds ts w')
      (es.map fun e => if e.type.isNull then e.convertTo .object else e)
      (es'.map fun e => if e.type.isNull then e.convertTo .object else e) := by
    refine List.forall₂_map_left_iff.mpr (List.forall₂_map_right_iff.mpr (hes.imp ?_))
    intro e e' he
    rw [he.type.isNull]
    split
    · exact hw.convertTo he (.prim _)
    · exact he
  dsimp only
  generalize es.map (fun e => if e.type.isNull then e.convertTo .object else e) = es,
    es'.map (fun e => if e.type.isNull then e.convertTo .object else e) = es' at hobjects
  have hproperties : Properties.Correspond ts w'
      (List.zipWith (fun n e => (n.text, e.type)) names es)
      (List.zipWith (fun n e => (n.text, e.type)) names es') := by
    induction hobjects generalizing names with
    | nil => cases names <;> exact .nil
    | cons he _ ih =>
      cases names with
      | nil => exact .nil
      | cons n ns => exact .cons ⟨rfl, he.type⟩ (ih ns)
  exact (pairs_request hproperties span).bind fun _ _ _ _ _ h => pairs_term ⟨h, rfl, rfl⟩

theorem pairs_convertedAll (hw : w.Sound ts) (ht : t.Corresponds ts w t')
    (hes : List.Forall₂ (Term.Corresponds ts w) es es') :
    Pairs ts w (fun _ _ _ => True) (convertedAll t es) (convertedAll t' es') := by
  induction hes with
  | nil => exact pairs_pure fun _ _ => trivial
  | cons he _ ih =>
    refine (pairs_converted hw he ht).bind fun w' hg _ _ _ _ => ?_
    exact (ih.later hg).bind fun _ _ _ _ _ _ => pairs_pure fun _ _ => trivial

theorem pairs_newArray (type : Option TypeName) (span : Span)
    (hms : List.Forall₂ (PairsTerm ts w) ms ms') :
    PairsTerm ts w (newArray type ms span) (newArray type ms' span) := by
  refine (pairs_values hms).bind fun w' hg hw es es' hes => ?_
  -- however the type of the elements is found, what follows is the same
  have rest (w'' : Caches) (hg : w'.Grows w'') (hw : w''.Sound ts) (t t' : Ty)
      (ht : t.Corresponds ts w'' t') :
      PairsTerm ts w'' (convertedAll t es >>= fun es => pure (.newArray es (.array t) span))
        (convertedAll t' es' >>= fun es => pure (.newArray es (.array t') span)) :=
    (pairs_convertedAll hw ht (hes.imp fun _ _ h => h.mono hg)).bind fun _ hg' _ _ _ _ =>
      pairs_term ⟨.array (ht.mono hg'), rfl, rfl⟩
  match type with
  | some ⟨_, .prim p⟩ =>
    exact (pairs_pure (S := Ty.Corresponds ts) fun _ _ => .prim p).bind rest
  | some ⟨n, .math⟩ => exact (pairs_fail (S := Ty.Corresponds ts) _ n.span).bind rest
  | none =>
    refine (pairs_ofExcept (S := Ty.Corresponds ts) fun t ht => ?_).bind rest
    obtain ⟨t', ht', hcorr⟩ := hw.best hes ht
    exact ⟨t', ht', fun _ hg => hcorr.mono hg⟩

theorem pairs_conversion (type : KnownType) (span : Span)
    (hms : List.Forall₂ (PairsTerm ts w) ms ms') :
    PairsTerm ts w (conversion type ms span) (conversion type ms' span) := by
  cases type with
  | math => exact pairs_fail _ _
  | prim p =>
    match hms with
    | .nil | .cons _ (.cons _ _) => exact pairs_fail _ _
    | .cons hm .nil =>
      refine (pairs_value hm).bind fun w' _ hw e e' he => ?_
      have hp : (Ty.prim p).Corresponds ts w' (.prim p) := .prim p
      rw [hw.convertsExplicitly he.type hp, hw.isAssignable he hp]
      exact .ite (pairs_term (hw.convertTo he hp).withSpan) (pairs_fail _ _)

/-! ### Names -/

theorem reference_corresponds {s s' : Symbol} (h : s.Corresponds ts w s') (span : Span) :
    (reference s span).Corresponds ts w (reference s' span) := ⟨h.type, rfl, rfl⟩

theorem pairs_implicitTarget (o : Options) (span : Span) :
    Pairs ts w (fun w => Option.Rel (Term.Corresponds ts w)) (implicitTarget o span)
      (implicitTarget o span) := by
  unfold implicitTarget
  refine .ite (pairs_scopes.bind fun w' _ _ s s' hs => ?_) (pairs_pure fun _ _ => .none)
  have himplicit := hs.implicit?
  generalize s.implicit? = x, s'.implicit? = x' at himplicit
  cases himplicit with
  | some h => exact pairs_pure fun _ hg => .some ((reference_corresponds h span).mono hg)
  | none => exact pairs_pure fun _ _ => .none

theorem pairs_shadowingTarget (o : Options) (name : String) (span : Span) :
    Pairs ts w (fun w => Option.Rel (Term.Corresponds ts w)) (shadowingTarget o name span)
      (shadowingTarget o name span) := by
  refine (pairs_implicitTarget o span).bind fun w' _ _ it it' hit => pairs_pure fun w'' hg => ?_
  cases hit with
  | none => exact .none
  | @some e e' h =>
    have hmember := h.type.member? name
    have hsome : (e.type.member? name).isSome = (e'.type.member? name).isSome := by
      generalize e.type.member? name = v, e'.type.member? name = v' at hmember
      cases hmember <;> rfl
    rw [Option.filter_some, Option.filter_some, hsome, h.type.methods name]
    split
    · exact .some (h.mono hg)
    · exact .none

theorem pairs_named (o : Options) (n : Name) : PairsTerm ts w (named o n) (named o n) := by
  refine pairs_scopes.bind fun w' _ _ s s' hs => .ite ?_ ?_
  · refine (pairs_ofExcept (S := Symbol.Corresponds ts) fun x hx => ?_).bind
      fun _ _ _ _ _ h => pairs_term (reference_corresponds h n.span)
    have himplicit := hs.implicit?
    unfold Scopes.resolveImplicit ParameterTable.resolveImplicit at hx ⊢
    unfold Scopes.implicit? at himplicit
    generalize s.current.implicit? = v, s'.current.implicit? = v' at himplicit hx
    cases himplicit with
    | some h =>
      cases hx
      exact ⟨_, rfl, fun _ hg => ⟨h.name, h.kind, h.type.mono hg⟩⟩
    | none => cases hx
  · have hlookup := hs.lookup? n.text
    generalize s.lookup? n.text = v, s'.lookup? n.text = v' at hlookup
    cases hlookup with
    | @some x x' h =>
      dsimp only
      rw [h.kind]
      cases x'.kind with
      | constant c => exact pairs_ofScalar c n.span
      | parameter => exact pairs_term (reference_corresponds h n.span)
    | none =>
      refine (pairs_implicitTarget o n.span).bind fun _ _ _ it it' hit => ?_
      cases hit with
      | some h => exact pairs_member h n.text n.span
      | none => exact pairs_fail _ _

theorem pairs_typeName (o : Options) (type : TypeName) :
    PairsTerm ts w (typeName o type) (typeName o type) := by
  refine (pairs_shadowingTarget o _ type.name.span).bind fun _ _ _ it it' hit => ?_
  cases hit with
  | some h => exact pairs_member h type.name.text type.name.span
  | none => exact pairs_fail _ _

theorem pairs_memberOfType (o : Options) (owner : TypeName) (n : Name) (span : Span) :
    PairsTerm ts w (memberOfType o owner n span) (memberOfType o owner n span) := by
  refine (pairs_shadowingTarget o _ owner.name.span).bind fun _ _ _ it it' hit => ?_
  cases hit with
  | some h =>
    exact (pairs_member h owner.name.text owner.name.span).bind fun _ _ _ _ _ h =>
      pairs_member h n.text span
  | none => exact pairs_staticConstant owner.known n span

theorem pairs_call (o : Options) (n : Name) (span : Span)
    (hms : List.Forall₂ (PairsTerm ts w) ms ms') :
    PairsTerm ts w (call o n ms span) (call o n ms' span) := by
  unfold call
  refine .ite ?_ (pairs_scopes.bind fun w' hg _ s s' hs => ?_)
  -- the word of a conditional takes three arguments, no more and no less
  · match hms with
    | .cons hc (.cons ha (.cons hb .nil)) => exact pairs_conditional span hc ha hb
    | .nil | .cons _ .nil | .cons _ (.cons _ .nil) | .cons _ (.cons _ (.cons _ (.cons _ _))) =>
      exact pairs_fail _ _
  · have hms := hms.imp fun _ _ h => h.later hg
    have hlookup : Option.Rel (Symbol.Corresponds ts w')
        ((s.lookup? n.text).filter Symbol.isParameter)
        ((s'.lookup? n.text).filter Symbol.isParameter) := by
      have hlookup := hs.lookup? n.text
      generalize s.lookup? n.text = v, s'.lookup? n.text = v' at hlookup
      cases hlookup with
      | none => exact .none
      | some h =>
        rw [Option.filter_some, Option.filter_some, Symbol.isParameter, h.kind,
          ← Symbol.isParameter]
        split
        · exact .some h
        · exact .none
    generalize (s.lookup? n.text).filter Symbol.isParameter = v,
      (s'.lookup? n.text).filter Symbol.isParameter = v' at hlookup
    cases hlookup with
    | some h => exact pairs_invoke (reference_corresponds h n.span) n.text span hms
    | none =>
      refine (pairs_implicitTarget o n.span).bind fun _ hg _ it it' hit => ?_
      cases hit with
      | some h => exact pairs_method h n.text span (hms.imp fun _ _ h => h.later hg)
      | none => exact pairs_fail _ _

theorem pairs_callOnType (o : Options) (owner : TypeName) (n : Name) (span : Span)
    (hms : List.Forall₂ (PairsTerm ts w) ms ms') :
    PairsTerm ts w (callOnType o owner n ms span) (callOnType o owner n ms' span) := by
  refine (pairs_shadowingTarget o _ owner.name.span).bind fun _ hg _ it it' hit => ?_
  have hms := hms.imp fun _ _ h => h.later hg
  cases hit with
  | some h =>
    exact (pairs_member h owner.name.text owner.name.span).bind fun _ hg _ _ _ h =>
      pairs_method h n.text span (hms.imp fun _ _ h => h.later hg)
  | none => exact pairs_function owner.known n span hms

theorem pairs_convertOrCall (o : Options) (type : TypeName) (span : Span)
    (hms : List.Forall₂ (PairsTerm ts w) ms ms') :
    PairsTerm ts w (convertOrCall o type ms span) (convertOrCall o type ms' span) := by
  refine (pairs_shadowingTarget o _ type.name.span).bind fun _ hg _ it it' hit => ?_
  have hms := hms.imp fun _ _ h => h.later hg
  cases hit with
  | some h => exact pairs_method h type.name.text span hms
  | none => exact pairs_conversion type.known span hms

/-! ### Expressions -/

mutual
/-- **What can be checked over one cache can be checked over another one**, and comes to
a term that corresponds. -/
theorem pairs_expr (o : Options) : ∀ (e : Expr) (w : Caches),
    PairsTerm ts w (expr o e) (expr o e)
  | .literal v written span, _ => pairs_literal v written span
  | .name n, _ => pairs_named o n
  | .typeName type, _ => pairs_typeName o type
  | .member target n span, w => by
    have h := pairs_expr o target w
    cases target with
    | typeName owner => exact pairs_memberOfType o owner n span
    | _ => exact (pairs_value h).bind fun _ _ _ _ _ h => pairs_member h n.text span
  | .index target arguments span, w =>
    (pairs_value (pairs_expr o target w)).bind fun w' _ _ _ _ h =>
      pairs_index h span (pairs_exprs o arguments w')
  | .call n arguments span, w => pairs_call o n span (pairs_exprs o arguments w)
  | .callOn target n arguments span, w => by
    have h := pairs_expr o target w
    have hs := pairs_exprs o arguments
    cases target with
    | typeName owner => exact pairs_callOnType o owner n span (hs w)
    | _ => exact (pairs_value h).bind fun w' _ _ _ _ h => pairs_method h n.text span (hs w')
  | .conversion type arguments span, w =>
    pairs_convertOrCall o type span (pairs_exprs o arguments w)
  | .unary op operand span, w =>
    (pairs_value (pairs_expr o operand w)).bind fun _ _ _ _ _ h => pairs_unary op h span
  | .binary op left right span, w =>
    (pairs_value (pairs_expr o left w)).bind fun w' _ _ _ _ hl =>
      (pairs_value (pairs_expr o right w')).bind fun _ hg hw _ _ hr =>
        pairs_binary o op hw (hl.mono hg) hr span
  | .conditional c a b span, w =>
    pairs_conditional span (pairs_expr o c w) (pairs_expr o a w) (pairs_expr o b w)
  | .inList operand items span, w =>
    pairs_inList span (pairs_expr o operand w) (pairs_exprs o items w)
  | .inSource operand source span, w =>
    pairs_inSource span (pairs_expr o operand w) (pairs_expr o source w)
  | .newRecord names items span, w => pairs_newRecord names span (pairs_exprs o items w)
  | .newArray type items span, w => pairs_newArray type span (pairs_exprs o items w)
termination_by structural e => e

theorem pairs_exprs (o : Options) : ∀ (es : List Expr) (w : Caches),
    List.Forall₂ (PairsTerm ts w) (exprs o es) (exprs o es)
  | [], _ => .nil
  | e :: es, w => .cons (pairs_expr o e w) (pairs_exprs o es w)
termination_by structural es => es
end

end Check

/-- **Whether an expression can be checked is no matter of the record types made so
far.** Over another cache it comes to a term whose type corresponds. -/
theorem Expr.check_corresponds {e : Expr} {o : Options} {table : ParameterTable}
    {body : Term} {d : RecordCache} (hw : w.Sound ts)
    (htable : ∀ p ∈ table.parameters, p.type ∈ ts)
    (h : e.check o table w.left = (.ok body, d)) :
    ∃ body' d', e.check o table w.right = (.ok body', d') ∧ Caches.Sound ts ⟨d, d'⟩ ∧
      body.Corresponds ts ⟨d, d'⟩ body' := by
  have hgiven : ∀ p ∈ table.parameters, p.type.Throughout (Ty.Known ts .empty) :=
    fun p hp => Ty.Occurs.known ⟨p.type, htable p hp, .refl⟩
  have hk : Context.Corresponds ts ⟨w.left, .ofTable table⟩ ⟨w.right, .ofTable table⟩ :=
    ⟨hw, .of_given hgiven, .nil⟩
  unfold Expr.check at h ⊢
  obtain ⟨hok, rfl⟩ := Prod.mk.inj h
  obtain ⟨body', k', hbody', -, hd, hcorr⟩ := Check.pairs_expr o e w _ _ .refl hk body _
    (Prod.ext hok rfl)
  rw [hbody']
  exact ⟨body', k'.records, rfl, hd.sound, hcorr⟩

end QueryExpr
