/-
# Members, calls and aggregates over two caches

What is asked of a target is answered over the other cache as well: a member of it, an
element, a call. The candidates for a call take the same arguments, and what they return
corresponds.

Key theorems: `Check.pairs_aggregate`, `Check.pairs_choose`, `Check.pairs_method`,
`Check.pairs_invoke`.
-/
import QueryExpr.Proofs.RenumberedSteps

namespace QueryExpr

variable {ts : List Ty} {w w' : Caches}

/-- The signatures take the same, which corresponds to itself, and what they return
corresponds. -/
structure Signature.Corresponds (ts : List Ty) (w : Caches) (s s' : Signature) : Prop where
  parameters : s.parameters = s'.parameters
  given : ∀ u ∈ s.parameters, u.Corresponds ts w u
  returns : s.returns.Corresponds ts w s'.returns

namespace Ty.Corresponds

variable {t t' : Ty}

/-- The methods of a declared class are declared. -/
theorem signatures (h : t.Corresponds ts w t') (n : String) :
    List.Forall₂ (Signature.Corresponds ts w) (t.methods n) (t'.methods n) := by
  cases h with
  | same ht =>
    refine List.forall₂_same.mpr fun s hs => ⟨rfl, fun u hu => ?_, ?_⟩
    · exact .same ((ht.methods hs).2 u hu)
    · exact .same (ht.methods hs).1
  | _ => exact .nil

theorem indexers (h : t.Corresponds ts w t') :
    List.Forall₂ (Signature.Corresponds ts w) (Check.indexers t) (Check.indexers t') := by
  have int32 : ∀ u ∈ [Ty.int32], u.Corresponds ts w u := fun u hu => by
    rw [List.mem_singleton.mp hu]
    exact prim _
  cases h with
  | same ht =>
    refine List.forall₂_same.mpr fun s hs => ?_
    cases t with
    | prim p =>
      cases p with
      | string =>
        rw [List.mem_singleton.mp hs]
        exact ⟨rfl, int32, prim _⟩
      | _ => cases hs
    | array e =>
      rw [List.mem_singleton.mp hs]
      exact ⟨rfl, int32, .same (ht.element rfl)⟩
    | cls =>
      exact ⟨rfl, fun u hu => .same ((ht.ownIndexer hs).2 u hu), .same (ht.ownIndexer hs).1⟩
    | _ => cases hs
  | array h => exact .cons ⟨rfl, int32, h⟩ .nil
  | _ => exact .nil

end Ty.Corresponds

namespace Check

variable {m m' : Check Term} {ms ms' : List (Check Term)} {e e' : Term} {t t' : Ty}
  {es es' : List Term}

/-! ### Aggregates -/

theorem pairs_body (ht : t.Corresponds ts w t') (hm : PairsTerm ts w m m') :
    PairsTerm ts w (body t m) (body t' m') := (pairs_value hm).withElement ht

theorem pairs_predicate (ht : t.Corresponds ts w t') (hm : PairsTerm ts w m m') :
    PairsTerm ts w (predicate t m) (predicate t' m') :=
  (pairs_body ht hm).bind fun _ _ hw e e' he => by
    have hboolean : (e.type == .boolean) = (e'.type == .boolean) := hw.beq he.type (.prim _)
    rw [hboolean]
    exact (pairs_term he).guarded _ _ _ _

theorem pairs_aggregate (ht : t.Corresponds ts w t') (op : Aggregate) (span : Span)
    (hms : List.Forall₂ (PairsTerm ts w) ms ms') :
    PairsTerm ts w (aggregate e t op ms span) (aggregate e' t' op ms' span) := by
  cases hms with
  | nil =>
    have hplain := ht.plain? op
    rw [aggregate_nil, aggregate_nil]
    generalize op.plain? t = v, op.plain? t' = v' at hplain
    cases hplain with
    | some hv => exact pairs_term ⟨hv, rfl, rfl⟩
    | none => exact pairs_fail _ _
  | cons hm hms =>
    cases hms with
    | cons _ _ =>
      rw [aggregate_more]
      exact pairs_fail _ _
    | nil =>
      -- the one argument is a test of the elements, a value of a given type, or a selection
      have htested := ht.tested? op
      have htaken := ht.taken? op
      rw [aggregate_one, aggregate_one]
      generalize op.tested? t = v, op.tested? t' = v' at htested
      cases htested with
      | some hv =>
        exact (pairs_predicate ht hm).bind fun _ hg _ _ _ _ =>
          pairs_term ⟨hv.mono hg, rfl, rfl⟩
      | none =>
        generalize op.taken? t = v, op.taken? t' = v' at htaken
        cases htaken with
        | some hv =>
          refine (pairs_value hm).bind fun _ hg hw e e' he => ?_
          refine (pairs_converted hw he (hv.1.mono hg)).bind fun _ hg' _ _ _ _ => ?_
          exact pairs_term ⟨hv.2.mono (hg.trans hg'), rfl, rfl⟩
        | none =>
          refine (pairs_body ht hm).bind fun _ hg _ e e' he => ?_
          have hselected := (ht.mono hg).selected? op he.type
          generalize op.selected? t e.type = v, op.selected? t' e'.type = v' at hselected
          cases hselected with
          | some hv => exact pairs_term ⟨hv, rfl, rfl⟩
          | none => exact pairs_fail _ _

/-! ### Members, calls and indexing -/

theorem pairs_member (he : e.Corresponds ts w e') (n : String) (span : Span) :
    PairsTerm ts w (member e n span) (member e' n span) := by
  have hmember := he.type.member? n
  unfold member
  rw [he.type.property? n]
  generalize e.type.member? n = v, e'.type.member? n = v' at hmember
  cases hmember with
  | some hv => exact pairs_term ⟨hv, rfl, rfl⟩
  | none =>
    dsimp only
    cases hp : Builtin.property? e'.type n with
    | some x =>
      obtain ⟨p, hprim⟩ := Builtin.property?_prim hp
      refine pairs_term ⟨?_, rfl, rfl⟩
      show Ty.Corresponds ts w x.2 x.2
      rw [hprim]
      exact .prim p
    | none => exact pairs_fail _ _

section
variable {α β : Type} {R : α → β → Prop} {candidates : List α} {candidates' : List β}
  {parameters : α → List Ty} {parameters' : β → List Ty}

/-- The choice among candidates that take the same falls on the same place. -/
theorem selectOverload_corresponds (hw : w.Sound ts) (hc : List.Forall₂ R candidates candidates')
    (hR : ∀ x y, R x y → parameters x = parameters' y ∧
      ∀ u ∈ parameters x, u.Corresponds ts w u)
    (hes : List.Forall₂ (Term.Corresponds ts w) es es') :
    selectOverload (candidates.map parameters) es =
      selectOverload (candidates'.map parameters') es' := by
  have hparameters : candidates.map parameters = candidates'.map parameters' ∧
      ∀ us ∈ candidates.map parameters, ∀ u ∈ us, u.Corresponds ts w u := by
    induction hc with
    | nil => exact ⟨rfl, List.forall_mem_nil _⟩
    | cons hx _ ih =>
      obtain ⟨hsame, hgiven⟩ := hR _ _ hx
      refine ⟨?_, List.forall_mem_cons.mpr ⟨hgiven, ih.2⟩⟩
      rw [List.map_cons, List.map_cons, hsame, ih.1]
  rw [hw.selectOverload hparameters.2 hes, hparameters.1]

/-- The candidate that is chosen over the other cache is the corresponding one. -/
theorem pairs_choose (hw : w.Sound ts) (hc : List.Forall₂ R candidates candidates')
    (hR : ∀ x y, R x y → parameters x = parameters' y ∧
      ∀ u ∈ parameters x, u.Corresponds ts w u)
    (hes : List.Forall₂ (Term.Corresponds ts w) es es') (name owner owner' : String)
    (span : Span) :
    Pairs ts w (fun _ => R) (choose candidates parameters es name owner span)
      (choose candidates' parameters' es' name owner' span) := by
  unfold choose
  rw [selectOverload_corresponds hw hc hR hes]
  cases selectOverload (candidates'.map parameters') es' with
  | found i =>
    have hi := getElem?_of_forall₂ hc i
    dsimp only
    generalize candidates[i]? = x, candidates'[i]? = y at hi
    cases hi with
    | some h => exact pairs_pure fun _ _ => h
    | none => exact pairs_fail _ _
  | noneApplicable | ambiguous => exact pairs_fail _ _

end

theorem pairs_index (he : e.Corresponds ts w e') (span : Span)
    (hms : List.Forall₂ (PairsTerm ts w) ms ms') :
    PairsTerm ts w (index e ms span) (index e' ms' span) := by
  refine (pairs_values hms).bind fun w' hg hw es es' hes => ?_
  have hindexers := (he.type.mono hg).indexers
  dsimp only
  rw [selectOverload_corresponds hw hindexers (fun _ _ h => ⟨h.parameters, h.given⟩) hes]
  cases selectOverload ((indexers e'.type).map (·.parameters)) es' with
  | found i =>
    have hi := getElem?_of_forall₂ hindexers i
    dsimp only
    generalize (indexers e.type)[i]? = x, (indexers e'.type)[i]? = y at hi
    cases hi with
    | some h => exact pairs_term ⟨h.returns, rfl, rfl⟩
    | none => exact pairs_fail _ _
  | noneApplicable | ambiguous => exact pairs_fail _ _

/-- What is built in takes and returns what corresponds to itself. -/
theorem builtin_corresponds {b : Builtin} (h : b.IsPrimitive) :
    (∀ u ∈ b.parameters, u.Corresponds ts w u) ∧ b.returns.Corresponds ts w b.returns := by
  obtain ⟨⟨p, hp⟩, hps⟩ := h
  refine ⟨fun u hu => ?_, hp ▸ .prim p⟩
  obtain ⟨q, rfl⟩ := hps u hu
  exact .prim q

theorem pairs_chooseBuiltin {candidates : List Builtin} (hw : w.Sound ts)
    (hc : ∀ b ∈ candidates, b.IsPrimitive) (hes : List.Forall₂ (Term.Corresponds ts w) es es')
    (name owner owner' : String) (span : Span) :
    Pairs ts w (fun _ b b' => b = b' ∧ b.IsPrimitive)
      (choose candidates (·.parameters) es name owner span)
      (choose candidates (·.parameters) es' name owner' span) := by
  refine pairs_choose hw (List.forall₂_same.mpr fun b hb => ⟨rfl, hc b hb⟩) ?_ hes _ _ _ _
  rintro b _ ⟨rfl, hb⟩
  exact ⟨rfl, (builtin_corresponds hb).1⟩

theorem pairs_method (he : e.Corresponds ts w e') (n : String) (span : Span)
    (hms : List.Forall₂ (PairsTerm ts w) ms ms') :
    PairsTerm ts w (method e n ms span) (method e' n ms' span) := by
  have helement := he.type.element?
  -- what is no aggregate is a method of the class, or else a built-in one
  have rest : PairsTerm ts w
      (values ms >>= fun es =>
        if (e.type.methods n).isEmpty then
          choose (Builtin.methods e.type n) (·.parameters) es n e.type.display span >>= fun b =>
            pure (.intrinsic b.op e (convertArguments es b.parameters) b.returns span)
        else
          choose (e.type.methods n) (·.parameters) es n e.type.display span >>= fun s =>
            pure (.call e n (convertArguments es s.parameters) s.returns span))
      (values ms' >>= fun es =>
        if (e'.type.methods n).isEmpty then
          choose (Builtin.methods e'.type n) (·.parameters) es n e'.type.display span >>= fun b =>
            pure (.intrinsic b.op e' (convertArguments es b.parameters) b.returns span)
        else
          choose (e'.type.methods n) (·.parameters) es n e'.type.display span >>= fun s =>
            pure (.call e' n (convertArguments es s.parameters) s.returns span)) := by
    refine (pairs_values hms).bind fun w' hg hw es es' hes => ?_
    rw [he.type.methods n, he.type.builtinMethods n]
    refine .ite ?_ ?_
    · refine (pairs_chooseBuiltin hw (fun b => Builtin.isPrimitive_methods) hes _ _ _ _).bind ?_
      rintro w'' - - b _ ⟨rfl, hb⟩
      exact pairs_term ⟨(builtin_corresponds hb).2, rfl, rfl⟩
    · have hsignatures := (he.type.mono hg).signatures n
      rw [he.type.methods n] at hsignatures
      refine (pairs_choose hw hsignatures (fun _ _ h => ⟨h.parameters, h.given⟩) hes _ _ _ _).bind
        fun w'' hg' _ s s' hs => ?_
      exact pairs_term ⟨hs.returns.mono hg', rfl, rfl⟩
  unfold method
  generalize e.type.element? = v, e'.type.element? = v' at helement
  cases helement with
  | none => exact rest
  | some hv =>
    cases Aggregate.ofName? n with
    | none => exact rest
    | some op => exact pairs_aggregate hv op span hms

theorem pairs_invokeArguments (hms : List.Forall₂ (PairsTerm ts w) ms ms') :
    ∀ us : List Ty, (∀ u ∈ us, u.Corresponds ts w u) →
      Pairs ts w (fun w => List.Forall₂ (Term.Corresponds ts w)) (invokeArguments ms us)
        (invokeArguments ms' us) := by
  induction hms with
  | nil => exact fun _ _ => pairs_pure fun _ _ => .nil
  | cons hm _ ih =>
    intro us hus
    cases us with
    | nil => exact pairs_pure fun _ _ => .nil
    | cons u us =>
      obtain ⟨hu, hus⟩ := List.forall_mem_cons.mp hus
      refine (pairs_value hm).bind fun w₁ hg hw e e' he => ?_
      refine (pairs_converted hw he (hu.mono hg)).bind fun w₂ hg' _ e e' he => ?_
      refine ((ih us hus).later (hg.trans hg')).bind fun w₃ hg'' _ es es' hes => ?_
      exact pairs_pure fun _ hlast =>
        .cons (he.mono (hg''.trans hlast)) (hes.imp fun _ _ h => h.mono hlast)

theorem pairs_invoke (he : e.Corresponds ts w e') (name : String) (span : Span)
    (hms : List.Forall₂ (PairsTerm ts w) ms ms') :
    PairsTerm ts w (invoke e name ms span) (invoke e' name ms' span) := by
  have ht := he.type
  unfold invoke
  rw [← hms.length_eq]
  generalize e.type = t, e'.type = t' at ht
  cases ht with
  | same ht =>
    cases t with
    | delegate dn ns us u =>
      have hparts (v : Ty) (hv : v ∈ (Ty.delegate dn ns us u).parts) : v.Corresponds ts w v :=
        .same (ht.part hv)
      refine .guarded _ _ _ _ ?_
      refine (pairs_invokeArguments hms us fun v hv => hparts v (List.mem_cons_of_mem _ hv)).bind
        fun _ hg _ _ _ _ => ?_
      exact pairs_term ⟨(hparts u List.mem_cons_self).mono hg, rfl, rfl⟩
    | _ => exact pairs_fail _ _
  | _ => exact pairs_fail _ _

theorem pairs_function (owner : KnownType) (name : Name) (span : Span)
    (hms : List.Forall₂ (PairsTerm ts w) ms ms') :
    PairsTerm ts w (function owner name ms span) (function owner name ms' span) := by
  refine .guarded _ _ _ _ ?_
  refine (pairs_values hms).bind fun w' hg hw es es' hes => ?_
  refine (pairs_chooseBuiltin hw (fun b => Builtin.isPrimitive_functions) hes _ _ _ _).bind ?_
  rintro w'' - - b _ ⟨rfl, hb⟩
  exact pairs_term ⟨(builtin_corresponds hb).2, rfl, rfl⟩

theorem pairs_ofScalar (v : Scalar) (span : Span) :
    PairsTerm ts w (pure (.ofScalar v span)) (pure (.ofScalar v span)) :=
  pairs_term (.ofScalar v span span)

theorem pairs_staticConstant (owner : KnownType) (name : Name) (span : Span) :
    PairsTerm ts w (staticConstant owner name span) (staticConstant owner name span) := by
  unfold staticConstant
  cases Builtin.constant? owner name.text with
  | some v => exact pairs_ofScalar v span
  | none => exact pairs_fail _ _

end Check
end QueryExpr
