/-
# Operators under other names

What operators and constructions make of their parts is carried over to other
names. Operands are brought to the renamed types they were brought to, and a
record type is requested with the properties it had, over renamed types: the
properties of a record are no members of a class, and keep their names.

Key theorems: `Check.carries_binary`, `Check.carries_conditional`,
`Check.carries_inList`, `Check.carries_newRecord`, `Check.carries_newArray`,
`Check.carries_conversion`.
-/
import QueryExpr.Proofs.CarriedCalls

namespace QueryExpr
namespace Check

variable {r : Renaming} {P : Term → Prop} {c d : Context} {m m' a a' b b' : Check Term}
  {ms ms' : List (Check Term)}

/-! ### Literals and operators -/

theorem carries_literal (v : Literal) (written : String) (span : Span) :
    CarriesTerm r P c (literal v written span) (literal v written span) := by
  cases v with
  | integer magnitude negative suffix =>
    unfold literal
    dsimp only
    cases Literal.integer? magnitude negative suffix with
    | some v => exact carries_ofScalar v span
    | none => exact carries_fail _ _
  | real v suffix =>
    unfold literal
    dsimp only
    cases Literal.real? v suffix with
    | some v => exact carries_ofScalar v span
    | none => exact carries_fail _ _
  | string | char | boolean | null => exact carries_ofScalar _ span

theorem reveals_unary (op : UnaryOp) (e : Term) (span : Span) :
    Reveals (Term.EveryPart P) (unary op e span) (e.EveryPart P) := by
  unfold unary
  dsimp only
  split
  · exact reveals_pure fun h => h.2.of_convertTo
  · exact reveals_fail _ _

/-- The operand is brought to the type of the result, if there is one. -/
theorem carries_unaryResult (op : UnaryOp) (e : Term) (type : Option Ty) (span : Span) :
    CarriesTerm r P c
      (match type with
        | some t => pure (.unary op (e.convertTo t) t span)
        | none => fail (.operandType op.symbol e.type.display) span)
      (match type.map (Ty.rename r) with
        | some t => pure (.unary op ((e.rename r).convertTo t) t span)
        | none => fail (.operandType op.symbol (e.type.rename r).display) span) := by
  cases type with
  | some t =>
    dsimp only [Option.map_some]
    rw [← e.rename_convertTo]
    exact carries_term (.unary op (e.convertTo t) t span)
  | none => exact carries_fail _ _

theorem carries_unary (op : UnaryOp) (e : Term) (span : Span) :
    CarriesTerm r P c (unary op e span) (unary op (e.rename r) span) := by
  unfold unary
  rw [e.type_rename]
  cases op with
  | negate =>
    dsimp only
    rw [Ty.negation?_rename]
    exact carries_unaryResult .negate e _ span
  | not =>
    have hmap : (if (e.type.rename r).isBoolean then some (e.type.rename r) else none) =
        (if e.type.isBoolean then some e.type else none).map (Ty.rename r) := by
      rw [Ty.isBoolean_rename]
      split <;> rfl
    dsimp only
    rw [hmap]
    exact carries_unaryResult .not e _ span

theorem reveals_coalesce (e e' : Term) (span : Span) :
    Reveals (Term.EveryPart P) (coalesce e e' span) (e.EveryPart P ∧ e'.EveryPart P) := by
  unfold coalesce
  dsimp only
  repeat' split
  · exact reveals_pure fun h => ⟨h.1.2.of_convertTo, h.2.2.of_convertTo⟩
  · exact reveals_fail _ _
  · exact reveals_pure fun h => ⟨h.1.2, h.2.2.of_convertTo⟩
  · exact reveals_pure fun h => ⟨h.1.2, h.2.2.of_convertTo⟩
  · exact reveals_fail _ _

theorem carries_coalesce (e e' : Term) (span : Span) :
    CarriesTerm r P c (coalesce e e' span) (coalesce (e.rename r) (e'.rename r) span) := by
  unfold coalesce
  simp only [Term.type_rename, Ty.isNull_rename, Ty.acceptsNull_rename, Ty.nonNullable_rename,
    Term.isAssignable_rename, ← Term.rename_convertTo]
  refine .ite ?_ (.ite (carries_fail _ _) (.ite ?_ (.ite ?_ (carries_fail _ _))))
  · exact carries_term (.coalesce (e.convertTo e'.type) (e'.convertTo e'.type) e'.type span)
  · exact carries_term
      (.coalesce e (e'.convertTo e.type.nonNullable) e.type.nonNullable span)
  · exact carries_term (.coalesce e (e'.convertTo e.type) e.type span)

theorem reveals_binary (o : Options) (op : BinaryOp) (e e' : Term) (span : Span) :
    Reveals (Term.EveryPart P) (binary o op e e' span) (e.EveryPart P ∧ e'.EveryPart P) := by
  unfold binary
  split
  · exact reveals_coalesce e e' span
  · split
    · exact reveals_pure fun h => ⟨h.1.2, h.2.2⟩
    · split
      · exact reveals_pure fun h => ⟨h.1.2.of_convertTo, h.2.2.of_convertTo⟩
      · exact reveals_fail _ _

/-- Of the options, an operator asks for nothing but whether texts are joined. -/
theorem carries_binary {o o' : Options} (ho : o'.stringConcatenation = o.stringConcatenation)
    (op : BinaryOp) (e e' : Term) (span : Span) :
    CarriesTerm r P c (binary o op e e' span) (binary o' op (e.rename r) (e'.rename r) span) := by
  unfold binary
  cases Operation.ofBinaryOp? op with
  | none => exact carries_coalesce e e' span
  | some operation =>
    dsimp only
    rw [ho, operationTypes?_rename]
    simp only [Term.type_rename, Ty.isString_rename]
    refine .ite (carries_term (.binary .concat e e' .string span)) ?_
    cases operationTypes? operation e e' with
    | some ts =>
      dsimp only [Option.map_some, Prod.map]
      rw [← Term.rename_convertTo, ← Term.rename_convertTo]
      exact carries_term (.binary operation (e.convertTo ts.1) (e'.convertTo ts.1) ts.2 span)
    | none => exact carries_fail _ _

/-! ### Conditionals and memberships -/

theorem reveals_branches (e a b : Term) (span : Span) : Reveals (Term.EveryPart P)
    (match (Ty.unify? a.type b).or (Ty.unify? b.type a) with
      | some t => pure (Term.conditional e (a.convertTo t) (b.convertTo t) t span)
      | none => fail (.noCommonType a.type.display b.type.display) span : Check Term)
    (e.EveryPart P ∧ a.EveryPart P ∧ b.EveryPart P) := by
  split
  · exact reveals_pure fun h => ⟨h.1.2, h.2.1.2.of_convertTo, h.2.2.2.of_convertTo⟩
  · exact reveals_fail _ _

theorem carries_conditional (span : Span) (hm : CarriesTerm r P c m m')
    (ha : CarriesTerm r P (m c).2 a a') (hb : CarriesTerm r P (a (m c).2).2 b b') :
    CarriesTerm r P c (conditional m a b span) (conditional m' a' b' span) := by
  unfold conditional
  refine (carries_value hm).bind (fun e => ?_) fun e d hd _ => ?_
  · refine Reveals.guarded _ _ ?_
    exact Reveals.after fun a => Reveals.after fun b =>
      (reveals_branches e a b span).mono fun h => h.1
  rw [value_leaves hd] at ha hb
  have hboolean : (e.type.rename r == .boolean) = (e.type == .boolean) :=
    Ty.beq_rename e.type .boolean
  rw [e.type_rename, hboolean]
  refine Carries.guarded _ _ _ _ ?_
  refine (carries_value ha).bind (fun a => ?_) fun a d' hd' _ => ?_
  · exact Reveals.after fun b => (reveals_branches e a b span).mono fun h => h.2.1
  rw [value_leaves hd'] at hb
  refine (carries_value hb).bind (fun b => ?_) fun b _ _ _ => ?_
  · exact (reveals_branches e a b span).mono fun h => h.2.2
  rw [a.type_rename, b.type_rename, Ty.unify?_rename, Ty.unify?_rename, ← Option.map_or]
  cases (Ty.unify? a.type b).or (Ty.unify? b.type a) with
  | some t =>
    dsimp only [Option.map_some]
    rw [← a.rename_convertTo, ← b.rename_convertTo]
    exact carries_term (.conditional e (a.convertTo t) (b.convertTo t) t span)
  | none => exact carries_fail _ _

theorem carries_candidates (operand : Term) (span : Span) (hms : CarriesAll r P c ms ms') :
    ∀ t : Ty, Carries r (fun x => Term.AllParts P x.2) (Prod.map (Ty.rename r) (Term.renameAll r)) c
      (candidates operand span t ms) (candidates (operand.rename r) span (t.rename r) ms') := by
  induction hms with
  | nil => exact fun t => carries_pure (t, [])
  | @cons c m m' ms ms' hm _ ih =>
    intro t
    refine (carries_value hm).bind (fun e => ?_) fun e d hd _ => ?_
    · dsimp only
      split
      · exact Reveals.after fun x => reveals_pure fun h => (List.forall_mem_cons.mp h).1
      · exact reveals_fail _ _
    rw [value_leaves hd] at ih
    rw [Ty.unify?_rename]
    cases Ty.unify? t e with
    | some t =>
      refine (ih t).bind (fun x => ?_) fun x _ _ _ => carries_pure (x.1, e :: x.2)
      exact reveals_pure fun h => (List.forall_mem_cons.mp h).2
    | none => exact carries_fail _ _

theorem carries_inList (span : Span) (hm : CarriesTerm r P c m m')
    (hms : CarriesAll r P (m c).2 ms ms') :
    CarriesTerm r P c (inList m ms span) (inList m' ms' span) := by
  refine (carries_value hm).bind (fun e => ?_) fun e d hd _ => ?_
  · exact Reveals.after fun x => reveals_pure fun h => h.1.2.of_convertTo
  rw [value_leaves hd] at hms
  rw [e.type_rename]
  refine (carries_candidates e span hms e.type).bind (fun x => ?_) fun (t, es) _ _ _ => ?_
  · exact reveals_pure fun h => Term.AllParts.of_map (fun _ => Term.EveryPart.of_convertTo) h.2
  show CarriesTerm r P _ _ (pure (.inList ((e.rename r).convertTo (t.rename r))
    ((Term.renameAll r es).map (·.convertTo (t.rename r))) .boolean span))
  rw [← e.rename_convertTo, ← renameAll_map_convertTo]
  exact carries_term (.inList (e.convertTo t) (es.map (·.convertTo t)) .boolean span)

theorem reveals_inSequence (e s : Term) (span : Span) : Reveals (Term.EveryPart P)
    (match s.type.element? with
      | some t =>
        if e.isAssignable t then pure (Term.inSequence (e.convertTo t) s .boolean span)
        else fail (.operandTypes "in" e.type.display s.type.display) span
      | none => fail (.operandTypes "in" e.type.display s.type.display) span : Check Term)
    (e.EveryPart P ∧ s.EveryPart P) := by
  repeat' split
  · exact reveals_pure fun h => ⟨h.1.2.of_convertTo, h.2.2⟩
  · exact reveals_fail _ _
  · exact reveals_fail _ _

theorem carries_inSource (span : Span) (hm : CarriesTerm r P c m m')
    (ha : CarriesTerm r P (m c).2 a a') :
    CarriesTerm r P c (inSource m a span) (inSource m' a' span) := by
  unfold inSource
  refine (carries_value hm).bind (fun e => ?_) fun e d hd _ => ?_
  · exact Reveals.after fun s => (reveals_inSequence e s span).mono fun h => h.1
  rw [value_leaves hd] at ha
  refine (carries_value ha).bind (fun s => (reveals_inSequence e s span).mono fun h => h.2)
    fun s _ _ _ => ?_
  rw [s.type_rename, Ty.element?_rename]
  cases s.type.element? with
  | some t =>
    dsimp only [Option.map_some]
    rw [e.isAssignable_rename, ← e.rename_convertTo]
    exact .ite (carries_term (.inSequence (e.convertTo t) s .boolean span)) (carries_fail _ _)
  | none => exact carries_fail _ _

/-! ### Constructions -/

/-- The values of a record: a null is one of an object. -/
theorem renameAll_objects (es : List Term) :
    (Term.renameAll r es).map (fun e => if e.type.isNull then e.convertTo .object else e) =
      Term.renameAll r (es.map fun e => if e.type.isNull then e.convertTo .object else e) := by
  simp only [Term.renameAll_eq_map, List.map_map]
  refine List.map_congr_left fun e _ => ?_
  have hobject : (e.convertTo .object).rename r = (e.rename r).convertTo .object :=
    e.rename_convertTo .object
  simp only [Function.comp_apply, e.type_rename, Ty.isNull_rename, ← hobject]
  exact (apply_ite _ _ _ _).symm

theorem carries_newRecord (names : List Name) (span : Span) (hms : CarriesAll r P c ms ms') :
    CarriesTerm r P c (newRecord names ms span) (newRecord names ms' span) := by
  refine (carries_values hms).bind (fun es => ?_) fun es _ _ _ => ?_
  · refine Reveals.after fun record => reveals_pure fun h => Term.AllParts.of_map (fun e he => ?_) h
    split at he
    · exact he.of_convertTo
    · exact he
  dsimp only
  rw [renameAll_objects]
  generalize es.map (fun e => if e.type.isNull then e.convertTo .object else e) = es
  have hps : List.zipWith (fun (n : Name) (e : Term) => (n.text, e.type)) names
      (Term.renameAll r es) =
      Properties.rename r (List.zipWith (fun n e => (n.text, e.type)) names es) := by
    rw [Term.renameAll_eq_map, List.zipWith_map_right, Properties.rename, List.map_zipWith]
    simp only [Term.type_rename]
  rw [hps]
  refine (carries_request _ span).andThen fun record _ _ => ?_
  rw [record.type_rename]
  exact carries_term (.newRecord es record.type span)

theorem reveals_convertedAll (t : Ty) (es : List Term) :
    Reveals (Term.EveryPartOfAll P) (convertedAll t es) (Term.AllParts P es) := by
  induction es with
  | nil => exact fun _ _ _ _ _ => List.forall_mem_nil _
  | cons e es ih =>
    intro c x d heq hx
    have hfirst : Reveals (Term.EveryPartOfAll P) (convertedAll t (e :: es)) (e.EveryPart P) :=
      (reveals_converted e t).bind fun e => Reveals.after fun es => reveals_pure fun h => h.1.2
    have hrest : Reveals (Term.EveryPartOfAll P) (convertedAll t (e :: es)) (Term.AllParts P es) :=
      Reveals.after fun e => ih.bind fun es => reveals_pure fun h => h.2
    exact List.forall_mem_cons.mpr ⟨hfirst c x d heq hx, hrest c x d heq hx⟩

theorem carries_convertedAll (t : Ty) : ∀ {c : Context} (es : List Term),
    Carries r (Term.EveryPartOfAll P) (Term.renameAll r) c (convertedAll t es)
      (convertedAll (t.rename r) (Term.renameAll r es))
  | _, [] => carries_pure []
  | _, e :: es => by
    refine (carries_converted (P := P) e t).bind (fun e => ?_) fun e _ _ _ => ?_
    · exact Reveals.after fun es => reveals_pure fun h => h.1.2
    refine (carries_convertedAll t es).bind (fun es => ?_) fun es _ _ _ => carries_pure (e :: es)
    exact reveals_pure fun h => h.2

theorem carries_newArray (type : Option TypeName) (span : Span) (hms : CarriesAll r P c ms ms') :
    CarriesTerm r P c (newArray type ms span) (newArray type ms' span) := by
  -- however the type of the elements is found, what follows is the same
  have shown (es : List Term) (t : Ty) : Reveals (Term.EveryPart P)
      (convertedAll t es >>= fun es => pure (.newArray es (.array t) span)) (Term.AllParts P es) :=
    (reveals_convertedAll t es).bind fun es => reveals_pure id
  refine (carries_values hms).bind (fun es => ?_) fun es d _ _ => ?_
  · match type with
    | some ⟨_, .prim p⟩ | some ⟨n, .math⟩ | none => exact Reveals.after (shown es)
  have rest (t : Ty) (d : Context) :
      CarriesTerm r P d (convertedAll t es >>= fun es => pure (.newArray es (.array t) span))
        (convertedAll (t.rename r) (Term.renameAll r es) >>= fun es =>
          pure (.newArray es (.array (t.rename r)) span)) :=
    (carries_convertedAll t es).bind (fun es => reveals_pure id) fun es _ _ _ =>
      carries_term (.newArray es (.array t) span)
  match type with
  | some ⟨_, .prim p⟩ =>
    exact (carries_pure (h := Ty.rename r) (Ty.prim p)).andThen fun t d _ => rest t d
  | some ⟨n, .math⟩ =>
    exact (carries_fail (h := Ty.rename r) _ n.span).andThen fun t d _ => rest t d
  | none =>
    exact (carries_ofExcept fun t ht => Ty.best_rename ht).andThen fun t d _ => rest t d

theorem carries_conversion (type : KnownType) (span : Span) (hms : CarriesAll r P c ms ms') :
    CarriesTerm r P c (conversion type ms span) (conversion type ms' span) := by
  cases type with
  | math => exact carries_fail _ _
  | prim p =>
    match hms with
    | .nil | .cons _ (.cons _ _) => exact carries_fail _ _
    | .cons hm .nil =>
      refine (carries_value hm).bind (fun e => ?_) fun e _ _ _ => ?_
      · split
        · exact reveals_pure fun h => h.of_withSpan.of_convertTo
        · exact reveals_fail _ _
      have hconverts : (e.type.rename r).convertsExplicitly (.prim p) =
          e.type.convertsExplicitly (.prim p) := Ty.convertsExplicitly_rename e.type (.prim p)
      have hassignable : (e.rename r).isAssignable (.prim p) = e.isAssignable (.prim p) :=
        e.isAssignable_rename (.prim p)
      have hterm : ((e.convertTo (.prim p)).withSpan span).rename r =
          ((e.rename r).convertTo (.prim p)).withSpan span := by
        rw [Term.rename_withSpan, e.rename_convertTo]
        rfl
      rw [e.type_rename, hconverts, hassignable, ← hterm]
      exact .ite (carries_term _) (carries_fail _ _)

end Check
end QueryExpr
