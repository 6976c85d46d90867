/-
# Operators and constructions keep the rules of typing

The operands of an operator convert to the type that it works in, the branches
of a conditional to their common type, the candidates of a membership to the
type that they lead to step by step. The values of a record have the types
that it was requested for.

Key theorems: `Check.settled_binary`, `Check.yields_conditional`,
`Check.yields_inList`, `Check.yields_newRecord`, `Check.yields_newArray`,
`Check.yields_conversion`.
-/
import QueryExpr.Proofs.CallTyping

namespace QueryExpr.Check

variable {D : Discipline} (hD : D.Lawful) {s : Scopes} (hs : s.Valued D) {m : Check Term}
  {ms : List (Check Term)}
include hD hs

/-! ### Constants -/

omit hs in
/-- A constant of its natural type. -/
theorem checked_ofScalar (v : Scalar) (span : Span) : Term.Checked D s (.ofScalar v span) := by
  refine ⟨.constant (hD.admits_naturalType v) (.inl rfl), fun hn => ?_⟩
  cases v with
  | null => exact .inl rfl
  | _ => cases hn

omit hs in
theorem settled_staticConstant (owner : KnownType) (name : Name) (span : Span) :
    Settled s (staticConstant owner name span) (Term.Checked D s) := by
  unfold staticConstant
  split
  · exact settled_pure (checked_ofScalar hD _ _)
  · exact settled_fail _ _

omit hs in
theorem settled_literal (v : Literal) (written : String) (span : Span) :
    Settled s (literal v written span) (Term.Checked D s) := by
  unfold literal
  split
  · split
    · exact settled_pure (checked_ofScalar hD _ _)
    · exact settled_fail _ _
  · split
    · exact settled_pure (checked_ofScalar hD _ _)
    · exact settled_fail _ _
  all_goals exact settled_pure (checked_ofScalar hD _ _)

/-! ### Operators -/

/-- A term converted to a type that it may stand for, where that is a number or
a truth value. -/
theorem typed_lift {e : Term} {p : Prim} {n : Bool} (h : Term.Typed D s e) (hv : D.value e.type)
    (ha : e.isAssignable (.lift p n) = true) :
    Term.Typed D s (e.convertTo (.lift p n)) ∧ D.value (e.convertTo (.lift p n)).type ∧
      (e.convertTo (.lift p n)).type = .lift p n :=
  ⟨h.convertTo hD hs hv (hD.admits_lift p n) ha, Term.Typed.value_convertTo hD hv ha,
    Ty.eq_lift_of_beq (e.type_convertTo_beq _)⟩

theorem settled_unary (op : UnaryOp) {e : Term} (h : Term.Typed D s e) (hv : D.value e.type)
    (span : Span) : Settled s (unary op e span) (Term.Checked D s) := by
  unfold unary
  cases op with
  | negate =>
    dsimp only
    split
    · rename_i t ht
      obtain ⟨hn, hc, q, n, rfl⟩ := Ty.negation?_self ht
      obtain ⟨h1, h2, h3⟩ := typed_lift hD hs h hv (Term.isAssignable_of_converts hc)
      exact settled_pure (checked (.negate h1 h2 h3 hn) rfl)
    · exact settled_fail _ _
  | not =>
    dsimp only
    by_cases hb : e.type.isBoolean = true
    · rw [if_pos hb]
      dsimp only
      rw [e.convertTo_self]
      exact settled_pure (checked (.not h hv rfl hb) rfl)
    · rw [if_neg hb]
      exact settled_fail _ _

theorem settled_coalesce {l r : Term} (hl : Term.Typed D s l) (hlv : D.value l.type)
    (hr : Term.Typed D s r) (hrv : D.value r.type) (span : Span) :
    Settled s (coalesce l r span) (Term.Checked D s) := by
  have hla := hl.admits hD hs
  unfold coalesce
  split
  · rename_i hn
    have ht : l.type = .null := by
      cases h : l.type <;> simp_all [Ty.isNull]
    dsimp only
    rw [r.convertTo_self]
    exact settled_pure (checked (.coalesceNull hl ht hr hrv) rfl)
  split
  · exact settled_fail _ _
  rename_i hn
  have hn : l.type.acceptsNull = true := by simpa using hn
  split
  · rename_i ha
    have h1 := hr.convertTo hD hs hrv (hD.admits_nonNullable hla) ha
    have h2 := Term.Typed.value_convertTo hD hrv ha
    exact settled_pure (checked (.coalesce hl hlv h1 h2 hn (.inr rfl) (r.type_convertTo_beq _)) rfl)
  split
  · rename_i ha
    have h1 := hr.convertTo hD hs hrv hla ha
    have h2 := Term.Typed.value_convertTo hD hrv ha
    exact settled_pure (checked (.coalesce hl hlv h1 h2 hn (.inl rfl) (r.type_convertTo_beq _)) rfl)
  · exact settled_fail _ _

/-- The operands of an operator, converted to the type it works in. -/
theorem typed_operation {op : Operation} {l r : Term} {t u : Ty}
    (hl : Term.Typed D s l) (hlv : D.value l.type) (hr : Term.Typed D s r) (hrv : D.value r.type)
    (ho : operationTypes? op l r = some (t, u)) (hc : op ≠ .concat) (span : Span) :
    Term.Typed D s (.binary op (l.convertTo t) (r.convertTo t) u span) := by
  -- What both operands are promoted to is a type of numbers that both convert to.
  have promoted {a : Bool} (hp : Ty.promote? l.type r.type a = some t) :
      ∃ p n, t = .lift p n ∧ (a = true → p ∈ Ty.promotions) ∧ l.isAssignable t = true ∧
        r.isAssignable t = true := by
    obtain ⟨_, _, c, -, -, -, -, -, -, -, hc, hm⟩ := Ty.promote?_cases hp
    obtain ⟨h1, h2⟩ := Ty.promote?_converts hp
    exact ⟨c, _, hc, hm, Term.isAssignable_of_converts h1, Term.isAssignable_of_converts h2⟩
  have boolean {e : Term} (hb : e.type.isBoolean = true) (n : Bool)
      (hn : e.type.isNullable = true → n = true) : e.isAssignable (.lift .boolean n) = true := by
    have hp : e.type.primitive? = some .boolean := by simpa [Ty.isBoolean] using hb
    exact Term.isAssignable_of_converts (Ty.converts_lift hp rfl (Prim.widens_refl _) hn)
  unfold operationTypes? at ho
  split at ho
  case h_1 | h_2 =>
    split at ho <;> cases ho
    rename_i hb
    rw [Bool.and_eq_true] at hb
    have hla := boolean hb.1 (l.type.isNullable || r.type.isNullable) fun h => by simp [h]
    have hra := boolean hb.2 (l.type.isNullable || r.type.isNullable) fun h => by simp [h]
    obtain ⟨h1, h2, h3⟩ := typed_lift hD hs hl hlv hla
    obtain ⟨h4, h5, h6⟩ := typed_lift hD hs hr hrv hra
    exact .logic h1 h2 h4 h5 (by simp) h3 h6
  case h_3 | h_4 =>
    obtain ⟨t', ht, he⟩ := Option.map_eq_some_iff.mp ho
    cases he
    obtain ⟨hla, hra⟩ := Ty.equality?_assignable ht
    have hta := hD.admits_equality? (hl.admits hD hs) (hr.admits hD hs) ht
    have h1 := hl.convertTo hD hs hlv hta hla
    have h2 := hr.convertTo hD hs hrv hta hra
    have h3 := Ty.beq_trans (l.type_convertTo_beq t) (Ty.beq_symm (r.type_convertTo_beq t))
    exact .equality h1 (Term.Typed.value_convertTo hD hlv hla) h2
      (Term.Typed.value_convertTo hD hrv hra) (by simp) h3
  case h_5 | h_6 | h_7 | h_8 =>
    split at ho
    · rename_i t' hp
      cases ho
      obtain ⟨p, n, rfl, -, hla, hra⟩ := promoted hp
      obtain ⟨h1, h2, h3⟩ := typed_lift hD hs hl hlv hla
      obtain ⟨h4, h5, h6⟩ := typed_lift hD hs hr hrv hra
      exact .ordering h1 h2 h4 h5 rfl (h3.trans h6.symm)
    · split at ho <;> cases ho
      rename_i hb
      have string {e : Term} (h : e.type.isString = true) : e.type = .string := by
        unfold Ty.isString at h
        split at h
        · assumption
        · cases h
      rw [Bool.and_eq_true] at hb
      have hlt := string hb.1
      have hrt := string hb.2
      rw [← hlt, l.convertTo_self, hlt, ← hrt, r.convertTo_self]
      exact .ordering hl hlv hr hrv rfl (hlt.trans hrt.symm)
  case h_9 =>
    obtain ⟨t', hp, he⟩ := Option.map_eq_some_iff.mp ho
    cases he
    obtain ⟨p, n, rfl, hm, hla, hra⟩ := promoted hp
    obtain ⟨h1, h2, h3⟩ := typed_lift hD hs hl hlv hla
    obtain ⟨h4, h5, h6⟩ := typed_lift hD hs hr hrv hra
    refine .arithmetic h1 h2 h4 h5 ?_ (hm rfl) h3 h6
    cases op <;> simp_all [Operation.isArithmetic]

theorem settled_binary (o : Options) (op : BinaryOp) {l r : Term} (hl : Term.Typed D s l)
    (hlv : D.value l.type) (hr : Term.Typed D s r) (hrv : D.value r.type) (span : Span) :
    Settled s (binary o op l r span) (Term.Checked D s) := by
  unfold binary
  split
  · exact settled_coalesce hD hs hl hlv hr hrv span
  · rename_i operation hop
    have hc : operation ≠ .concat := by
      rintro rfl
      cases op <;> cases hop
    split
    · exact settled_pure (checked (.concat hl hlv hr hrv) rfl)
    · split
      · rename_i t u ho
        exact settled_pure (checked (typed_operation hD hs hl hlv hr hrv ho hc span) rfl)
      · exact settled_fail _ _

/-! ### Alternatives and memberships -/

/-- The branches of a conditional convert to their common type. -/
theorem branches_assignable {a b : Term} {t : Ty} (ha : Term.Typed D s a) (hb : Term.Typed D s b)
    (h : (Ty.unify? a.type b).or (Ty.unify? b.type a) = some t) :
    D.Admits t ∧ a.isAssignable t = true ∧ b.isAssignable t = true := by
  have haa := ha.admits hD hs
  have hba := hb.admits hD hs
  rcases Option.or_eq_some_iff.mp h with h | ⟨-, h⟩
  · exact ⟨hD.admits_unify? haa hba h, Term.isAssignable_of_converts (Ty.unify?_converts h),
      Ty.unify?_assignable h⟩
  · exact ⟨hD.admits_unify? hba haa h, Ty.unify?_assignable h,
      Term.isAssignable_of_converts (Ty.unify?_converts h)⟩

theorem yields_conditional {c a b : Check Term} (span : Span) (hc : Sound D c) (ha : Sound D a)
    (hb : Sound D b) : Yields D s (conditional c a b span) (Term.Checked D s) := by
  have hka := composed_value ha.composed
  have hkb := composed_value hb.composed
  refine (yields_value hD hs hc).bind (composed_value hc.composed) (fun c => ?_) fun c hc => ?_
  · refine Built.guarded _ _ rfl (hka.bind fun a => hkb.bind fun b => ?_)
    split
    · exact Built.pure _
    · exact Built.failing _ _ rfl
  dsimp only
  split
  · exact (settled_fail _ _).bind_yields (Q := fun _ => False) fun _ h => h.elim
  rename_i hcb
  have hcb : (c.type == Ty.boolean) = true := by simpa using hcb
  refine (yields_value hD hs ha).bind hka (fun a => hkb.bind fun b => ?_) fun a ha => ?_
  · split
    · exact Built.pure _
    · exact Built.failing _ _ rfl
  refine (yields_value hD hs hb).settle hkb fun b => ?_
  split
  · rename_i t ht
    refine settled_pure fun hb => checked ?_ rfl
    obtain ⟨hta, h1, h2⟩ := branches_assignable hD hs ha.1.1 hb.1.1 ht
    exact .conditional hc.1.1 (Ty.beq_prim hcb) (ha.1.1.convertTo hD hs ha.2 hta h1)
      (Term.Typed.value_convertTo hD ha.2 h1) (hb.1.1.convertTo hD hs hb.2 hta h2)
      (Term.Typed.value_convertTo hD hb.2 h2) hta (a.type_convertTo_beq t)
      (b.type_convertTo_beq t)
  · exact settled_fail _ _

theorem yields_candidates (operand : Term) (span : Span) : ∀ (t : Ty) (ms : List (Check Term)),
    D.Admits t → D.value t → (∀ m ∈ ms, Sound D m) →
    Yields D s (candidates operand span t ms) fun x =>
      D.Admits x.1 ∧ D.value x.1 ∧ t.Leads D x.1 ∧
        ∀ a ∈ x.2, Term.Typed D s a ∧ D.value a.type ∧
          ∃ u, a.isAssignable u = true ∧ D.Admits u ∧ u.Leads D x.1
  | t, [], ht, hv, _ => (settled_pure ⟨ht, hv, .refl, List.forall_mem_nil _⟩).yields
  | t, m :: ms, ht, hv, hms => by
    have hm := hms m List.mem_cons_self
    have hms' : ∀ m ∈ ms, Sound D m := fun m hm => hms m (List.mem_cons_of_mem _ hm)
    have hk (u : Ty) : Composed (candidates operand span u ms) :=
      composed_candidates operand span u ms fun m hm => (hms' m hm).composed
    refine (yields_value hD hs hm).bind (composed_value hm.composed) (fun e => ?_) fun e he => ?_
    · split
      · exact (hk _).bind fun x => Built.pure _
      · exact Built.failing _ _ rfl
    · split
      · rename_i u hu
        have hua := hD.admits_unify? ht (he.1.1.admits hD hs) hu
        have ha := Ty.unify?_assignable hu
        have huv := hD.value_of_isAssignable he.2 ha
        refine (yields_candidates operand span u ms hua huv hms').settle (hk u) fun x => ?_
        refine settled_pure fun ⟨h1, h2, h3, h4⟩ =>
          ⟨h1, h2, .step (Ty.unify?_converts hu) hua h3, fun a h => ?_⟩
        rcases List.mem_cons.mp h with rfl | h
        · exact ⟨he.1.1, he.2, u, ha, hua, h3⟩
        · exact h4 a h
      · exact (settled_fail _ _).yields

theorem yields_inList (span : Span) (hm : Sound D m) (hms : ∀ m ∈ ms, Sound D m) :
    Yields D s (inList m ms span) (Term.Checked D s) := by
  have hk (e : Term) : Composed (candidates e span e.type ms) :=
    composed_candidates e span _ ms fun m hm => (hms m hm).composed
  refine (yields_value hD hs hm).bind (composed_value hm.composed)
    (fun e => (hk e).bind fun x => Built.pure _) fun e he => ?_
  have hea := he.1.1.admits hD hs
  refine (yields_candidates hD hs e span e.type ms hea he.2 hms).settle (hk e) fun x => ?_
  refine settled_pure fun ⟨h1, h2, h3, h4⟩ => checked ?_ rfl
  refine .inList he.1.1 he.2 (fun a ha => (h4 a ha).1) (fun a ha => (h4 a ha).2.1) h1 h2
    fun a ha => ?_
  rcases List.mem_cons.mp ha with rfl | ha
  · exact ⟨a.type, Term.isAssignable_of_converts (Ty.converts_refl _), hea, h3⟩
  · exact (h4 a ha).2.2

theorem yields_inSource {m n : Check Term} (span : Span) (hm : Sound D m) (hn : Sound D n) :
    Yields D s (inSource m n span) (Term.Checked D s) := by
  have hk := composed_value hn.composed
  refine (yields_value hD hs hm).bind (composed_value hm.composed)
    (fun e => hk.bind fun x => ?_) fun e he => ?_
  · split
    · split
      · exact Built.pure _
      · exact Built.failing _ _ rfl
    · exact Built.failing _ _ rfl
  · refine (yields_value hD hs hn).settle hk fun x => ?_
    split
    · rename_i t ht
      split
      · rename_i ha
        refine settled_pure fun hx => checked ?_ rfl
        have hta := (hx.1.1.admits hD hs).element ht
        exact .inSequence (he.1.1.convertTo hD hs he.2 hta ha)
          (Term.Typed.value_convertTo hD he.2 ha) hx.1.1 hx.2 ht (e.type_convertTo_beq t)
      · exact settled_fail _ _
    · exact settled_fail _ _

/-! ### Records, arrays and conversions -/

omit hD hs in
/-- Terms have the types of the properties that they were requested for. -/
theorem haveTypes_of_same : ∀ (names : List Name) (es : List Term) (ps : Properties),
    names.length = es.length →
    Properties.same (List.zipWith (fun n e => (n.text, e.type)) names es) ps = true →
    Term.HaveTypes es (ps.map (·.2))
  | [], [], ps, _, h => by
    cases ps with
    | nil => exact .nil
    | cons p ps => simp [Properties.same] at h
  | n :: names, e :: es, ps, hl, h => by
    cases ps with
    | nil => simp [Properties.same] at h
    | cons p ps =>
      simp only [List.zipWith_cons_cons, Properties.same, Bool.and_eq_true] at h
      exact .cons h.1.2 (haveTypes_of_same names es ps (by simpa using hl) h.2)

/-- A null among the values of a record is one of `Object`. -/
theorem typed_unlessNull {e : Term} (h : Term.Typed D s e) (hv : D.value e.type) :
    Term.Typed D s (if e.type.isNull then e.convertTo .object else e) ∧
      D.value (if e.type.isNull then e.convertTo .object else e).type := by
  split
  · rename_i hn
    have ha : e.isAssignable .object = true := by
      refine Term.isAssignable_of_converts ?_
      cases ht : e.type <;> simp_all [Ty.isNull]
      exact Ty.null_converts rfl
    exact ⟨h.convertTo hD hs hv (hD.admits_prim _) ha, Term.Typed.value_convertTo hD hv ha⟩
  · exact ⟨h, hv⟩

theorem yields_newRecord {names : List Name} (span : Span) (hl : names.length = ms.length)
    (hms : ∀ m ∈ ms, Sound D m) :
    Yields D s (newRecord names ms span) (Term.Checked D s) := by
  refine (yields_values hD hs hms).bind (composed_values fun m hm => (hms m hm).composed)
    (fun es => (Built.request _ _ fun _ _ => trivial).bind fun r => Built.pure _) fun es hes => ?_
  dsimp only
  have hes' : ∀ a ∈ es.map fun e => if e.type.isNull then e.convertTo .object else e,
      Term.Typed D s a ∧ D.value a.type := fun a ha => by
    obtain ⟨e, he, rfl⟩ := List.mem_map.mp ha
    obtain ⟨h, hv⟩ := hes.2 e he
    exact typed_unlessNull hD hs h hv
  have hl' : names.length = (es.map fun e =>
      if e.type.isNull then e.convertTo .object else e).length := by simp [hl, hes.1]
  generalize (es.map fun e => if e.type.isNull then e.convertTo .object else e) = es' at hes' hl'
  have hps : ∀ p ∈ List.zipWith (fun n e => (n.text, e.type)) names es',
      D.Admits p.2 ∧ D.value p.2 := fun p hp => by
    rw [← List.map_uncurry_zip_eq_zipWith] at hp
    obtain ⟨⟨n, e⟩, he, rfl⟩ := List.mem_map.mp hp
    obtain ⟨h, hv⟩ := hes' e (List.of_mem_zip he).2
    exact ⟨h.admits hD hs, hv⟩
  refine (yields_request hps).settle (Built.request _ _ fun _ _ => trivial) fun r =>
    settled_pure fun hr => ?_
  refine checked (.newRecord (fun a ha => (hes' a ha).1) (fun a ha => (hes' a ha).2) hr.2 ?_) rfl
  exact haveTypes_of_same names es' _ hl' hr.1

theorem settled_convertedAll {t : Ty} (ht : D.Admits t) : ∀ es : List Term,
    (∀ e ∈ es, Term.Typed D s e ∧ D.value e.type) →
    Settled s (convertedAll t es) fun es' =>
      ∀ e ∈ es', Term.Typed D s e ∧ (e.type == t) = true
  | [], _ => settled_pure (List.forall_mem_nil _)
  | e :: es, h => by
    obtain ⟨he, hv⟩ := h e List.mem_cons_self
    refine (settled_converted hD hs e ht).bind fun e' he' => ?_
    obtain ⟨h1, -, h3⟩ := he' he hv
    refine (settled_convertedAll ht es fun e he => h e (List.mem_cons_of_mem _ he)).bind
      fun es' hes' => settled_pure fun a ha => ?_
    rcases List.mem_cons.mp ha with rfl | ha
    · exact ⟨h1, h3⟩
    · exact hes' a ha

theorem yields_newArray (type : Option TypeName) (span : Span) (hms : ∀ m ∈ ms, Sound D m) :
    Yields D s (newArray type ms span) (Term.Checked D s) := by
  have hk (es : List Term) (t : Ty) :
      Composed (do return .newArray (← convertedAll t es) (.array t) span : Check Term) :=
    (composed_convertedAll t es).bind fun _ => Built.pure _
  refine (yields_values hD hs hms).bind (composed_values fun m hm => (hms m hm).composed) (fun es => ?_)
    fun es hes => ?_
  · split
    · exact (Built.pure _).bind (hk es)
    · exact (Built.failing _ _ rfl).bind (hk es)
    · exact (composed_ofExcept _).bind (hk es)
  refine Settled.yields ?_
  have elements {t : Ty} (ht : D.Admits t ∧ D.value t) :
      Settled s (do return .newArray (← convertedAll t es) (.array t) span : Check Term)
        (Term.Checked D s) := by
    refine (settled_convertedAll hD hs ht.1 es hes.2).bind fun es' hes' => ?_
    have h1 : ∀ e ∈ es', Term.Typed D s e := fun e he => (hes' e he).1
    have h2 : ∀ e ∈ es', (e.type == t) = true := fun e he => (hes' e he).2
    exact settled_pure (checked (.newArray h1 h2 ht.1 ht.2) rfl)
  split
  · exact (settled_pure ⟨hD.admits_prim _, hD.valued rfl⟩).bind fun t ht => elements ht
  · exact (settled_fail _ _).bind (Q := fun _ => False) fun _ h => h.elim
  · have hb : ∀ t, Ty.best es = .ok t → D.Admits t ∧ D.value t := fun t ht =>
      hD.admits_best (fun e he => ⟨(hes.2 e he).1.admits hD hs, (hes.2 e he).2⟩) ht
    exact (settled_ofExcept hb).bind fun t ht => elements ht

/-- A conversion that is allowed gives a term of the wanted type. -/
theorem checked_cast {e : Term} {p : Prim} (span : Span) (h : Term.Checked D s e)
    (hv : D.value e.type) (hc : e.isAssignable (.prim p) = true ∨ D.cast e.type (.prim p)) :
    Term.Checked D s ((e.convertTo (.prim p)).withSpan span) := by
  have ht : (e.convertTo (.prim p)).type = .prim p := Ty.beq_prim (e.type_convertTo_beq _)
  have hnull (hn : e.isNullConstant = true) : D.null (.prim p) := by
    have hnt := h.1.null_type hD hn
    rcases hc with ha | hc
    · have hcv := Term.Typed.isAssignable_null hn ha
      exact hD.convertsNull (h.1.admits hD hs) (hD.admits_prim p) hnt hcv
    · rcases h.2 hn with he | ⟨q, he⟩ <;> rw [he] at hc hnt
      · exact hD.castsNullType hc
      · exact hD.castsNull hnt hc
  refine ⟨Term.Typed.withSpan ?_ span, fun _ => .inr ⟨p, by rw [Term.type_withSpan, ht]⟩⟩
  unfold Term.convertTo
  split
  · exact h.1
  · rename_i hne
    split
    · rename_i hn
      exact .constant (hD.admits_prim p) (.inr ⟨rfl, hnull hn⟩)
    · exact .convert h.1 hv (hD.admits_prim p) (by simpa using hne) hc

theorem yields_conversion {allowed : Ty → Ty → Bool} (hcast : D.Grants allowed)
    (type : KnownType) (span : Span) (hms : ∀ m ∈ ms, Sound D m) :
    Yields D s (conversionWhere allowed type ms span) (Term.Checked D s) := by
  unfold conversionWhere
  split
  · rename_i p m
    have hm := hms m List.mem_cons_self
    have guarded : Yields D s (do
        let e ← m
        if allowed e.type (.prim p) then return e
        else fail (.noConversion e.type.display (Ty.prim p).display) span : Check Term)
        fun e => Term.Checked D s e ∧ allowed e.type (.prim p) = true := by
      refine (hm.yields s hs).settle hm.composed fun e => ?_
      split
      · exact settled_pure fun he => ⟨he, by assumption⟩
      · exact settled_fail _ _
    have hk : Composed (do
        let e ← m
        if allowed e.type (.prim p) then return e
        else fail (.noConversion e.type.display (Ty.prim p).display) span : Check Term) :=
      hm.composed.bind fun e => (Built.pure _).ite (Built.failing _ _ rfl)
    refine (yields_valueOf hD guarded hk).settle (composed_value hk) fun e => ?_
    split
    · rename_i hc
      rw [Bool.or_eq_true] at hc
      refine settled_pure fun he => checked_cast hD hs span he.1.1 he.2 ?_
      exact hc.symm.imp_right fun hc => hcast _ _ he.1.2 hc
    · exact settled_fail _ _
  · rename_i hne
    unfold conversion
    split
    · exact (settled_fail _ _).yields
    · exact (hne _ _ rfl rfl).elim
    · exact (settled_fail _ _).yields

end QueryExpr.Check
