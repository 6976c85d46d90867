/-
# Membership in a source as the aggregate `Contains`

A source that is a bare name or a chain of members is checked to the same wherever
that is done, and evaluated to the same without anything else happening. So it is all
the same that a membership comes to its operand first and the aggregate to its source
first: both are accepted for the same operands, and both look for the same value among
the same elements. They compare the other way round, which makes no difference where
equality is symmetric, as it is floating-point numbers apart.

Key definitions: `Scalar.DoublesSymmetric`, `Value.isExact`, `Expr.isPath`,
`Term.isPath`, `Eval.SourceAgreement`.
Key theorems: `Value.equals_comm`, `Check.settled_path`, `Check.inSource_ok_iff`,
`Check.contains_ok_iff`, `Eval.term_path`, `Eval.sourceAgreement_of_path`.
-/
import QueryExpr.Proofs.CheckedMemberships
import QueryExpr.Proofs.MixedKeys
import QueryExpr.Proofs.RepeatedEval
import QueryExpr.Proofs.RewrittenCheck

namespace QueryExpr

/-! ### Equality the other way round -/

namespace Scalar

/-- Doubles that are equal are equal the other way round. -/
def DoublesSymmetric : Prop :=
  ∀ x y : Float, compareDouble? x y = some .eq → compareDouble? y x = some .eq

variable {a b : Scalar}

theorem compare?_of_isFloating (h : ¬ (a.isFloating = false ∧ b.isFloating = false)) :
    a.compare? b = a.double?.bind fun x => b.double?.bind (compareDouble? x) := by
  cases a <;> cases b <;> first | rfl | exact absurd ⟨rfl, rfl⟩ h

theorem compare?_eq_comm (h : a.isFloating = false ∧ b.isFloating = false ∨ DoublesSymmetric) :
    (a.compare? b == some .eq) = (b.compare? a == some .eq) := by
  by_cases hf : a.isFloating = false ∧ b.isFloating = false
  · have hswap : b.compare? a = (a.compare? b).map Ordering.swap :=
      Value.compare?_swap (a := .scalar a) (b := .scalar b) hf.1 hf.2
    rw [hswap]
    rcases a.compare? b with _ | o
    · rfl
    · cases o <;> rfl
  · have hsymm := h.resolve_left hf
    rw [compare?_of_isFloating hf, compare?_of_isFloating fun hf' => hf hf'.symm]
    cases a.double? with
    | none => cases b.double? <;> rfl
    | some x =>
      cases b.double? with
      | none => rfl
      | some y =>
        rw [Bool.eq_iff_iff, beq_iff_eq, beq_iff_eq]
        exact ⟨hsymm x y, hsymm y x⟩

theorem equals_comm (h : a.isFloating = false ∧ b.isFloating = false ∨ DoublesSymmetric) :
    a.equals b = b.equals a := by
  have hcompare := compare?_eq_comm h
  cases a <;> cases b <;> first | exact hcompare | rfl | exact Bool.beq_comm

end Scalar

namespace Value

mutual
/-- Whether no floating-point number is in the value, or in the values of a record. -/
def isExact : Value → Bool
  | .scalar s => !s.isFloating
  | .record _ vs => allExact vs
  | _ => true
termination_by structural v => v

/-- Whether no floating-point number is in any of the values. -/
def allExact : List Value → Bool
  | [] => true
  | v :: vs => v.isExact && allExact vs
termination_by structural vs => vs
end

mutual
/-- **Equality is symmetric**, floating-point numbers apart. -/
theorem equals_comm : ∀ v w : Value,
    v.isExact = true ∧ w.isExact = true ∨ Scalar.DoublesSymmetric → v.equals w = w.equals v
  | .scalar a, w, h => by
    cases w with
    | scalar b => exact Scalar.equals_comm (h.imp_left fun h => by simpa [isExact] using h)
    | _ => rfl
  | .record t vs, w, h => by
    cases w with
    | record u ws =>
      rw [equals, equals, equalsAll_comm vs ws h, BEq.comm]
    | _ => rfl
  | .list i _, w, _ | .object i _, w, _ | .function i, w, _ => by
    cases w <;> first | rfl | exact BEq.comm

theorem equalsAll_comm : ∀ vs ws : List Value,
    allExact vs = true ∧ allExact ws = true ∨ Scalar.DoublesSymmetric →
      equalsAll vs ws = equalsAll ws vs
  | [], ws, _ => by cases ws <;> rfl
  | v :: vs, ws, h => by
    cases ws with
    | nil => rfl
    | cons w ws =>
      simp only [allExact, Bool.and_eq_true] at h
      rw [equalsAll, equalsAll, equals_comm v w (h.imp_left fun h => ⟨h.1.1, h.2.1⟩),
        equalsAll_comm vs ws (h.imp_left fun h => ⟨h.1.2, h.2.2⟩)]
end

end Value

/-! ### Paths -/

/-- Whether the expression is a bare name or a chain of members that starts with one. -/
def Expr.isPath : Expr → Bool
  | .name _ | .typeName _ => true
  | .member target _ _ => target.isPath
  | _ => false

/-- Whether the term is a value that has a name, a constant, or a member of such a term. -/
def Term.isPath : Term → Bool
  | .constant .. | .parameter .. => true
  | .member target .. => target.isPath
  | .intrinsic _ target [] .. => target.isPath
  | _ => false

theorem Ty.isVoid_of_element? {t u : Ty} (h : t.element? = some u) : t.isVoid = false := by
  cases t <;> first | rfl | cases h

namespace Check

variable {scopes : Scopes} {o : Options}

theorem settled_value {m : Check Term} {Q : Term → Prop} (h : Settled scopes m Q) :
    Settled scopes (value m) Q := by
  refine h.bind fun e he => ?_
  split
  · exact (settled_fail _ _).bind (Q := fun _ => True) fun _ _ => settled_pure he
  · exact settled_pure he

theorem settled_memberPath {target : Term} (h : target.isPath = true) (name : String)
    (span : Span) : Settled scopes (member target name span) (·.isPath = true) := by
  unfold member
  split
  · exact settled_pure h
  · split
    · exact settled_pure h
    · exact settled_fail _ _

theorem settled_implicitPath (o : Options) (span : Span) :
    Settled scopes (implicitTarget o span) fun it? => ∀ it, it? = some it → it.isPath = true := by
  unfold implicitTarget
  split
  · refine settled_scopes.bind fun _ _ => settled_pure fun it hit => ?_
    obtain ⟨sym, -, rfl⟩ := Option.map_eq_some_iff.mp hit
    rfl
  · exact settled_pure fun it hit => by cases hit

theorem settled_shadowingPath (o : Options) (name : String) (span : Span) :
    Settled scopes (shadowingTarget o name span) fun it? =>
      ∀ it, it? = some it → it.isPath = true :=
  (settled_implicitPath o span).bind fun _ hit => settled_pure fun it h =>
    hit it (Option.eq_some_of_filter_eq_some h)

theorem settled_namedPath (o : Options) (n : Name) :
    Settled scopes (named o n) (·.isPath = true) := by
  refine settled_scopes.bind fun _ _ => ?_
  split
  · exact (settled_ofExcept (Q := fun _ => True) fun _ _ => trivial).bind fun _ _ =>
      settled_pure rfl
  · split
    · split
      · exact settled_pure rfl
      · exact settled_pure rfl
    · refine (settled_implicitPath o n.span).bind fun it? hit => ?_
      split
      · exact settled_memberPath (hit _ rfl) _ _
      · exact settled_fail _ _

theorem settled_ofTargetPath {target : Expr} {ask : Term → Check Term}
    {askType : KnownType → Check Term} (ht : Settled scopes (expr o target) (·.isPath = true))
    (hask : ∀ t, t.isPath = true → Settled scopes (ask t) (·.isPath = true))
    (htype : ∀ type, Settled scopes (askType type) (·.isPath = true)) :
    Settled scopes (ofTarget o target ask askType) (·.isPath = true) := by
  unfold ofTarget
  split
  · refine (settled_shadowingPath o _ _).bind fun it? hit => ?_
    split
    · exact (settled_memberPath (hit _ rfl) _ _).bind hask
    · exact htype _
  · exact (settled_value ht).bind hask

/-- **Checking a path leaves the context as it is**, and yields a path. -/
theorem settled_path (o : Options) : ∀ e : Expr, e.isPath = true →
    Settled scopes (expr o e) (·.isPath = true)
  | .name n, _ => settled_namedPath o n
  | .typeName type, _ => by
    refine (settled_shadowingPath o _ _).bind fun it? hit => ?_
    split
    · exact settled_memberPath (hit _ rfl) _ _
    · exact settled_fail _ _
  | .member target n span, h => by
    rw [expr_member]
    refine settled_ofTargetPath (settled_path o target h)
      (fun t ht => settled_memberPath ht n.text span) fun type => ?_
    unfold staticConstant
    split
    · exact settled_pure rfl
    · exact settled_fail _ _

/-! ### Membership in a path -/

section
variable {s x : Expr} {k k₁ k' : Context} {source b : Term} {t : Ty} {sp sp' : Span}

theorem path_leaves (hp : s.isPath = true) (hs : expr o s k = (.ok source, k₁)) :
    k₁ = k ∧ source.isPath = true := by
  obtain ⟨hleft, hpath⟩ := settled_path o s hp k rfl
  rw [hs] at hleft hpath
  exact ⟨hleft, hpath source rfl⟩

variable (hp : s.isPath = true) (hs : expr o s k = (.ok source, k₁))
  (ht : source.type.element? = some t)
include hp hs ht

/-- **When a membership in a path is accepted**, and what it is then. -/
theorem inSource_ok_iff : expr o (.inSource x s sp) k = (.ok b, k') ↔
    ∃ a, value (expr o x) k = (.ok a, k') ∧ a.isAssignable t = true ∧
      b = .inSequence (a.convertTo t) source .boolean sp := by
  obtain ⟨rfl, -⟩ := path_leaves hp hs
  have hvalue := value_of_ok hs (Ty.isVoid_of_element? ht)
  -- the source comes to the same behind the operand
  have hagain {a : Term} {d : Context} (ha : value (expr o x) k₁ = (.ok a, d)) :
      value (expr o s) d = (.ok source, d) := by
    have hkept := (composed_value (composed_expr o x)).keeps k₁
    rw [ha] at hkept
    exact value_again (composed_expr o s) hvalue hkept.1 hkept.2
  show inSource (expr o x) (expr o s) sp k₁ = _ ↔ _
  rw [inSource, Step.bind_ok_iff]
  constructor
  · rintro ⟨a, d, ha, hrest⟩
    obtain ⟨source', d', hs', hrest⟩ := Step.bind_ok_iff.mp hrest
    cases (hagain ha).symm.trans hs'
    rw [ht] at hrest
    dsimp only at hrest
    split at hrest <;> cases hrest
    exact ⟨a, ha, by assumption, rfl⟩
  · rintro ⟨a, ha, hassignable, rfl⟩
    refine ⟨a, k', ha, Step.bind_ok_iff.mpr ⟨source, k', hagain ha, ?_⟩⟩
    rw [ht]
    dsimp only
    rw [if_pos hassignable]
    rfl

/-- **When the aggregate `Contains` of a path is accepted**, and what it is then. -/
theorem contains_ok_iff : expr o (.callOn s ⟨"Contains", sp⟩ [x] sp') k = (.ok b, k') ↔
    ∃ a, value (expr o x) k = (.ok a, k') ∧ a.isAssignable t = true ∧
      b = .aggregateWith .contains source (a.convertTo t) .boolean sp' := by
  obtain ⟨rfl, -⟩ := path_leaves hp hs
  rw [expr_callOn, ofTarget_of_ok hs (.inl (Ty.isVoid_of_element? ht))]
  have hmethod : method source "Contains" (exprs o [x]) sp' =
      aggregate source t .contains [expr o x] sp' := by
    unfold method
    rw [ht]
    rfl
  show method source "Contains" (exprs o [x]) sp' k₁ = _ ↔ _
  rw [hmethod]
  constructor
  · intro h
    obtain ⟨a, d, ha, hrest⟩ := Step.bind_ok_iff.mp h
    obtain ⟨e, d', hconverted, hpure⟩ := Step.bind_ok_iff.mp hrest
    unfold converted Term.coerce? at hconverted
    by_cases hassignable : a.isAssignable t = true
    · rw [if_pos hassignable] at hconverted
      cases hconverted
      cases hpure
      exact ⟨a, ha, hassignable, rfl⟩
    · rw [if_neg hassignable] at hconverted
      cases hconverted
  · rintro ⟨a, ha, hassignable, rfl⟩
    refine Step.bind_ok_iff.mpr ⟨a, k', ha, Step.bind_ok_iff.mpr ⟨a.convertTo t, k', ?_, rfl⟩⟩
    unfold converted Term.coerce?
    rw [if_pos hassignable]
    rfl
end

end Check

/-! ### Evaluation -/

namespace Eval

variable {source a : Term} {sp sp' : Span}

/-- **Evaluating a path does nothing else**: what it comes to depends on the environment
alone. -/
theorem term_path (host : Host) (env : Environment) : ∀ e : Term, e.isPath = true →
    ∃ r, ∀ c, c.environment = env → term host e c = (r, c)
  | .constant s _ _, _ => ⟨.ok (.scalar s), fun _ _ => rfl⟩
  | .parameter name _ _, _ => by
    refine ⟨(env.lookup name).elim (.error (.unboundParameter name)) .ok, fun c hc => ?_⟩
    show lookup name c = _
    rw [lookup_apply, hc]
    cases env.lookup name <;> rfl
  | .member target name _ _, h => by
    obtain ⟨r, hr⟩ := term_path host env target h
    refine ⟨r.bind (·.member host name), fun c hc => ?_⟩
    rw [term, Step.bind_apply, hr c hc]
    cases r with
    | error => rfl
    | ok v =>
      show ofExcept (v.member host name) c = (v.member host name, c)
      cases v.member host name <;> rfl
  | .intrinsic op target [] _ _, h => by
    obtain ⟨r, hr⟩ := term_path host env target h
    refine ⟨r.bind (op.apply · []), fun c hc => ?_⟩
    rw [term, Step.bind_apply, hr c hc]
    cases r with
    | error => rfl
    | ok v =>
      show ofExcept (op.apply v []) c = (op.apply v [], c)
      cases op.apply v [] <;> rfl

/-- Wherever the source has elements without floating-point numbers, the two terms come
to whether the item is among them, or fail as the item does. -/
def SourceAgreement (source item b b' : Term) : Prop :=
  ∀ (host : Host) (c d : EvalContext) (w : Value) (items : List Value)
    (u : Except EvalError Value), (term host source c).1 = .ok w → w.elements host = .ok items →
      term host item c = (u, d) → (∀ i ∈ items, i.isExact = true) →
      (∀ v, u = .ok v → v.isExact = true ∨ Scalar.DoublesSymmetric) →
      term host b c = (u.map fun v => .boolean (items.any v.equals), d) ∧
        term host b' c = (u.map fun v => .boolean (items.any v.equals), d)

/-- **A membership in a path agrees with the aggregate.** -/
theorem sourceAgreement_of_path (hpath : source.isPath = true) :
    SourceAgreement source a (.inSequence a source .boolean sp)
      (.aggregateWith .contains source a .boolean sp') := by
  intro host c d w items u hw hitems hu hexact hexact'
  obtain ⟨r, hr⟩ := term_path host c.environment source hpath
  obtain rfl : .ok w = r := hw.symm.trans (congrArg Prod.fst (hr c rfl))
  constructor
  · rw [term, Step.bind_apply, hu]
    cases u with
    | error => rfl
    | ok v =>
      dsimp only
      rw [Step.bind_apply, hr d (environment_of_ok hu)]
      dsimp only
      rw [hitems]
      rfl
  · rw [term, Step.bind_apply, hr c rfl]
    dsimp only
    rw [hitems]
    show (term host a >>= _) c = _
    rw [Step.bind_apply, hu]
    cases u with
    | error => rfl
    | ok v =>
      have hcomm : items.any (·.equals v) = items.any v.equals := by
        rw [Bool.eq_iff_iff, List.any_eq_true, List.any_eq_true]
        refine exists_congr fun i => and_congr_right fun hi => ?_
        rw [Value.equals_comm i v ((hexact' v rfl).imp_left fun hv => ⟨hexact i hi, hv⟩)]
      show (Except.ok (Value.boolean (items.any (·.equals v))), d) = _
      rw [hcomm]
      rfl

end Eval

end QueryExpr
