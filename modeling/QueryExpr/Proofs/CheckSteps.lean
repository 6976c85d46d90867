/-
# What a check leaves behind

A check is a step from one context to the next. Whatever it is asked to
check, and whether or not it fails, it leaves the scopes as they were and the
record types that were there, and adds at most some that it has requested
(`Keeps`). That is so because every routine of the checker is put together
from a few steps (`Built`, `Composed`). Of those, requests alone find faults in
signatures.

Key definitions: `Cause.ofSignature`, `Check.Permits`, `Check.Built`, `Check.Composed`,
`Check.Keeps`.
Key theorems: `Check.Built.keeps`, `Check.Built.failed`, `Check.composed_exprWhere`,
`Check.expr_of_check`, `Expr.check_grows`.
-/
import QueryExpr.Proofs.AggregateForms
import QueryExpr.Proofs.AllowedConversions
import QueryExpr.Proofs.RecordGrowth
import QueryExpr.Proofs.Steps

namespace QueryExpr

/-- Whether the cause is a fault of a signature. -/
def Cause.ofSignature : Cause → Bool
  | .propertyName _ | .duplicateProperty _ => true
  | _ => false

namespace Check

variable {α β : Type}

/-! ### Steps -/

theorem ofExcept_apply (x : Except Failure α) (c : Context) : ofExcept x c = (x, c) := by
  cases x <;> rfl

/-- The property holds of every cause but, maybe, the faults of signatures. -/
class Permits (P : Cause → Prop) : Prop where
  holds : ∀ cause, cause.ofSignature = false → P cause

instance : Permits fun _ => True := ⟨fun _ _ => trivial⟩

/-- The check is put together from steps that see no more of the context than
the scopes, and change no more of it than a request does. What it fails for, and
what may be at fault in the signatures it requests, has the property. -/
inductive Built (P : Cause → Prop) : {α : Type} → Check α → Prop
  | pure {α : Type} (x : α) : Built P (pure x : Check α)
  | fail {α : Type} (cause : Cause) (span : Span) : P cause → Built P (fail cause span : Check α)
  | scopes : Built P scopes
  | request (ps : Properties) (span : Span) :
      (∀ cause, ps.fault = some cause → P cause) → Built P (request ps span)
  | withElement {α : Type} {m : Check α} (type : Ty) : Built P m → Built P (withElement type m)
  | bind {α β : Type} {m : Check α} {f : α → Check β} :
      Built P m → (∀ x, Built P (f x)) → Built P (m >>= f)

/-- The check is put together from such steps, whatever it fails for. -/
abbrev Composed (m : Check α) : Prop := Built (fun _ => True) m

variable {P : Cause → Prop} [Permits P]

theorem Built.failing (cause : Cause) (span : Span)
    (h : cause.ofSignature = false) : Built P (Check.fail cause span : Check α) :=
  .fail cause span (Permits.holds cause h)

theorem built_ofExcept {x : Except Failure α}
    (h : ∀ f, x = .error f → f.cause.ofSignature = false) : Built P (ofExcept x) := by
  cases x with
  | ok x => exact .pure x
  | error f => exact .failing f.cause f.span (h f rfl)

theorem composed_ofExcept (x : Except Failure α) : Composed (ofExcept x) := by
  cases x with
  | ok x => exact .pure x
  | error f => exact .fail f.cause f.span trivial

omit [Permits P] in
theorem Built.ite {p : Prop} [Decidable p] {m m' : Check α} (h : Built P m) (h' : Built P m') :
    Built P (if p then m else m') := by
  split
  · exact h
  · exact h'

/-- It makes no difference if the step before may fail. -/
theorem Built.guarded {p : Prop} [Decidable p] {m : Check α} (cause : Cause) (span : Span)
    (hcause : cause.ofSignature = false) (h : Built P m) :
    Built P (if p then Check.fail cause span >>= fun _ : PUnit => m else m) :=
  .ite ((Built.failing cause span hcause).bind fun _ => h) h

theorem value_of_ok {m : Check Term} {e : Term} {c d : Context} (h : m c = (.ok e, d))
    (hv : e.type.isVoid = false) : value m c = (.ok e, d) := by
  unfold value
  rw [Step.bind_apply, h]
  dsimp only
  rw [hv]
  rfl

theorem value_of_error {m : Check Term} {f : Failure} {c d : Context} (h : m c = (.error f, d)) :
    value m c = (.error f, d) := by
  rw [value, Step.bind_apply, h]

theorem composed_value {m : Check Term} (h : Built P m) : Built P (value m) :=
  h.bind fun e => (Built.pure e).guarded _ _ rfl

/-! ### What is kept -/

/-- The check leaves the scopes as they are, and the cache grows. -/
def Keeps (m : Check α) : Prop :=
  ∀ c, (m c).2.scopes = c.scopes ∧ c.records.Grows (m c).2.records

theorem request_apply (ps : Properties) (span : Span) (c : Context) :
    request ps span c = (((c.records.request ps).1.mapError fun cause => ⟨cause, span⟩),
      { c with records := (c.records.request ps).2 }) := by
  unfold request
  split <;> rename_i h <;> rw [h] <;> rfl

theorem withElement_apply (type : Ty) (m : Check α) (c : Context) :
    withElement type m c = ((m { c with scopes := c.scopes.push type }).1,
      { (m { c with scopes := c.scopes.push type }).2 with
        scopes := (m { c with scopes := c.scopes.push type }).2.scopes.pop }) := rfl

omit [Permits P] in
/-- **A check that is put together from such steps keeps the scopes, and loses
no record type.** -/
theorem Built.keeps {m : Check α} (h : Built P m) : Keeps m := by
  induction h with
  | pure | fail | scopes => exact fun _ => ⟨rfl, .refl⟩
  | request ps span =>
    intro c
    rw [request_apply]
    exact ⟨rfl, .request ps .refl⟩
  | withElement type _ ih =>
    intro c
    obtain ⟨h1, h2⟩ := ih { c with scopes := c.scopes.push type }
    rw [withElement_apply]
    refine ⟨?_, h2⟩
    dsimp only
    rw [h1, Scopes.pop_push]
  | @bind _ _ m f _ _ ihm ihf =>
    intro c
    have h1 := ihm c
    rw [Step.bind_apply]
    rcases hd : m c with ⟨e | x, d⟩ <;> rw [hd] at h1
    · exact h1
    · have h2 := ihf x d
      exact ⟨h2.1.trans h1.1, h1.2.trans h2.2⟩

omit [Permits P] in
/-- **A check that is put together from such steps fails for nothing else.** -/
theorem Built.failed {m : Check α} (h : Built P m) :
    ∀ {c d : Context} {f : Failure}, m c = (.error f, d) → P f.cause := by
  induction h with
  | pure | scopes => exact fun h => by cases h
  | fail cause span hP =>
    intro c d f h
    cases h
    exact hP
  | request ps span hps =>
    intro c d f h
    rw [request_apply] at h
    obtain ⟨r, -, hr⟩ | ⟨cause, -, hfault, hr⟩ | ⟨-, -, hr⟩ := c.records.request_outcomes ps
    all_goals
      rw [hr] at h
      cases h
    exact hps cause hfault
  | withElement type _ ih =>
    intro c d f h
    rw [withElement_apply] at h
    exact ih (Prod.ext (Prod.mk.inj h).1 rfl)
  | @bind _ _ m k _ _ ihm ihk =>
    intro c d f h
    rw [Step.bind_apply] at h
    rcases hm : m c with ⟨e | x, c'⟩ <;> rw [hm] at h
    · cases h
      exact ihm hm
    · exact ihk x h

/-! ### Routines -/

theorem composed_values {ms : List (Check Term)} (h : ∀ m ∈ ms, Built P m) :
    Built P (values ms) := by
  induction ms with
  | nil => exact .pure _
  | cons m ms ih =>
    refine (composed_value (h m List.mem_cons_self)).bind fun e => ?_
    exact (ih fun m hm => h m (List.mem_cons_of_mem _ hm)).bind fun es => .pure _

theorem composed_converted (e : Term) (t : Ty) : Built P (converted e t) := by
  unfold converted
  split
  · exact .pure _
  · exact .failing _ _ rfl

theorem composed_body {m : Check Term} (element : Ty) (h : Built P m) :
    Built P (body element m) :=
  Built.withElement element (composed_value h)

theorem composed_predicate {m : Check Term} (element : Ty) (h : Built P m) :
    Built P (predicate element m) :=
  (composed_body element h).bind fun e => (Built.pure e).guarded _ _ rfl

theorem composed_aggregate (source : Term) (element : Ty) (op : Aggregate) {ms : List (Check Term)}
    (span : Span) (h : ∀ m ∈ ms, Built P m) : Built P (aggregate source element op ms span) := by
  match ms, h with
  | [], _ =>
    rw [aggregate_nil]
    split
    · exact .pure _
    · exact .failing _ _ rfl
  | [m], h =>
    have hm := h m List.mem_cons_self
    rw [aggregate_one]
    split
    · exact (composed_predicate _ hm).bind fun e => .pure _
    · exact (composed_value hm).bind fun e => (composed_converted e _).bind fun e => .pure _
    · refine (composed_body _ hm).bind fun e => ?_
      split
      · exact .pure _
      · exact .failing _ _ rfl
  | m :: n :: ms, _ =>
    rw [aggregate_more]
    exact .failing _ _ rfl

theorem composed_member (target : Term) (name : String) (span : Span) :
    Built P (member target name span) := by
  unfold member
  split
  · exact .pure _
  · split
    · exact .pure _
    · exact .failing _ _ rfl

theorem composed_choose (candidates : List α) (parameters : α → List Ty) (arguments : List Term)
    (name owner : String) (span : Span) :
    Built P (choose candidates parameters arguments name owner span) := by
  unfold choose
  split
  · split
    · exact .pure _
    · exact .failing _ _ rfl
  · exact .failing _ _ rfl
  · exact .failing _ _ rfl

theorem composed_index (target : Term) {ms : List (Check Term)} (span : Span)
    (h : ∀ m ∈ ms, Built P m) : Built P (index target ms span) := by
  refine (composed_values h).bind fun es => ?_
  dsimp only
  split
  · split
    · exact .pure _
    · exact .failing _ _ rfl
  · exact .failing _ _ rfl
  · exact .failing _ _ rfl

theorem composed_method (target : Term) (name : String) {ms : List (Check Term)} (span : Span)
    (h : ∀ m ∈ ms, Built P m) : Built P (method target name ms span) := by
  unfold method
  split
  · exact composed_aggregate _ _ _ span h
  · refine (composed_values h).bind fun es => ?_
    dsimp only
    split
    · exact (composed_choose _ _ _ _ _ _).bind fun b => .pure _
    · exact (composed_choose _ _ _ _ _ _).bind fun m => .pure _

theorem composed_invokeArguments : ∀ (ms : List (Check Term)) (ts : List Ty),
    (∀ m ∈ ms, Built P m) → Built P (invokeArguments ms ts)
  | [], _, _ => .pure _
  | _ :: _, [], _ => .pure _
  | m :: ms, t :: ts, h => by
    refine (composed_value (h m List.mem_cons_self)).bind fun x => ?_
    refine (composed_converted x t).bind fun e => ?_
    refine (composed_invokeArguments ms ts fun m hm => ?_).bind fun es => .pure _
    exact h m (List.mem_cons_of_mem _ hm)

theorem composed_invoke (delegate : Term) (name : String) {ms : List (Check Term)} (span : Span)
    (h : ∀ m ∈ ms, Built P m) : Built P (invoke delegate name ms span) := by
  unfold invoke
  split
  · rename_i types returns _
    exact ((composed_invokeArguments ms types h).bind fun es => .pure _).guarded _ _ rfl
  · exact .failing _ _ rfl

theorem composed_function (owner : KnownType) (name : Name) {ms : List (Check Term)} (span : Span)
    (h : ∀ m ∈ ms, Built P m) : Built P (function owner name ms span) :=
  ((composed_values h).bind fun _ =>
    (composed_choose _ _ _ _ _ _).bind fun _ => .pure _).guarded _ _ rfl

theorem composed_staticConstant (owner : KnownType) (name : Name) (span : Span) :
    Built P (staticConstant owner name span) := by
  unfold staticConstant
  split
  · exact .pure _
  · exact .failing _ _ rfl

theorem composed_literal (v : Literal) (written : String) (span : Span) :
    Built P (literal v written span) := by
  unfold literal
  split
  · split
    · exact .pure _
    · exact .failing _ _ rfl
  · split
    · exact .pure _
    · exact .failing _ _ rfl
  all_goals exact .pure _

theorem composed_unary (op : UnaryOp) (e : Term) (span : Span) : Built P (unary op e span) := by
  unfold unary
  dsimp only
  split
  · exact .pure _
  · exact .failing _ _ rfl

theorem composed_coalesce (l r : Term) (span : Span) : Built P (coalesce l r span) := by
  unfold coalesce
  repeat' split
  all_goals first | exact .pure _ | exact .failing _ _ rfl

theorem composed_binary (o : Options) (op : BinaryOp) (l r : Term) (span : Span) :
    Built P (binary o op l r span) := by
  unfold binary
  split
  · exact composed_coalesce l r span
  · split
    · exact .pure _
    · split
      · exact .pure _
      · exact .failing _ _ rfl

theorem composed_conditional {c a b : Check Term} (span : Span) (hc : Built P c) (ha : Built P a)
    (hb : Built P b) : Built P (conditional c a b span) := by
  refine (composed_value hc).bind fun c => Built.guarded _ _ rfl ?_
  refine (composed_value ha).bind fun a => (composed_value hb).bind fun b => ?_
  split
  · exact .pure _
  · exact .failing _ _ rfl

theorem composed_candidates (operand : Term) (span : Span) : ∀ (t : Ty) (ms : List (Check Term)),
    (∀ m ∈ ms, Built P m) → Built P (candidates operand span t ms)
  | _, [], _ => .pure _
  | t, m :: ms, h => by
    refine (composed_value (h m List.mem_cons_self)).bind fun e => ?_
    split
    · rename_i u _
      refine (composed_candidates operand span u ms fun m hm => ?_).bind fun _ => .pure _
      exact h m (List.mem_cons_of_mem _ hm)
    · exact .failing _ _ rfl

theorem composed_inList {m : Check Term} {ms : List (Check Term)} (span : Span) (h : Built P m)
    (hs : ∀ m ∈ ms, Built P m) : Built P (inList m ms span) :=
  (composed_value h).bind fun e => (composed_candidates e span _ _ hs).bind fun _ => .pure _

theorem composed_inSource {m n : Check Term} (span : Span) (hm : Built P m) (hn : Built P n) :
    Built P (inSource m n span) := by
  refine (composed_value hm).bind fun e => (composed_value hn).bind fun s => ?_
  split
  · split
    · exact .pure _
    · exact .failing _ _ rfl
  · exact .failing _ _ rfl

/-- A projection fails for no more than its values and its names may be at fault for. -/
theorem built_newRecord {names : List Name} {ms : List (Check Term)} (span : Span)
    (hnames : ∀ ps : Properties, (∀ p ∈ ps, ∃ n ∈ names, p.1 = n.text) →
      ∀ cause, ps.fault = some cause → P cause)
    (h : ∀ m ∈ ms, Built P m) : Built P (newRecord names ms span) := by
  refine (composed_values h).bind fun es => Built.bind (.request _ _ (hnames _ fun p hp => ?_))
    fun _ => .pure _
  obtain ⟨i, hi, rfl⟩ := List.getElem_of_mem hp
  rw [List.getElem_zipWith]
  exact ⟨_, List.getElem_mem _, rfl⟩

theorem composed_newRecord (names : List Name) {ms : List (Check Term)} (span : Span)
    (h : ∀ m ∈ ms, Composed m) : Composed (newRecord names ms span) :=
  built_newRecord span (fun _ _ _ _ => trivial) h

theorem composed_convertedAll (t : Ty) : ∀ es : List Term, Built P (convertedAll t es)
  | [] => .pure _
  | e :: es =>
    (composed_converted e t).bind fun _ => (composed_convertedAll t es).bind fun _ => .pure _

theorem ofSignature_of_best (es : List Term) {f : Failure} (h : Ty.best es = .error f) :
    f.cause.ofSignature = false := by
  have fold : ∀ (t : Ty) (es : List Term), Ty.bestOf t es = .error f →
      f.cause.ofSignature = false := by
    intro t es
    induction es generalizing t with
    | nil => exact fun h => by cases h
    | cons e es ih =>
      intro h
      rw [Ty.bestOf] at h
      split at h
      · exact ih _ h
      · cases h
        rfl
  cases es with
  | nil => cases h
  | cons e es =>
    rw [Ty.best] at h
    split at h
    · cases h
    · rename_i hf
      cases h
      exact fold e.type es hf

theorem composed_newArray (type : Option TypeName) {ms : List (Check Term)} (span : Span)
    (h : ∀ m ∈ ms, Built P m) : Built P (newArray type ms span) := by
  refine (composed_values h).bind fun es => ?_
  have rest (t : Ty) :
      Built P (do return .newArray (← convertedAll t es) (.array t) span : Check Term) :=
    (composed_convertedAll t es).bind fun _ => .pure _
  split
  · exact (Built.pure _).bind rest
  · exact (Built.failing _ _ rfl).bind rest
  · exact (built_ofExcept fun f hf => ofSignature_of_best es hf).bind rest

theorem composed_conversion (type : KnownType) {ms : List (Check Term)} (span : Span)
    (h : ∀ m ∈ ms, Built P m) : Built P (conversion type ms span) := by
  unfold conversion
  split
  · exact .failing _ _ rfl
  · refine (composed_value (h _ List.mem_cons_self)).bind fun e => ?_
    split
    · exact .pure _
    · exact .failing _ _ rfl
  · exact .failing _ _ rfl

theorem composed_conversionWhere (allowed : Ty → Ty → Bool) (type : KnownType)
    {ms : List (Check Term)} (span : Span) (h : ∀ m ∈ ms, Built P m) :
    Built P (conversionWhere allowed type ms span) := by
  unfold conversionWhere
  split
  · refine composed_conversion _ span fun m hm => ?_
    rw [List.mem_singleton.mp hm]
    refine (h _ List.mem_cons_self).bind fun e => ?_
    split
    · exact .pure _
    · exact .failing _ _ rfl
  · exact composed_conversion _ span h

/-! ### Names -/

omit [Permits P] in
theorem composed_implicitTarget (o : Options) (span : Span) : Built P (implicitTarget o span) := by
  unfold implicitTarget
  split
  · exact Built.scopes.bind fun s => .pure _
  · exact .pure _

omit [Permits P] in
theorem composed_shadowingTarget (o : Options) (name : String) (span : Span) :
    Built P (shadowingTarget o name span) :=
  (composed_implicitTarget o span).bind fun _ => .pure _

theorem composed_named (o : Options) (n : Name) : Built P (named o n) := by
  refine Built.scopes.bind fun s => ?_
  split
  · refine (built_ofExcept fun f hf => ?_).bind fun _ => .pure _
    unfold Scopes.resolveImplicit ParameterTable.resolveImplicit at hf
    split at hf <;> cases hf
    rfl
  · split
    · split <;> exact .pure _
    · refine (composed_implicitTarget o _).bind fun it => ?_
      split
      · exact composed_member _ _ _
      · exact .failing _ _ rfl

theorem composed_typeName (o : Options) (type : TypeName) : Built P (typeName o type) := by
  refine (composed_shadowingTarget o _ _).bind fun it => ?_
  split
  · exact composed_member _ _ _
  · exact .failing _ _ rfl

theorem composed_memberOfType (o : Options) (owner : TypeName) (n : Name) (span : Span) :
    Built P (memberOfType o owner n span) := by
  refine (composed_shadowingTarget o _ _).bind fun it => ?_
  split
  · exact (composed_member _ _ _).bind fun target => composed_member _ _ _
  · exact composed_staticConstant _ _ _

theorem composed_call (o : Options) (n : Name) {ms : List (Check Term)} (span : Span)
    (h : ∀ m ∈ ms, Built P m) : Built P (call o n ms span) := by
  unfold call
  split
  · split
    · exact composed_conditional span (h _ (by simp)) (h _ (by simp)) (h _ (by simp))
    · exact .failing _ _ rfl
  · refine Built.scopes.bind fun s => ?_
    split
    · exact composed_invoke _ _ span h
    · refine (composed_implicitTarget o _).bind fun it => ?_
      split
      · exact composed_method _ _ span h
      · exact .failing _ _ rfl

theorem composed_callOnType (o : Options) (owner : TypeName) (n : Name) {ms : List (Check Term)}
    (span : Span) (h : ∀ m ∈ ms, Built P m) : Built P (callOnType o owner n ms span) := by
  refine (composed_shadowingTarget o _ _).bind fun it => ?_
  split
  · exact (composed_member _ _ _).bind fun target => composed_method _ _ span h
  · exact composed_function _ _ span h

theorem composed_convertOrCallWhere (allowed : Ty → Ty → Bool) (o : Options) (type : TypeName)
    {ms : List (Check Term)} (span : Span) (h : ∀ m ∈ ms, Built P m) :
    Built P (convertOrCallWhere allowed o type ms span) := by
  refine (composed_shadowingTarget o _ _).bind fun it => ?_
  split
  · exact composed_method _ _ span h
  · exact composed_conversionWhere allowed _ span h

/-! ### Expressions -/

mutual
/-- **The check of every expression is put together** from the steps that a
context allows. -/
theorem composed_exprWhere (allowed : Ty → Ty → Bool) (o : Options) :
    ∀ e : Expr, Composed (exprWhere allowed o e)
  | .literal .. => composed_literal _ _ _
  | .name n => composed_named o n
  | .typeName type => composed_typeName o type
  | .member target n span => by
    have h := composed_exprWhere allowed o target
    rcases exprWhere_member allowed o target n span with ⟨owner, -, h'⟩ | h' <;> rw [h']
    · exact composed_memberOfType o owner n span
    · exact (composed_value h).bind fun e => composed_member e _ span
  | .index target arguments span =>
    (composed_value (composed_exprWhere allowed o target)).bind fun e =>
      composed_index e span (composed_exprsWhere allowed o arguments)
  | .call n arguments span => composed_call o n span (composed_exprsWhere allowed o arguments)
  | .callOn target n arguments span => by
    have h := composed_exprWhere allowed o target
    have hs := composed_exprsWhere allowed o arguments
    rcases exprWhere_callOn allowed o target n arguments span with ⟨owner, -, h'⟩ | h' <;> rw [h']
    · exact composed_callOnType o owner n span hs
    · exact (composed_value h).bind fun e => composed_method e _ span hs
  | .conversion type arguments span =>
    composed_convertOrCallWhere allowed o type span (composed_exprsWhere allowed o arguments)
  | .unary op operand span =>
    (composed_value (composed_exprWhere allowed o operand)).bind fun e => composed_unary op e span
  | .binary op left right span =>
    (composed_value (composed_exprWhere allowed o left)).bind fun l =>
      (composed_value (composed_exprWhere allowed o right)).bind fun r =>
        composed_binary o op l r span
  | .conditional c a b span =>
    composed_conditional span (composed_exprWhere allowed o c) (composed_exprWhere allowed o a)
      (composed_exprWhere allowed o b)
  | .inList operand items span =>
    composed_inList span (composed_exprWhere allowed o operand)
      (composed_exprsWhere allowed o items)
  | .inSource operand source span =>
    composed_inSource span (composed_exprWhere allowed o operand)
      (composed_exprWhere allowed o source)
  | .newRecord names items span =>
    composed_newRecord names span (composed_exprsWhere allowed o items)
  | .newArray type items span => composed_newArray type span (composed_exprsWhere allowed o items)

theorem composed_exprsWhere (allowed : Ty → Ty → Bool) (o : Options) :
    ∀ es : List Expr, ∀ m ∈ exprsWhere allowed o es, Composed m
  | [], m, h => by cases h
  | e :: es, m, h => by
    rcases List.mem_cons.mp h with rfl | h
    · exact composed_exprWhere allowed o e
    · exact composed_exprsWhere allowed o es m h
end

theorem composed_expr (o : Options) (e : Expr) : Composed (expr o e) := by
  rw [← exprWhere_all]
  exact composed_exprWhere allConversions o e

end Check

/-- What an expression is checked to over a table of parameters, in the context that the
check begins and ends with. -/
theorem Check.expr_of_check {o : Options} {e : Expr} {table : ParameterTable}
    {records records' : RecordCache} {body : Term}
    (h : e.check o table records = (.ok body, records')) :
    Check.expr o e ⟨records, .ofTable table⟩ = (.ok body, ⟨records', .ofTable table⟩) := by
  have hscopes := ((Check.composed_expr o e).keeps ⟨records, .ofTable table⟩).1
  obtain ⟨hbody, hrecords⟩ := Prod.mk.inj h
  have hcontext : (Check.expr o e ⟨records, .ofTable table⟩).2 = ⟨records', .ofTable table⟩ :=
    congr (congrArg Context.mk hrecords) hscopes
  exact Prod.ext hbody hcontext

/-- Checking an expression makes record types and loses none. -/
theorem Expr.check_grows (e : Expr) (o : Options) (table : ParameterTable)
    (records : RecordCache) : records.Grows (e.check o table records).2 :=
  ((Check.composed_expr o e).keeps ⟨records, .ofTable table⟩).2

end QueryExpr
