/-
# Lambdas that return nothing

A lambda that has to return nothing needs a body that is evaluated for its
effect. Whether it is one is judged on the checked body, in which a built-in
property has the shape of a built-in method and a conversion to the type that
its operand has leaves no trace. So it is not calls alone that are taken.

Key definitions: `Expr.isWrittenCall`, `Term.ReadsBuiltin`,
`Expr.PassesForCall`, `Target.WantsNothing`.
Key theorems: `Check.isCallShaped_of_written`, `Check.isCallShaped_iff`,
`Lambda.assemble_nothing`, `Lambda.compile_void`.
-/
import QueryExpr.Lambda.Compile
import QueryExpr.Proofs.RewrittenExpr

namespace QueryExpr

/-- The expression is a call as it is written: of a parameter, of a method or of
a function, with an argument list. The word `iif` calls nothing, and neither does
a conversion, unless `it` has a method or a member by the name of the type. -/
def Expr.isWrittenCall (o : Options) (s : Scopes) : Expr → Bool
  | .call n _ _ => n.text != "iif"
  | .callOn .. => true
  | .conversion type _ _ => (s.ownerOfType? o type.name.text).isSome
  | _ => false

/-- The term reads a built-in property of a value. -/
def Term.ReadsBuiltin (e : Term) : Prop :=
  ∃ op target name type span,
    e = .intrinsic op target [] type span ∧ Builtin.property? target.type name = some (op, type)

/-- The expression passes for a call: it is one, or it is checked to a read of a
built-in property, or it converts what passes for a call to the type that this
has already. -/
inductive Expr.PassesForCall (o : Options) (c : Context) : Expr → Prop
  | written {e : Expr} : e.isWrittenCall o c.scopes = true → PassesForCall o c e
  | property {e : Expr} {body : Term} {d : Context} :
      Check.expr o e c = (.ok body, d) → body.ReadsBuiltin → PassesForCall o c e
  | conversion {n : Name} {p : Prim} {argument : Expr} {span : Span} {operand : Term}
      {d : Context} :
      c.scopes.ownerOfType? o n.text = none → Check.expr o argument c = (.ok operand, d) →
      (operand.type == .prim p) = true → PassesForCall o c argument →
      PassesForCall o c (.conversion ⟨n, .prim p⟩ [argument] span)

namespace Term

/-- The term has the shape of a call only if it reads a built-in property. -/
def IsNoCall (e : Term) : Prop := e.isCallShaped = true → e.ReadsBuiltin

theorem isNoCall_of_eq_false {e : Term} (h : e.isCallShaped = false) : e.IsNoCall :=
  fun h' => absurd (h ▸ h') nofun

theorem isCallShaped_withSpan (e : Term) (span : Span) :
    (e.withSpan span).isCallShaped = e.isCallShaped := by
  cases e <;> rfl

/-- Only a term that has the type already is a call after it is converted. -/
theorem isCallShaped_convertTo (e : Term) (t : Ty) :
    (e.convertTo t).isCallShaped = ((e.type == t) && e.isCallShaped) := by
  unfold convertTo
  by_cases h : (e.type == t) = true
  · rw [if_pos h, h, Bool.true_and]
  · rw [if_neg h, Bool.eq_false_iff.mpr h, Bool.false_and]
    split <;> rfl

theorem ReadsBuiltin.isCallShaped {e : Term} (h : e.ReadsBuiltin) : e.isCallShaped = true := by
  obtain ⟨op, target, name, type, span, rfl, -⟩ := h
  rfl

end Term

namespace Check

variable {α : Type} {Q : Term → Prop}

/-! ### What a check yields -/

/-- Whatever the check yields has the property. -/
def Meets (Q : Term → Prop) (m : Check Term) : Prop := Step.Ensures (fun _ => True) m fun e _ => Q e

theorem meets_pure {e : Term} (h : Q e) : Meets Q (pure e) := Step.ensures_pure fun _ _ => h

theorem meets_fail (cause : Cause) (span : Span) : Meets Q (fail cause span) := Step.ensures_throw _

/-- Whatever has been done before. -/
theorem meets_after {m : Check α} {f : α → Check Term} (h : ∀ x, Meets Q (f x)) :
    Meets Q (m >>= f) :=
  Step.Ensures.bind (Q := fun _ _ => True) (fun _ _ _ _ _ => trivial) fun x _ _ => h x _ trivial

theorem meets_ite {p : Prop} [Decidable p] {m m' : Check Term} (h : Meets Q m) (h' : Meets Q m') :
    Meets Q (if p then m else m') := by
  split
  · exact h
  · exact h'

theorem meets_noCall {e : Term} (h : e.isCallShaped = false) : Meets Term.IsNoCall (pure e) :=
  meets_pure (Term.isNoCall_of_eq_false h)

/-! ### Calls -/

/-- The check yields nothing but calls. -/
def Calls (m : Check Term) : Prop := Meets (·.isCallShaped = true) m

theorem calls_aggregate (source : Term) (element : Ty) (op : Aggregate) (ms : List (Check Term))
    (span : Span) : Calls (aggregate source element op ms span) := by
  rcases aggregate_cases source element op ms span with
    ⟨cause, h⟩ | ⟨t, -, -, h⟩ | ⟨m, t, -, -, h⟩ | ⟨m, -, h⟩ | ⟨m, u, t, -, -, h⟩
  all_goals rw [h]
  · exact meets_fail _ _
  · exact meets_pure rfl
  · exact meets_after fun e => meets_pure rfl
  · refine meets_after fun e => ?_
    split
    · exact meets_pure rfl
    · exact meets_fail _ _
  · exact meets_after fun n => meets_after fun e => meets_pure rfl

theorem calls_method (target : Term) (name : String) (ms : List (Check Term)) (span : Span) :
    Calls (method target name ms span) := by
  unfold method
  split
  · exact calls_aggregate _ _ _ _ _
  · refine meets_after fun es => ?_
    dsimp only
    split
    · exact meets_after fun b => meets_pure rfl
    · exact meets_after fun m => meets_pure rfl

theorem calls_function (owner : KnownType) (name : Name) (ms : List (Check Term)) (span : Span) :
    Calls (function owner name ms span) := by
  have found : Calls (do
      let es ← values ms
      let b ← choose (Builtin.functions owner name.text) (·.parameters) es name.text owner.name span
      return .function b.op (convertArguments es b.parameters) b.returns span) :=
    meets_after fun es => meets_after fun b => meets_pure rfl
  exact meets_ite (meets_after fun _ => found) found

theorem calls_invoke (delegate : Term) (name : String) (ms : List (Check Term)) (span : Span) :
    Calls (invoke delegate name ms span) := by
  unfold invoke
  split
  · rename_i types returns _
    have called : Calls (do
        return .invoke delegate (← invokeArguments ms types) returns span) :=
      meets_after fun es => meets_pure rfl
    exact meets_ite (meets_after fun _ => called) called
  · exact meets_fail _ _

theorem calls_call (o : Options) (n : Name) (ms : List (Check Term)) (span : Span)
    (hn : (n.text != "iif") = true) : Calls (call o n ms span) := by
  unfold call
  rw [if_neg (by simpa using hn)]
  refine meets_after fun s => ?_
  split
  · exact calls_invoke _ _ _ _
  · refine meets_after fun it? => ?_
    split
    · exact calls_method _ _ _ _
    · exact meets_fail _ _

theorem calls_callOnType (o : Options) (owner : TypeName) (n : Name) (ms : List (Check Term))
    (span : Span) : Calls (callOnType o owner n ms span) := by
  refine meets_after fun it? => ?_
  split
  · exact meets_after fun target => calls_method _ _ _ _
  · exact calls_function _ _ _ _

/-- **What is written as a call is checked to one.** -/
theorem isCallShaped_of_written {o : Options} {e : Expr} {c d : Context} {body : Term}
    (hw : e.isWrittenCall o c.scopes = true) (h : expr o e c = (.ok body, d)) :
    body.isCallShaped = true := by
  cases e with
  | call n arguments span => exact calls_call o n _ span hw c trivial body d h
  | callOn target n arguments span =>
    cases target with
    | typeName owner => exact calls_callOnType o owner n _ span c trivial body d h
    | _ => exact meets_after (fun t => calls_method t n.text _ span) c trivial body d h
  | conversion type arguments span =>
    obtain ⟨it, hit⟩ := Option.isSome_iff_exists.mp hw
    have h : convertOrCall o type (exprs o arguments) span c = (.ok body, d) := h
    rw [convertOrCall_of_owner hit] at h
    exact calls_method _ _ _ _ c trivial body d h
  | _ => cases hw

/-! ### What is no call -/

theorem noCall_member (target : Term) (name : String) (span : Span) :
    Meets Term.IsNoCall (member target name span) := by
  unfold member
  split
  · exact meets_noCall rfl
  · split
    · rename_i op type hp
      exact meets_pure fun _ => ⟨op, target, name, type, span, rfl, hp⟩
    · exact meets_fail _ _

theorem noCall_literal (value : Literal) (written : String) (span : Span) :
    Meets Term.IsNoCall (literal value written span) := by
  unfold literal
  split
  case' h_1 | h_2 => split
  all_goals first
    | exact meets_noCall rfl
    | exact meets_fail _ _

theorem noCall_named (o : Options) (n : Name) : Meets Term.IsNoCall (named o n) := by
  refine meets_after fun s => ?_
  split
  · exact meets_after fun sym => meets_noCall rfl
  · split
    · split
      · exact meets_noCall rfl
      · exact meets_noCall rfl
    · refine meets_after fun it? => ?_
      split
      · exact noCall_member _ _ _
      · exact meets_fail _ _

theorem noCall_typeName (o : Options) (type : TypeName) :
    Meets Term.IsNoCall (typeName o type) := by
  refine meets_after fun it? => ?_
  split
  · exact noCall_member _ _ _
  · exact meets_fail _ _

theorem noCall_memberOfType (o : Options) (owner : TypeName) (n : Name) (span : Span) :
    Meets Term.IsNoCall (memberOfType o owner n span) := by
  refine meets_after fun it? => ?_
  split
  · exact meets_after fun target => noCall_member _ _ _
  · unfold staticConstant
    split
    · exact meets_noCall rfl
    · exact meets_fail _ _

theorem noCall_index (target : Term) (ms : List (Check Term)) (span : Span) :
    Meets Term.IsNoCall (index target ms span) := by
  refine meets_after fun es => ?_
  dsimp only
  split
  · split
    · exact meets_noCall rfl
    · exact meets_fail _ _
  · exact meets_fail _ _
  · exact meets_fail _ _

theorem noCall_unary (op : UnaryOp) (operand : Term) (span : Span) :
    Meets Term.IsNoCall (unary op operand span) := by
  unfold unary
  dsimp only
  split
  · exact meets_noCall rfl
  · exact meets_fail _ _

theorem noCall_binary (o : Options) (op : BinaryOp) (left right : Term) (span : Span) :
    Meets Term.IsNoCall (binary o op left right span) := by
  unfold binary
  split
  · unfold coalesce
    refine meets_ite (meets_noCall rfl) (meets_ite (meets_fail _ _) ?_)
    exact meets_ite (meets_noCall rfl) (meets_ite (meets_noCall rfl) (meets_fail _ _))
  · refine meets_ite (meets_noCall rfl) ?_
    split
    · exact meets_noCall rfl
    · exact meets_fail _ _

theorem noCall_conditional (condition whenTrue whenFalse : Check Term) (span : Span) :
    Meets Term.IsNoCall (conditional condition whenTrue whenFalse span) := by
  refine meets_after fun c => meets_ite (meets_after fun _ => ?_) ?_
  all_goals
    refine meets_after fun a => meets_after fun b => ?_
    split
    · exact meets_noCall rfl
    · exact meets_fail _ _

theorem noCall_inSource (operand source : Check Term) (span : Span) :
    Meets Term.IsNoCall (inSource operand source span) := by
  refine meets_after fun e => meets_after fun s => ?_
  split
  · exact meets_ite (meets_noCall rfl) (meets_fail _ _)
  · exact meets_fail _ _

theorem noCall_newArray (type : Option TypeName) (ms : List (Check Term)) (span : Span) :
    Meets Term.IsNoCall (newArray type ms span) := by
  refine meets_after fun es => ?_
  have elements (t : Ty) : Meets Term.IsNoCall (do
      return .newArray (← convertedAll t es) (.array t) span) :=
    meets_after fun es' => meets_noCall rfl
  split
  · exact meets_after elements
  · exact meets_after elements
  · exact meets_after elements

/-- What `iif` chooses is no call. -/
theorem noCall_iif (o : Options) (n : Name) (ms : List (Check Term)) (span : Span)
    (hn : (n.text != "iif") = false) : Meets Term.IsNoCall (call o n ms span) := by
  unfold call
  rw [if_pos (by simpa using hn)]
  split
  · exact noCall_conditional _ _ _ _
  · exact meets_fail _ _

/-- **Apart from conversions, what is not written as a call is checked to none**,
unless it is checked to a read of a built-in property. -/
theorem noCall_of_not_written {o : Options} {e : Expr} {c d : Context} {body : Term}
    (hw : e.isWrittenCall o c.scopes = false) (hc : ∀ type as span, e ≠ .conversion type as span)
    (h : expr o e c = (.ok body, d)) : body.IsNoCall := by
  have hcomes : Meets Term.IsNoCall (expr o e) := by
    cases e with
    | literal v written span => exact noCall_literal v written span
    | name n => exact noCall_named o n
    | typeName type => exact noCall_typeName o type
    | member target n span =>
      cases target with
      | typeName owner => exact noCall_memberOfType o owner n span
      | _ => exact meets_after fun t => noCall_member t n.text span
    | index target arguments span => exact meets_after fun t => noCall_index t _ span
    | call n arguments span => exact noCall_iif o n _ span hw
    | callOn => cases hw
    | conversion type as span => exact absurd rfl (hc type as span)
    | unary op operand span => exact meets_after fun x => noCall_unary op x span
    | binary op left right span =>
      exact meets_after fun l => meets_after fun r => noCall_binary o op l r span
    | conditional => exact noCall_conditional _ _ _ _
    | inList => exact meets_after fun x => meets_after fun y => meets_noCall rfl
    | inSource => exact noCall_inSource _ _ _
    | newRecord => exact meets_after fun es => meets_after fun r => meets_noCall rfl
    | newArray type items span => exact noCall_newArray type _ span
  exact hcomes c trivial body d h

/-- A conversion that calls nothing is a conversion of its operand. -/
theorem expr_conversion {o : Options} {type : TypeName} {arguments : List Expr} {span : Span}
    {c d : Context} {body : Term} (hw : c.scopes.ownerOfType? o type.name.text = none)
    (h : expr o (.conversion type arguments span) c = (.ok body, d)) :
    ∃ p argument operand d', type.known = .prim p ∧ arguments = [argument] ∧
      expr o argument c = (.ok operand, d') ∧
      body = (operand.convertTo (.prim p)).withSpan span := by
  have h : convertOrCall o type (exprs o arguments) span c = (.ok body, d) := h
  rw [convertOrCall_of_none hw] at h
  obtain ⟨n, known⟩ := type
  cases known with
  | math => cases h
  | prim p =>
    match arguments, h with
    | [argument], h =>
      obtain ⟨operand, c', hvalue, hrest⟩ := Step.bind_ok_iff.mp h
      refine ⟨p, argument, operand, c', rfl, rfl, (value_ok hvalue).1, ?_⟩
      split at hrest
      · cases hrest
        rfl
      · cases hrest
    | [], h => cases h
    | _ :: _ :: _, h => cases h

/-- What has the shape of a call passes for one: a conversion has it only from its
operand, which is a smaller expression. -/
theorem passesForCall_of_isCallShaped {o : Options} {e : Expr} {c d : Context} {body : Term}
    (h : expr o e c = (.ok body, d)) (hcall : body.isCallShaped = true) :
    e.PassesForCall o c := by
  induction hsize : e.size using Nat.strongRecOn generalizing e d body with
  | ind size ih =>
    by_cases hw : e.isWrittenCall o c.scopes = true
    · exact .written hw
    have hw : e.isWrittenCall o c.scopes = false := Bool.eq_false_iff.mpr hw
    by_cases hc : ∃ type as span, e = .conversion type as span
    · obtain ⟨⟨n, known⟩, arguments, span, rfl⟩ := hc
      have howner : c.scopes.ownerOfType? o n.text = none :=
        Option.isNone_iff_eq_none.mp (Option.isSome_eq_false_iff.mp hw)
      obtain ⟨p, argument, operand, d', rfl, rfl, hargument, rfl⟩ := expr_conversion howner h
      have hlt : argument.size < size := by
        simp only [Expr.size, Expr.sizeAll] at hsize
        omega
      rw [Term.isCallShaped_withSpan, Term.isCallShaped_convertTo, Bool.and_eq_true] at hcall
      exact .conversion howner hargument hcall.1 (ih _ hlt hargument hcall.2 rfl)
    · have hc : ∀ type as span, e ≠ .conversion type as span :=
        fun type as span he => hc ⟨type, as, span, he⟩
      exact .property h (noCall_of_not_written hw hc h hcall)

/-- **A checked expression has the shape of a call just if it passes for one.** -/
theorem isCallShaped_iff {o : Options} {e : Expr} {c d : Context} {body : Term}
    (h : expr o e c = (.ok body, d)) : body.isCallShaped = true ↔ e.PassesForCall o c := by
  refine ⟨passesForCall_of_isCallShaped h, fun hp => ?_⟩
  induction hp generalizing body d with
  | written hw => exact isCallShaped_of_written hw h
  | property h' hread =>
    rw [h'] at h
    cases h
    exact hread.isCallShaped
  | conversion howner hargument htype _ ih =>
    obtain ⟨p', argument', operand', d', hp, hargs, hargument', rfl⟩ := expr_conversion howner h
    cases hp
    cases hargs
    rw [hargument] at hargument'
    cases hargument'
    rw [Term.isCallShaped_withSpan, Term.isCallShaped_convertTo, htype, Bool.true_and]
    exact ih hargument

/-- A conversion to a type that the operand does not have is one in the checked
expression too. -/
theorem expr_conversion_apart {o : Options} {n : Name} {p : Prim} {argument : Expr}
    {span : Span} {operand body : Term} {c d d' : Context}
    (howner : c.scopes.ownerOfType? o n.text = none)
    (hargument : expr o argument c = (.ok operand, d')) (ht : (operand.type == .prim p) = false)
    (h : expr o (.conversion ⟨n, .prim p⟩ [argument] span) c = (.ok body, d)) :
    body.type = .prim p ∧ body.isCallShaped = false := by
  obtain ⟨p', argument', operand', d'', hp, hargs, hargument', rfl⟩ := expr_conversion howner h
  cases hp
  cases hargs
  rw [hargument] at hargument'
  cases hargument'
  rw [Term.type_withSpan, Term.type_convertTo, Term.isCallShaped_withSpan,
    Term.isCallShaped_convertTo, ht]
  exact ⟨rfl, rfl⟩

end Check

/-! ### Lambdas -/

/-- The lambda has to return nothing: that is the type asked for, or a delegate
whose parameters the given ones match returns it. -/
def Target.WantsNothing (ds : List Declaration) : Target → Prop
  | .inferred => False
  | .type t => t.isVoid = true
  | .delegate d => d.returns.isVoid = true ∧ Lambda.checkParameters d ds = .ok ()

/-- The delegate that a lambda which returns nothing is made as. -/
def Target.action (ds : List Declaration) : Target → Ty
  | .delegate d => d.type
  | _ => .ofDelegate none ds .void

namespace Lambda

variable {o : Options} {ds : List Declaration} {implicit : Option Nat} {target : Target}
  {text : String} {records records' : RecordCache}

theorem mismatch?_self (ds : List Declaration) : mismatch? ds ds = none := by
  induction ds with
  | nil => rfl
  | cons d ds ih => rw [mismatch?, if_pos (Ty.beq_refl d.type), ih]

/-- The parameters of a delegate match themselves. -/
theorem checkParameters_self (d : Delegate) : checkParameters d d.parameters = .ok () := by
  unfold checkParameters
  rw [bne_self_eq_false, if_neg nofun, mismatch?_self]

theorem assemble_nothing (ht : target.WantsNothing ds) (body : Term) :
    assemble ds body target =
      if body.type.isVoid || body.isCallShaped then .ok ⟨ds, body, .void, target.action ds⟩
      else .error ⟨.callExpected body.type.display, body.span⟩ := by
  have eq_void {t : Ty} (h : t.isVoid = true) : t = .void := by
    cases t with
    | void => rfl
    | _ => cases h
  have hconvert : convertBody body .void = if body.type.isVoid || body.isCallShaped then .ok body
      else .error ⟨.callExpected body.type.display, body.span⟩ := rfl
  cases target with
  | inferred => exact ht.elim
  | type t =>
    obtain rfl := eq_void ht
    unfold assemble
    dsimp only
    rw [hconvert]
    split <;> rfl
  | delegate d =>
    obtain ⟨hd, hparameters⟩ := ht
    unfold assemble
    dsimp only
    rw [hparameters, eq_void hd, hconvert]
    split <;> rfl

/-- What a text compiles to is put together from what it is checked to. -/
theorem compile_of_checked {t : ParameterTable} {e : Expr} {body : Term}
    (hmake : ParameterTable.make ds implicit = .ok t)
    (hparse : Expr.parse (o.grammar t) text.toList = .ok e)
    (hcheck : e.check o t records = (.ok body, records')) :
    compile o ds implicit target text records = (assemble ds body target, records') := by
  unfold compile
  rw [hmake]
  dsimp only
  rw [hparse]
  dsimp only
  rw [hcheck]

/-- **Main result.** A text that is read and checked compiles to a lambda that has
to return nothing if its body returns nothing or if it passes for a call, and to
nothing else: otherwise it is refused with 3015, where its body stands. What is
written as a call passes for one; so do two kinds of expressions that are no calls,
a read of a built-in property and a conversion of what passes for a call to the
type that this has already. A read of a property that a class or a record declares
does not pass for a call, nor does a conversion to another type. -/
theorem compile_void {t : ParameterTable} {e : Expr} {body : Term}
    (ht : target.WantsNothing ds) (hmake : ParameterTable.make ds implicit = .ok t)
    (hparse : Expr.parse (o.grammar t) text.toList = .ok e)
    (hcheck : e.check o t records = (.ok body, records')) :
    let c : Context := ⟨records, .ofTable t⟩
    let compiled := compile o ds implicit target text records
    let refused : Except Failure Lambda × RecordCache :=
      (.error ⟨.callExpected body.type.display, body.span⟩, records')
    (body.type.isVoid = true ∨ e.PassesForCall o c →
      compiled = (.ok ⟨ds, body, .void, target.action ds⟩, records')) ∧
    (¬ (body.type.isVoid = true ∨ e.PassesForCall o c) → compiled = refused) ∧
    (Cause.callExpected body.type.display).code = 3015 ∧
    (∀ source name type span, body = .member source name type span → type.isVoid = false →
      compiled = refused) ∧
    (∀ n p argument span operand d, e = .conversion ⟨n, .prim p⟩ [argument] span →
      c.scopes.ownerOfType? o n.text = none → Check.expr o argument c = (.ok operand, d) →
      (operand.type == .prim p) = false → compiled = refused) := by
  intro c compiled refused
  have hexpr := Check.expr_of_check hcheck
  have hcompiled : compiled = (if body.type.isVoid || body.isCallShaped then
      .ok ⟨ds, body, .void, target.action ds⟩
    else .error ⟨.callExpected body.type.display, body.span⟩, records') := by
    rw [← assemble_nothing ht]
    exact compile_of_checked hmake hparse hcheck
  have hiff := Check.isCallShaped_iff hexpr
  have hrefused (hv : body.type.isVoid = false) (hcall : body.isCallShaped = false) :
      compiled = refused := by
    rw [hcompiled, hv, hcall]
    rfl
  refine ⟨fun h => ?_, fun h => ?_, rfl, ?_, ?_⟩
  · have hor : (body.type.isVoid || body.isCallShaped) = true := by
      rwa [Bool.or_eq_true, hiff]
    rw [hcompiled, if_pos hor]
  · obtain ⟨hv, hp⟩ := not_or.mp h
    exact hrefused (Bool.eq_false_iff.mpr hv) (Bool.eq_false_iff.mpr (mt hiff.mp hp))
  · rintro source name type span rfl hv
    exact hrefused hv rfl
  · rintro n p argument span operand d rfl howner hargument htype
    obtain ⟨htype, hcall⟩ := Check.expr_conversion_apart howner hargument htype hexpr
    exact hrefused (by rw [htype]; rfl) hcall

/-- The length of a text is no call, but it is taken for one. -/
theorem compile_void_length :
    let ds : List Declaration := [⟨"s", .string⟩]
    let t : ParameterTable := ⟨ds, some 0⟩
    let s : Expr := .name ⟨"s", ⟨0, 1⟩⟩
    let e : Expr := .member s ⟨"Length", ⟨2, 6⟩⟩ ⟨0, 8⟩
    let body : Term := .intrinsic .stringLength (.parameter "s" .string ⟨0, 1⟩) [] .int32 ⟨0, 8⟩
    (Target.type .void).WantsNothing ds ∧ ParameterTable.make ds (some 0) = .ok t ∧
      Expr.parse (({} : Options).grammar t) "s.Length".toList = .ok e ∧
      e.check {} t .empty = (.ok body, .empty) ∧
      e.PassesForCall {} ⟨.empty, .ofTable t⟩ ∧
      compile {} ds (some 0) (.type .void) "s.Length" .empty =
        (.ok ⟨ds, body, .void, .ofDelegate none ds .void⟩, .empty) := by
  intro ds t s e body
  have hcheck : e.check {} t .empty = (.ok body, .empty) := by with_unfolding_all rfl
  have hparse : Expr.parse (({} : Options).grammar t) "s.Length".toList = .ok e := by
    with_unfolding_all rfl
  have hmake : ParameterTable.make ds (some 0) = .ok t := rfl
  have hpasses : e.PassesForCall {} ⟨.empty, .ofTable t⟩ :=
    .property (Check.expr_of_check hcheck)
      ⟨.stringLength, .parameter "s" .string ⟨0, 1⟩, "Length", .int32, ⟨0, 8⟩, rfl, rfl⟩
  have hwants : (Target.type .void).WantsNothing ds := rfl
  obtain ⟨haccepted, -⟩ := compile_void hwants hmake hparse hcheck
  exact ⟨hwants, hmake, hparse, hcheck, hpasses, haccepted (.inr hpasses)⟩

/-- So a lambda that has to return nothing is made of an expression that is neither
a call nor without a value. -/
theorem compile_void_no_call :
    let t : ParameterTable := ⟨[⟨"s", .string⟩], some 0⟩
    ∃ e body f, Expr.parse (({} : Options).grammar t) "s.Length".toList = .ok e ∧
      e.check {} t .empty = (.ok body, .empty) ∧ body.type.isVoid = false ∧
      e.isWrittenCall {} (.ofTable t) = false ∧
      compile {} [⟨"s", .string⟩] (some 0) (.type .void) "s.Length" .empty = (.ok f, .empty) :=
  ⟨.member (.name ⟨"s", ⟨0, 1⟩⟩) ⟨"Length", ⟨2, 6⟩⟩ ⟨0, 8⟩,
    .intrinsic .stringLength (.parameter "s" .string ⟨0, 1⟩) [] .int32 ⟨0, 8⟩, _, by with_unfolding_all rfl,
    by with_unfolding_all rfl, rfl, rfl, by with_unfolding_all rfl⟩

end Lambda

end QueryExpr
