/-
# Checking where some conversions are not allowed

The checker lets a text convert by `T(x)` wherever a conversion leads from
the type of `x` to `T`. Here it is told which of these conversions it may let
pass. If all are allowed it is the checker itself; if it comes to the same
although some are not, then the expression has none of those.

Key definitions: `Check.exprWhere`, `Expr.Avoids`.
Key theorems: `Check.exprWhere_all`.
-/
import QueryExpr.Typing.Check

namespace QueryExpr
namespace Check

/-- Checks a conversion to a predefined type, if it is one of those allowed. -/
def conversionWhere (allowed : Ty → Ty → Bool) (type : KnownType) (arguments : List (Check Term))
    (span : Span) : Check Term :=
  match type, arguments with
  | .prim p, [argument] =>
    let guarded : Check Term := do
      let e ← argument
      if allowed e.type (.prim p) then return e
      else fail (.noConversion e.type.display (Ty.prim p).display) span
    conversion (.prim p) [guarded] span
  | type, arguments => conversion type arguments span

/-- Checks a conversion, if it is one of those allowed, or a call of the method
of `it` that hides the type. -/
def convertOrCallWhere (allowed : Ty → Ty → Bool) (o : Options) (type : TypeName)
    (arguments : List (Check Term)) (span : Span) : Check Term := do
  match ← shadowingTarget o type.name.text type.name.span with
  | some it => method it type.name.text arguments span
  | none => conversionWhere allowed type.known arguments span

mutual
/-- Checks an expression in which only some conversions are allowed. -/
def exprWhere (allowed : Ty → Ty → Bool) (o : Options) : Expr → Check Term
  | .literal v written span => literal v written span
  | .name n => named o n
  | .typeName type => typeName o type
  | .member (.typeName owner) n span => memberOfType o owner n span
  | .member target n span => do member (← value (exprWhere allowed o target)) n.text span
  | .index target arguments span => do
    index (← value (exprWhere allowed o target)) (exprsWhere allowed o arguments) span
  | .call n arguments span => call o n (exprsWhere allowed o arguments) span
  | .callOn (.typeName owner) n arguments span =>
    callOnType o owner n (exprsWhere allowed o arguments) span
  | .callOn target n arguments span => do
    method (← value (exprWhere allowed o target)) n.text (exprsWhere allowed o arguments) span
  | .conversion type arguments span =>
    convertOrCallWhere allowed o type (exprsWhere allowed o arguments) span
  | .unary op operand span => do unary op (← value (exprWhere allowed o operand)) span
  | .binary op left right span => do
    let l ← value (exprWhere allowed o left)
    let r ← value (exprWhere allowed o right)
    binary o op l r span
  | .conditional c a b span =>
    conditional (exprWhere allowed o c) (exprWhere allowed o a) (exprWhere allowed o b) span
  | .inList operand items span =>
    inList (exprWhere allowed o operand) (exprsWhere allowed o items) span
  | .inSource operand source span =>
    inSource (exprWhere allowed o operand) (exprWhere allowed o source) span
  | .newRecord names items span => newRecord names (exprsWhere allowed o items) span
  | .newArray type items span => newArray type (exprsWhere allowed o items) span
termination_by structural e => e

/-- The checks of several expressions in which only some conversions are
allowed. -/
def exprsWhere (allowed : Ty → Ty → Bool) (o : Options) : List Expr → List (Check Term)
  | [] => []
  | e :: es => exprWhere allowed o e :: exprsWhere allowed o es
termination_by structural es => es
end

/-- A member of a type name is checked in its own way. -/
theorem exprWhere_member (allowed : Ty → Ty → Bool) (o : Options) (target : Expr) (n : Name)
    (span : Span) :
    (∃ owner, target = .typeName owner ∧
      exprWhere allowed o (.member target n span) = memberOfType o owner n span) ∨
    exprWhere allowed o (.member target n span) =
      value (exprWhere allowed o target) >>= fun e => member e n.text span := by
  cases target with
  | typeName owner => exact .inl ⟨owner, rfl, rfl⟩
  | _ => exact .inr rfl

/-- So is a call on a type name. -/
theorem exprWhere_callOn (allowed : Ty → Ty → Bool) (o : Options) (target : Expr) (n : Name)
    (arguments : List Expr) (span : Span) :
    (∃ owner, target = .typeName owner ∧
      exprWhere allowed o (.callOn target n arguments span) =
        callOnType o owner n (exprsWhere allowed o arguments) span) ∨
    exprWhere allowed o (.callOn target n arguments span) =
      value (exprWhere allowed o target) >>= fun e =>
        method e n.text (exprsWhere allowed o arguments) span := by
  cases target with
  | typeName owner => exact .inl ⟨owner, rfl, rfl⟩
  | _ => exact .inr rfl

theorem length_exprsWhere (allowed : Ty → Ty → Bool) (o : Options) (es : List Expr) :
    (exprsWhere allowed o es).length = es.length := by
  induction es with
  | nil => rfl
  | cons e es ih => simp [exprsWhere, ih]

/-- The conversions that are all allowed. -/
def allConversions : Ty → Ty → Bool := fun _ _ => true

theorem conversionWhere_all (type : KnownType) (arguments : List (Check Term)) (span : Span) :
    conversionWhere allConversions type arguments span = conversion type arguments span := by
  unfold conversionWhere
  split
  · simp [allConversions]
  · rfl

theorem convertOrCallWhere_all (o : Options) (type : TypeName) (arguments : List (Check Term))
    (span : Span) :
    convertOrCallWhere allConversions o type arguments span =
      convertOrCall o type arguments span := by
  unfold convertOrCallWhere convertOrCall
  refine bind_congr fun shadowing => ?_
  cases shadowing with
  | some it => rfl
  | none => exact conversionWhere_all type.known arguments span

mutual
/-- **Where all conversions are allowed, it is the checker itself.** -/
theorem exprWhere_all (o : Options) : ∀ e : Expr, exprWhere allConversions o e = expr o e
  | .literal .. | .name _ | .typeName _ => rfl
  | .member target n span => by
    have h := exprWhere_all o target
    cases target <;> simp only [exprWhere, expr] at h ⊢ <;> rw [h]
  | .index target arguments span => by
    simp only [exprWhere, expr, exprWhere_all o target, exprsWhere_all o arguments]
  | .call n arguments span => by simp only [exprWhere, expr, exprsWhere_all o arguments]
  | .callOn target n arguments span => by
    have h := exprWhere_all o target
    have hs := exprsWhere_all o arguments
    cases target <;> simp only [exprWhere, expr] at h ⊢ <;> simp only [h, hs]
  | .conversion type arguments span => by
    simp only [exprWhere, expr, exprsWhere_all o arguments, convertOrCallWhere_all]
  | .unary op operand span => by simp only [exprWhere, expr, exprWhere_all o operand]
  | .binary op left right span => by
    simp only [exprWhere, expr, exprWhere_all o left, exprWhere_all o right]
  | .conditional c a b span => by
    simp only [exprWhere, expr, exprWhere_all o c, exprWhere_all o a, exprWhere_all o b]
  | .inList operand items span => by
    simp only [exprWhere, expr, exprWhere_all o operand, exprsWhere_all o items]
  | .inSource operand source span => by
    simp only [exprWhere, expr, exprWhere_all o operand, exprWhere_all o source]
  | .newRecord names items span => by simp only [exprWhere, expr, exprsWhere_all o items]
  | .newArray type items span => by simp only [exprWhere, expr, exprsWhere_all o items]

theorem exprsWhere_all (o : Options) :
    ∀ es : List Expr, exprsWhere allConversions o es = exprs o es
  | [] => rfl
  | e :: es => by simp only [exprsWhere, exprs, exprWhere_all o e, exprsWhere_all o es]
end

end Check

/-- The expression has no conversion but those allowed: checking comes to the
same whether or not the others are refused. -/
def Expr.Avoids (e : Expr) (allowed : Ty → Ty → Bool) (o : Options) (table : ParameterTable)
    (records : RecordCache) : Prop :=
  Check.exprWhere allowed o e ⟨records, .ofTable table⟩ =
    Check.expr o e ⟨records, .ofTable table⟩

theorem Expr.avoids_none (e : Expr) (o : Options) (table : ParameterTable)
    (records : RecordCache) : e.Avoids Check.allConversions o table records := by
  unfold Avoids
  rw [Check.exprWhere_all]

end QueryExpr
