/-
# What is put into scope is taken out again

A check enters the bodies of aggregates, an evaluation binds parameters and
elements, and either may fail in between. Whatever it is asked for, and whether
or not it fails, it leaves the names in scope, or the bindings, as it found
them. What an evaluator has been asked before therefore makes no difference to
what it is asked next: apart from the numbers of lists, which go on from one
evaluation to the next, it starts afresh each time.

Key definitions: `Use`, `Use.run`, `EvalContext.after`.
Key theorems: `Eval.same_term`, `Use.same_run`, `Use.environment_after`,
`stacks_restored`.
-/
import QueryExpr.Proofs.CheckSteps
import QueryExpr.Proofs.SameEval

namespace QueryExpr

/-! ### Expressions -/

namespace Eval

theorem same_operation {host : Host} {env : Environment} {l r : Term}
    (hl : Same env env (term host l) (term host l)) (hr : Same env env (term host r) (term host r))
    (op : Operation) (t : Ty) (span : Span) :
    Same env env (term host (.binary op l r t span)) (term host (.binary op l r t span)) := by
  cases op with
  | andAlso => exact same_conjunction hl hr
  | orElse => exact same_disjunction hl hr
  | _ => exact hl.bind fun v => hr.then fun w => still_ofExcept _

mutual
/-- **An evaluation leaves its environment as it is**, and it does not depend
on what has been asked of the host before. -/
theorem same_term (host : Host) :
    ∀ (e : Term) (env : Environment), Same env env (term host e) (term host e)
  | .constant .., env => still_pure _ env env
  | .parameter name _ _, env => same_lookup name env
  | .member target _ _ _, env => (same_term host target env).then fun v => still_ofExcept _
  | .index target arguments _ _, env => (same_term host target env).bind fun v =>
      (same_values (forall₂_same_terms host arguments env)).then fun vs => still_index _ _ _
  | .call target _ arguments _ _, env => (same_term host target env).bind fun v =>
      (same_values (forall₂_same_terms host arguments env)).then fun vs => still_call _ _ _ _
  | .intrinsic _ target arguments _ _, env => (same_term host target env).bind fun v =>
      (same_values (forall₂_same_terms host arguments env)).then fun vs => still_ofExcept _
  | .function _ arguments _ _, env =>
      (same_values (forall₂_same_terms host arguments env)).then fun vs => still_ofExcept _
  | .aggregate op source type _, env => (same_term host source env).bind fun v =>
      (still_ofExcept _ env env).bind fun items => same_aggregate sameBody_none op items none type
  | .aggregateBy op source body type _, env => (same_term host source env).bind fun v =>
      (still_ofExcept _ env env).bind fun items =>
        -- the body is evaluated in an environment with one binding more
        same_aggregate (sameBody_some fun w => same_term host body ((implicitName, w) :: env)) op
          items none type
  | .aggregateWith op source argument type _, env => (same_term host source env).bind fun v =>
      (still_ofExcept _ env env).bind fun items => (same_term host argument env).bind fun w =>
        same_aggregate sameBody_none op items (some w) type
  | .convert operand _ _, env => (same_term host operand env).then fun v => still_ofExcept _
  | .unary _ operand _ _, env => (same_term host operand env).then fun v => still_ofExcept _
  | .binary op left right _ _, env =>
      same_operation (same_term host left env) (same_term host right env) op _ _
  | .conditional condition whenTrue whenFalse _ _, env =>
      same_conditional (same_term host condition env) (same_term host whenTrue env)
        (same_term host whenFalse env)
  | .coalesce left right _ _, env =>
      same_coalesce (same_term host left env) (same_term host right env)
  | .inList operand candidates _ _, env => (same_term host operand env).bind fun v =>
      (same_isAmong v (forall₂_same_terms host candidates env)).then fun b => still_pure _
  | .inSequence operand source _ _, env => (same_term host operand env).bind fun v =>
      (same_term host source env).bind fun w =>
        (still_ofExcept _ env env).then fun items => still_pure _
  | .newRecord entries type _, env => by
    cases type with
    | record id properties =>
      exact (same_values (forall₂_same_terms host entries env)).then fun vs => still_ofExcept _
    | _ => exact still_throw _ env env
  | .newArray elements _ _, env =>
      (same_values (forall₂_same_terms host elements env)).then fun vs => still_newList _
  | .invoke delegate arguments _ _, env => (same_term host delegate env).bind fun v =>
      (same_values (forall₂_same_terms host arguments env)).then fun vs => still_invoke _ _ _

theorem forall₂_same_terms (host : Host) : ∀ (es : List Term) (env : Environment),
    List.Forall₂ (Same env env) (terms host es) (terms host es)
  | [], _ => .nil
  | e :: es, env => .cons (same_term host e env) (forall₂_same_terms host es env)
end

end Eval

/-! ### Evaluators -/

/-- What an evaluator is asked for: the value of an expression with the bindings
it has, or what a lambda comes to for arguments. -/
inductive Use
  | evaluate (e : Term)
  | invoke (f : Lambda) (arguments : List Value)

/-- What an evaluator does when it is asked. -/
def Use.run (host : Host) : Use → Eval Value
  | .evaluate e => Eval.term host e
  | .invoke f arguments => f.invoke host arguments

/-- The context in which an evaluator is left when it has been asked for several
things in a row, some of which may have failed. -/
def EvalContext.after (host : Host) (c : EvalContext) (uses : List Use) : EvalContext :=
  uses.foldl (fun c use => (use.run host c).2) c

/-- Parameters are bound for the body of a lambda alone; for another number of
arguments none are. -/
theorem Lambda.same_invoke (host : Host) (f : Lambda) (arguments : List Value)
    (env : Environment) :
    Eval.Same env env (f.invoke host arguments) (f.invoke host arguments) := by
  have hbody := Eval.Same.withBindings_left (Eval.Same.withBindings_right
    (Eval.same_term host f.body
      (((f.parameters.map Declaration.boundName).zip arguments).reverse ++ env)))
  have hvalue := hbody.then fun v => Eval.still_pure (if f.returns.isVoid then .null else v)
  unfold invoke
  exact ((Eval.still_throw _ env env).bind fun _ => hvalue).ite hvalue

namespace Use

variable (host : Host)

theorem same_run (use : Use) (env : Environment) :
    Eval.Same env env (use.run host) (use.run host) := by
  cases use with
  | evaluate e => exact Eval.same_term host e env
  | invoke f arguments => exact f.same_invoke host arguments env

/-- The bindings are in place after each use, and so after all of them. -/
theorem environment_after (c : EvalContext) (uses : List Use) :
    (c.after host uses).environment = c.environment := by
  induction uses generalizing c with
  | nil => rfl
  | cons use uses ih =>
    show ((use.run host c).2.after host uses).environment = c.environment
    rw [ih, Eval.Same.environment (use.same_run host)]

/-- An evaluator that has been used does what one in its first environment
does, and it asks the host the same. -/
theorem run_after (c : EvalContext) (uses : List Use) (use : Use) :
    ∃ (r : Except EvalError Value) (next : Nat) (asked : List Event),
      use.run host (c.after host uses) =
          (r, ⟨c.environment, next, (c.after host uses).events ++ asked⟩) ∧
        use.run host ⟨c.environment, (c.after host uses).nextList, []⟩ =
          (r, ⟨c.environment, next, asked⟩) := by
  obtain ⟨r, next, asked, h, h'⟩ := use.same_run host c.environment
    (c.after host uses).nextList (c.after host uses).events []
  refine ⟨r, next, asked, ?_, h'⟩
  rw [← h, ← environment_after host c uses]

end Use

/-- **Main result.** From whatever names are in scope, checking an expression
leaves those names in scope, whether or not it fails. From whatever bindings
there are, evaluating an expression and invoking a lambda leave those bindings,
whether or not they fail, for whatever number of arguments. So an evaluator that
has been used in any way gives for a further use the result of a fresh one, whose
lists are numbered from where the used one has got to. -/
theorem stacks_restored (host : Host) :
    (∀ (o : Options) (e : Expr) (c : Context),
      (Check.expr o e c).2.scopes = c.scopes ∧
        (Check.value (Check.expr o e) c).2.scopes = c.scopes) ∧
    (∀ (e : Term) (c : EvalContext), (Eval.term host e c).2.environment = c.environment) ∧
    (∀ (f : Lambda) (arguments : List Value) (c : EvalContext),
      (f.invoke host arguments c).2.environment = c.environment) ∧
    ∀ (n : Nat) (uses : List Use) (use : Use),
      let used := (EvalContext.start n).after host uses
      ∃ (r : Except EvalError Value) (next : Nat) (asked : List Event),
        use.run host used = (r, ⟨[], next, used.events ++ asked⟩) ∧
          use.run host (.start used.nextList) = (r, ⟨[], next, asked⟩) := by
  refine ⟨fun o e c => ⟨?_, ?_⟩, fun e c => ?_, fun f arguments c => ?_, fun n uses use => ?_⟩
  · exact ((Check.composed_expr o e).keeps c).1
  · exact ((Check.composed_value (Check.composed_expr o e)).keeps c).1
  · exact Eval.Same.environment (Eval.same_term host e) c
  · exact Eval.Same.environment (f.same_invoke host arguments) c
  · exact Use.run_after host (.start n) uses use

end QueryExpr
