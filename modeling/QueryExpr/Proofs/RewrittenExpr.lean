/-
# Expressions written another way

Where the members of `it` are called otherwise, or where they may not be called
by their bare names, an expression has to be written another way: at every
place where a bare name, a call without a target or the name of a type means a
member of the innermost `it`, and, where members have other names, behind every
target. What a name means depends on what is in scope and on the type of the
target, for the body of an aggregate on what the aggregate's source comes to, so
that the expression is followed as it is checked.

Key definitions: `Scopes.ownerOfName?`, `Scopes.ownerOfCall?`,
`Scopes.ownerOfType?`, `Expr.Names`, `Rewriting`, `Expr.rewrite`.
Key theorems: `Check.named_of_owner`, `Check.call_of_owner`,
`Check.typeName_of_owner`, `Check.convertOrCall_of_owner`.
-/
import QueryExpr.Proofs.CarriedOperations
import QueryExpr.Typing.Check

namespace QueryExpr

/-! ### Members of `it` -/

namespace Scopes

/-- The `it` whose members bare names may mean. -/
def owner? (s : Scopes) (o : Options) : Option Symbol :=
  if o.implicitMembers then s.implicit? else none

/-- The `it` that has the member of a bare name: of a name that nothing else is
meant by. -/
def ownerOfName? (s : Scopes) (o : Options) (name : String) : Option Symbol :=
  if name == implicitName || (s.lookup? name).isSome then none else s.owner? o

/-- The `it` that has the method of a call without a target: of one that calls
no parameter and chooses no alternative. -/
def ownerOfCall? (s : Scopes) (o : Options) (name : String) : Option Symbol :=
  if name == "iif" || ((s.lookup? name).filter Symbol.isParameter).isSome then none
  else s.owner? o

/-- The `it` that has a member or a method by the name of a predefined type. -/
def ownerOfType? (s : Scopes) (o : Options) (name : String) : Option Symbol :=
  (s.owner? o).filter fun it => (it.type.member? name).isSome || !(it.type.methods name).isEmpty

variable {s : Scopes} {o : Options} {name : String} {it : Symbol}

theorem owner?_of_name (h : s.ownerOfName? o name = some it) : s.owner? o = some it := by
  unfold ownerOfName? at h
  split at h
  · cases h
  · exact h

theorem owner?_of_call (h : s.ownerOfCall? o name = some it) : s.owner? o = some it := by
  unfold ownerOfCall? at h
  split at h
  · cases h
  · exact h

theorem owner?_of_type (h : s.ownerOfType? o name = some it) : s.owner? o = some it :=
  Option.eq_some_of_filter_eq_some h

end Scopes

namespace Check

variable {o : Options} {c : Context} {n : Name} {type : TypeName} {s : Symbol} {span : Span}
  {ms : List (Check Term)}

theorem scopes_apply : scopes c = (.ok c.scopes, c) := rfl

theorem implicitTarget_apply : implicitTarget o span c =
    (.ok ((c.scopes.owner? o).map (reference · span)), c) := by
  unfold implicitTarget Scopes.owner?
  split <;> rfl

theorem shadowingTarget_apply {name : String} : shadowingTarget o name span c =
    (.ok ((c.scopes.ownerOfType? o name).map (reference · span)), c) := by
  unfold shadowingTarget Scopes.ownerOfType?
  rw [Step.bind_apply, implicitTarget_apply]
  dsimp only
  rw [Option.filter_map]
  rfl

theorem named_of_owner (h : c.scopes.ownerOfName? o n.text = some s) :
    named o n c = member (reference s n.span) n.text n.span c := by
  unfold Scopes.ownerOfName? at h
  split at h
  · cases h
  · rename_i hne
    obtain ⟨himplicit, hlookup⟩ := not_or.mp (mt Bool.or_eq_true_iff.mpr hne)
    unfold named
    rw [Step.bind_apply]
    dsimp only [scopes_apply]
    rw [if_neg himplicit, Option.not_isSome_iff_eq_none.mp hlookup]
    dsimp only
    rw [Step.bind_apply, implicitTarget_apply, h]
    rfl

theorem call_of_owner (h : c.scopes.ownerOfCall? o n.text = some s) :
    call o n ms span c = method (reference s n.span) n.text ms span c := by
  unfold Scopes.ownerOfCall? at h
  split at h
  · cases h
  · rename_i hne
    obtain ⟨hiif, hlookup⟩ := not_or.mp (mt Bool.or_eq_true_iff.mpr hne)
    unfold call
    rw [if_neg hiif, Step.bind_apply]
    dsimp only [scopes_apply]
    rw [Option.not_isSome_iff_eq_none.mp hlookup]
    dsimp only
    rw [Step.bind_apply, implicitTarget_apply, h]
    rfl

theorem typeName_of_owner (h : c.scopes.ownerOfType? o type.name.text = some s) :
    typeName o type c =
      member (reference s type.name.span) type.name.text type.name.span c := by
  unfold typeName
  rw [Step.bind_apply, shadowingTarget_apply, h]
  rfl

theorem typeName_of_none (h : c.scopes.ownerOfType? o type.name.text = none) :
    ∃ failure, typeName o type c = (.error failure, c) := by
  unfold typeName
  rw [Step.bind_apply, shadowingTarget_apply, h]
  exact ⟨_, rfl⟩

theorem convertOrCall_of_owner (h : c.scopes.ownerOfType? o type.name.text = some s) :
    convertOrCall o type ms span c =
      method (reference s type.name.span) type.name.text ms span c := by
  unfold convertOrCall
  rw [Step.bind_apply, shadowingTarget_apply, h]
  rfl

theorem convertOrCall_of_none (h : c.scopes.ownerOfType? o type.name.text = none) :
    convertOrCall o type ms span c = conversion type.known ms span c := by
  unfold convertOrCall
  rw [Step.bind_apply, shadowingTarget_apply, h]
  rfl

end Check

/-! ### Another way -/

mutual
/-- Every name of a member, a method or a parameter in the expression has the
first property, and every name of a type that stands for a value or a function
the second one. -/
def Expr.Names (Q : String → Prop) (T : TypeName → Prop) : Expr → Prop
  | .literal _ _ _ => True
  | .name n => Q n.text
  | .typeName type => T type
  | .member target n _ => target.Names Q T ∧ Q n.text
  | .index target arguments _ => target.Names Q T ∧ Expr.AllNames Q T arguments
  | .call n arguments _ => Q n.text ∧ Expr.AllNames Q T arguments
  | .callOn target n arguments _ => target.Names Q T ∧ Q n.text ∧ Expr.AllNames Q T arguments
  | .conversion type arguments _ => T type ∧ Expr.AllNames Q T arguments
  | .unary _ operand _ => operand.Names Q T
  | .binary _ left right _ => left.Names Q T ∧ right.Names Q T
  | .conditional condition whenTrue whenFalse _ =>
    condition.Names Q T ∧ whenTrue.Names Q T ∧ whenFalse.Names Q T
  | .inList operand candidates _ => operand.Names Q T ∧ Expr.AllNames Q T candidates
  | .inSource operand source _ => operand.Names Q T ∧ source.Names Q T
  | .newRecord _ values _ => Expr.AllNames Q T values
  | .newArray _ elements _ => Expr.AllNames Q T elements
termination_by structural e => e

/-- So it is with the names in each of the expressions. -/
def Expr.AllNames (Q : String → Prop) (T : TypeName → Prop) : List Expr → Prop
  | [] => True
  | e :: es => e.Names Q T ∧ Expr.AllNames Q T es
termination_by structural es => es
end

namespace Expr

variable {Q : String → Prop} {T : TypeName → Prop}

mutual
theorem names_of_forall (hQ : ∀ n, Q n) (hT : ∀ type, T type) : ∀ e : Expr, e.Names Q T
  | .literal .. => trivial
  | .name _ => hQ _
  | .typeName type => hT type
  | .member e .. => ⟨names_of_forall hQ hT e, hQ _⟩
  | .index e es _ | .inList e es _ =>
    ⟨names_of_forall hQ hT e, allNames_of_forall hQ hT es⟩
  | .call _ es _ => ⟨hQ _, allNames_of_forall hQ hT es⟩
  | .callOn e _ es _ => ⟨names_of_forall hQ hT e, hQ _, allNames_of_forall hQ hT es⟩
  | .conversion type es _ => ⟨hT type, allNames_of_forall hQ hT es⟩
  | .unary _ e _ => names_of_forall hQ hT e
  | .binary _ e e' _ | .inSource e e' _ => ⟨names_of_forall hQ hT e, names_of_forall hQ hT e'⟩
  | .conditional c a b _ =>
    ⟨names_of_forall hQ hT c, names_of_forall hQ hT a, names_of_forall hQ hT b⟩
  | .newRecord _ es _ | .newArray _ es _ => allNames_of_forall hQ hT es
termination_by structural e => e

theorem allNames_of_forall (hQ : ∀ n, Q n) (hT : ∀ type, T type) :
    ∀ es : List Expr, AllNames Q T es
  | [] => trivial
  | e :: es => ⟨names_of_forall hQ hT e, allNames_of_forall hQ hT es⟩
termination_by structural es => es
end

end Expr

/-- Another way of writing: what members are called behind a target, and what is
written for a member of `it`, by the form its name stands in. -/
structure Rewriting where
  names : Renaming
  /-- Written for a bare name. -/
  name (it : Symbol) (n : Name) : Expr
  /-- Written for a bare type name. -/
  typeName (it : Symbol) (type : TypeName) : Expr
  /-- Written for a call without a target. -/
  call (it : Symbol) (n : Name) (arguments : List Expr) (span : Span) : Expr
  /-- Written for what has the form of a conversion. -/
  conversion (it : Symbol) (type : TypeName) (arguments : List Expr) (span : Span) : Expr

namespace Expr

mutual
/-- The expression written the other way, as its names are understood in the
context. -/
def rewrite (w : Rewriting) (o : Options) : Expr → Context → Expr
  | .literal v written span, _ => .literal v written span
  | .name n, c =>
    match c.scopes.ownerOfName? o n.text with
    | some it => w.name it n
    | none => .name n
  | .typeName type, c =>
    match c.scopes.ownerOfType? o type.name.text with
    | some it => w.typeName it type
    | none => .typeName type
  | .member target n span, c =>
    match (Check.expr o target c).1 with
    | .ok t => .member (target.rewrite w o c) ⟨t.type.nameIn w.names n.text, n.span⟩ span
    | .error _ => .member (target.rewrite w o c) n span
  | .index target arguments span, c =>
    .index (target.rewrite w o c) (rewriteAll w o arguments (Check.expr o target c).2) span
  | .call n arguments span, c =>
    match c.scopes.ownerOfCall? o n.text with
    | some it => w.call it n (rewriteAll w o arguments (c.inArguments it.type n.text)) span
    | none => .call n (rewriteAll w o arguments c) span
  | .callOn target n arguments span, c =>
    match Check.expr o target c with
    | (.ok t, d) =>
      .callOn (target.rewrite w o c) ⟨Check.callName w.names t.type n.text, n.span⟩
        (rewriteAll w o arguments (d.inArguments t.type n.text)) span
    | (.error _, d) => .callOn (target.rewrite w o c) n (rewriteAll w o arguments d) span
  | .conversion type arguments span, c =>
    match c.scopes.ownerOfType? o type.name.text with
    | some it =>
      w.conversion it type (rewriteAll w o arguments (c.inArguments it.type type.name.text)) span
    | none => .conversion type (rewriteAll w o arguments c) span
  | .unary op operand span, c => .unary op (operand.rewrite w o c) span
  | .binary op left right span, c =>
    .binary op (left.rewrite w o c) (right.rewrite w o (Check.expr o left c).2) span
  | .conditional condition whenTrue whenFalse span, c =>
    let d := (Check.expr o condition c).2
    .conditional (condition.rewrite w o c) (whenTrue.rewrite w o d)
      (whenFalse.rewrite w o (Check.expr o whenTrue d).2) span
  | .inList operand candidates span, c =>
    .inList (operand.rewrite w o c) (rewriteAll w o candidates (Check.expr o operand c).2) span
  | .inSource operand source span, c =>
    .inSource (operand.rewrite w o c) (source.rewrite w o (Check.expr o operand c).2) span
  | .newRecord names values span, c => .newRecord names (rewriteAll w o values c) span
  | .newArray type elements span, c => .newArray type (rewriteAll w o elements c) span
termination_by structural e => e

/-- The expressions so written, each in the context that those before it leave. -/
def rewriteAll (w : Rewriting) (o : Options) : List Expr → Context → List Expr
  | [], _ => []
  | e :: es, c => e.rewrite w o c :: rewriteAll w o es (Check.expr o e c).2
termination_by structural es => es
end

end Expr
end QueryExpr
