/-
# Members of `it` behind `it.`

Where bare names may mean members of `it`, an expression can as well be written
with every such name behind `it.`: a bare name, a call without a target, and the
name of a type that a member of `it` hides. What is so written is compiled to the
same without members of `it` having to be meant by bare names, as long as every
part of the expression has a value: the `it` that a bare name is looked up in,
and a member that hides a type, need not have one, while what stands in front of
a dot has to.

Key definitions: `Expr.it`, `Rewriting.qualified`, `Expr.qualified`.
Key theorems: `Rewriting.lawful_qualified`, `Rewriting.legible_qualified`,
`Expr.propertyName?_qualified`, `Expr.check_qualified`, `Lambda.compile_qualified`.
-/
import Mathlib
import QueryExpr.Proofs.CompiledLambda
import QueryExpr.Proofs.RenamedLambda
import QueryExpr.Proofs.RewrittenCheck
import QueryExpr.Proofs.RewrittenReading

namespace QueryExpr

/-- The word `it` at a place. -/
def Expr.it (span : Span) : Expr := .name ⟨implicitName, span⟩

/-- Every name that means a member of `it` behind `it.`. What is inserted has the
place of the name. -/
def Rewriting.qualified : Rewriting where
  names _ n := n
  name _ n := .member (.it n.span) n n.span
  typeName _ type := .member (.it type.name.span) type.name type.name.span
  call _ n arguments span := .callOn (.it n.span) n arguments span
  conversion _ type arguments span := .callOn (.it type.name.span) type.name arguments span

/-- A whole expression with its names of members behind `it.`, over the
parameters of a table. -/
def Expr.qualified (e : Expr) (o : Options) (table : ParameterTable) (records : RecordCache) :
    Expr :=
  e.rewrite .qualified o ⟨records, .ofTable table⟩

variable {o o' : Options} {c : Context} {e : Expr}

namespace Rewriting

/-! ### What is checked -/

section
variable {s : Symbol} {span : Span} {n : Name} {ms : List (Check Term)} {es : List Expr}


/-- The word `it` comes to the innermost `it`. -/
theorem expr_it (h : c.scopes.owner? o = some s) :
    Check.expr o' (.it span) c = (.ok (Check.reference s span), c) := by
  have himplicit : c.scopes.implicit? = some s := by
    unfold Scopes.owner? at h
    split at h
    · exact h
    · cases h
  have hresolve : c.scopes.resolveImplicit span = .ok s := by
    have hcurrent : c.scopes.current.implicit? = some s := himplicit
    rw [Scopes.resolveImplicit, ParameterTable.resolveImplicit, hcurrent]
  show (Check.scopes >>= _) c = _
  rw [Step.bind_apply]
  dsimp only [Check.scopes_apply]
  rw [if_pos (beq_self_eq_true _), Step.bind_apply, hresolve]
  rfl

/-- A member of `it` is the same behind `it.`, if `it` has a value. -/
theorem carries_memberOfIt (h : c.scopes.owner? o = some s) :
    Check.CarriesTerm (fun _ n => n) (fun u => u.type.isVoid = false) c
      (Check.member (Check.reference s n.span) n.text n.span)
      (Check.expr o' (.member (.it n.span) n n.span)) := by
  intro t d heq hparts
  have hvalue := (Check.reveals_member _ _ _ c t d heq hparts).1
  rw [Context.rename_self, Context.rename_self, Term.rename_self, Check.expr_member,
    Check.ofTarget_of_ok (expr_it h) (.inl hvalue)]
  exact heq

/-- So is a method. -/
theorem carries_callOfIt (h : c.scopes.owner? o = some s)
    (hms : Check.CarriesAll (fun _ n => n) (fun u => u.type.isVoid = false)
      (c.inArguments s.type n.text) ms (Check.exprs o' es)) :
    Check.CarriesTerm (fun _ n => n) (fun u => u.type.isVoid = false) c
      (Check.method (Check.reference s n.span) n.text ms span)
      (Check.expr o' (.callOn (.it n.span) n es span)) := by
  intro t d heq hparts
  have hvalue := (Check.reveals_method _ _ _ _ c t d heq hparts).1
  have hmethod := Check.carries_method (fun u _ => u.type.coherent_self) (fun _ _ h => h)
    (fun _ => .inl rfl) (Check.reference s n.span) span hms t d heq hparts
  have hname : Check.callName (fun _ n => n) s.type n.text = n.text := by
    rw [Check.callName, Ty.nameIn_self, ite_self]
  rw [Context.rename_self] at hmethod ⊢
  rw [Check.expr_callOn, Check.ofTarget_of_ok (expr_it h) (.inl hvalue), ← hmethod,
    Term.rename_self]
  exact congrArg (fun name => Check.method _ name _ span c) hname.symm

end

/-- **Names of members behind `it.` come to the same**, whether or not bare names
may mean members of `it`, where every part has a value. -/
theorem lawful_qualified (hjoins : o'.stringConcatenation = o.stringConcatenation)
    (hoff : o'.implicitMembers = false) :
    qualified.Lawful o o' (fun _ => True) (fun _ => True) fun e => e.type.isVoid = false where
  joins := hjoins
  coherent _ := Ty.coherent_self _
  free _ _ _ h := h
  noAggregate _ _ := .inl rfl
  kept := .inl fun _ h => h
  bare _ _ := by
    unfold Scopes.ownerOfType? Scopes.owner?
    rw [hoff]
    rfl
  name _ h := carries_memberOfIt (Scopes.owner?_of_name h)
  typeName {_ _ type} _ h := carries_memberOfIt (n := type.name) (Scopes.owner?_of_type h)
  call _ h hms := carries_callOfIt (Scopes.owner?_of_call h) hms
  conversion {_ _ type _ _ _} _ h hms :=
    carries_callOfIt (n := type.name) (Scopes.owner?_of_type h) hms

/-! ### What is read -/

theorem legible_qualified (g : Grammar) : qualified.Legible g :=
  have hit (span : Span) : ReadableSuffixed g .itWord (.it span) := .of_primary fun _ => .it
  have named {n : String} (hn : TokenKind.identifier.Spells n) : Named n := ⟨.identifier, rfl, hn⟩
  have hne : TokenKind.itWord ≠ .openParen := by decide
  { named := fun _ _ hn => hn
    name := fun _ _ hn _ => ⟨_, hne, (hit _).member (named hn)⟩
    typeName := fun _ _ hn _ => ⟨_, hne, (hit _).member (named hn)⟩
    call := fun _ _ _ _ hn _ hes => ⟨_, hne, (hit _).callOn (named hn) hes⟩
    conversion := fun _ _ _ _ hn _ hes => ⟨_, hne, (hit _).callOn (named hn) hes⟩ }

end Rewriting

/-- A member gives its name to a property of a record behind `it.` as well. -/
theorem Expr.propertyName?_qualified {name : String} (h : e.propertyName? = some name) :
    (e.rewrite .qualified o c).propertyName? = some name := by
  cases e with
  | name n =>
    have hname : n.text = name := by
      rw [propertyName?] at h
      split at h <;> cases h
      rfl
    unfold rewrite
    split
    · exact congrArg some hname
    · exact h
  | member target n span =>
    unfold rewrite
    split
    · exact (congrArg some (Ty.nameIn_self _ n.text)).trans h
    · exact h
  | _ => cases h

/-- What an expression is checked to, it is checked to with its names of members
behind `it.`, without bare names that mean any. -/
theorem Expr.check_qualified {table : ParameterTable} {records records' : RecordCache}
    {body : Term} (hjoins : o'.stringConcatenation = o.stringConcatenation)
    (hoff : o'.implicitMembers = false) (h : e.check o table records = (.ok body, records'))
    (hvalued : body.EveryPart fun u => u.type.isVoid = false) :
    (e.qualified o table records).check o' table records = (.ok body, records') := by
  have hnames := names_of_forall (Q := fun _ => True) (T := fun _ => True)
    (fun _ => trivial) (fun _ => trivial) e
  have hrewrite := check_rewrite (Rewriting.lawful_qualified hjoins hoff) hnames h hvalued
  rw [show Rewriting.qualified.names = fun _ n => n from rfl, ParameterTable.rename_self,
    RecordCache.rename_self, RecordCache.rename_self, Term.rename_self] at hrewrite
  exact hrewrite

namespace Lambda

variable {ds : List Declaration} {implicit : Option Nat} {target : Target} {text : String}
  {records records' : RecordCache} {f : Lambda}

/-- **A bare name of a member is short for the name behind `it.`**: whatever is
compiled, if every proper part of it has a value, is compiled to the same, up to
places, with every such name behind `it.` and without bare names that mean
members of `it`. So it is for every text that spells that expression, up to
places, under whatever limit it can be read; and the rendered expression is such
a text, under every limit that leaves room for the number of its tokens. -/
theorem compile_qualified (h : compile o ds implicit target text records = (.ok f, records'))
    (hvalued : f.body.EveryPart fun e => e.type.isVoid = false) :
    ∃ table e, ParameterTable.make ds implicit = .ok table ∧
      Expr.parse (o.grammar table) text.toList = .ok e ∧
      let e' := e.qualified o table records
      (∀ (text' : String) (limit : Nat) (e'' : Expr),
        Expr.parse ⟨limit, table.declares⟩ text'.toList = .ok e'' → e''.bare = e'.bare →
        ∃ f', compile { o with implicitMembers := false, maxDepth := limit } ds implicit target
          text' records = (.ok f', records') ∧ f'.bare = f.bare) ∧
      Spells e'.rendered e'.words ∧
      ∀ (text' : List Char) (limit : Nat), Spells text' e'.words →
        2 * (tokens text').list.length + 1 ≤ limit →
        ∃ e'', Expr.parse ⟨limit, table.declares⟩ text' = .ok e'' ∧ e''.bare = e'.bare := by
  obtain ⟨table, e, body, htable, hparse, hcheck, hassemble⟩ := compile_ok h
  have hbody : body.EveryPart fun u => u.type.isVoid = false := by
    obtain ⟨-, ⟨heq, -⟩ | ⟨t, -, -, hconvert⟩⟩ := assemble_cases hassemble
    · exact heq ▸ hvalued
    · exact hvalued.of_convertBody hconvert
  refine ⟨table, e, htable, hparse, fun text' limit e'' hparse' hbare => ?_,
    Expr.parse_rewrite (Rewriting.legible_qualified _) hparse o _⟩
  exact compile_of_bare htable hparse' hbare (Expr.check_qualified rfl rfl hcheck hbody) hassemble

set_option maxRecDepth 4000 in
/-- A call without a target, and the name of a type that a member of the element
hides, in the body of the call. -/
theorem compile_qualified_any :
    let d : Ty := .cls "D" [("String", .string)] [] [] none none false
    let f : Lambda := ⟨[⟨"", .array d⟩], .aggregateBy .any (.parameter "it" (.array d) ⟨0, 3⟩)
      (.binary .equal (.member (.parameter "it" d ⟨4, 6⟩) "String" .string ⟨4, 6⟩)
        (.constant .null .string ⟨14, 4⟩) .boolean ⟨4, 14⟩) .boolean ⟨0, 19⟩, .boolean,
      .delegate none [""] [.array d] .boolean⟩
    compile {} [⟨"", .array d⟩] (some 0) .inferred "Any(String == null)" .empty = (.ok f, .empty) ∧
    f.body.EveryPart (fun e => e.type.isVoid = false) ∧
    ∃ f', compile { implicitMembers := false, maxDepth := 5 } [⟨"", .array d⟩] (some 0) .inferred
      "it.Any(it.String == null)" .empty = (.ok f', .empty) ∧ f'.bare = f.bare := by
  intro d f
  have hcompile : compile {} [⟨"", .array d⟩] (some 0) .inferred "Any(String == null)" .empty =
      (.ok f, .empty) := by with_unfolding_all rfl
  have hvalued : f.body.EveryPart fun e => e.type.isVoid = false :=
    ⟨⟨rfl, trivial⟩, rfl, ⟨rfl, rfl, trivial⟩, rfl, trivial⟩
  refine ⟨hcompile, hvalued, ?_⟩
  obtain ⟨table, e, htable, hparse, htexts, -⟩ := compile_qualified hcompile hvalued
  cases htable
  have he : Expr.parse (Options.grammar {} ⟨[⟨"", .array d⟩], some 0⟩) "Any(String == null)".toList =
      .ok (.call ⟨"Any", ⟨0, 3⟩⟩ [.binary .equal (.typeName ⟨⟨"String", ⟨4, 6⟩⟩, .prim .string⟩)
        (.literal .null "null" ⟨14, 4⟩) ⟨4, 14⟩] ⟨0, 19⟩) := by with_unfolding_all rfl
  cases he.symm.trans hparse
  have hparse' : Expr.parse ⟨5, ParameterTable.declares ⟨[⟨"", .array d⟩], some 0⟩⟩
      "it.Any(it.String == null)".toList =
      .ok (.callOn (.name ⟨"it", ⟨0, 2⟩⟩) ⟨"Any", ⟨3, 3⟩⟩ [.binary .equal
        (.member (.name ⟨"it", ⟨7, 2⟩⟩) ⟨"String", ⟨10, 6⟩⟩ ⟨7, 9⟩)
        (.literal .null "null" ⟨20, 4⟩) ⟨7, 17⟩] ⟨0, 25⟩) := by with_unfolding_all rfl
  exact htexts _ 5 _ hparse' (by with_unfolding_all rfl)

set_option maxRecDepth 4000 in
/-- Where a member without a value hides a type, what is asked of the member by its
bare name is refused behind `it.`: no text that spells that is compiled, under
whatever limit. One such text is `it.String.ToString()`. -/
theorem not_compile_qualified_of_void :
    let t : Ty := .cls "C" [("String", .void)] [] [] none none false
    let table : ParameterTable := ⟨[⟨"", t⟩], some 0⟩
    ∃ e f, Expr.parse (Options.grammar {} table) "String.ToString()".toList = .ok e ∧
      compile {} [⟨"", t⟩] (some 0) .inferred "String.ToString()" .empty = (.ok f, .empty) ∧
      (∃ e', Expr.parse ⟨200, table.declares⟩ "it.String.ToString()".toList = .ok e' ∧
        e'.bare = (e.qualified {} table .empty).bare) ∧
      ∀ (limit : Nat) (text' : String) (e' : Expr),
        Expr.parse ⟨limit, table.declares⟩ text'.toList = .ok e' →
        e'.bare = (e.qualified {} table .empty).bare → ∀ f' records',
          compile { implicitMembers := false, maxDepth := limit } [⟨"", t⟩] (some 0) .inferred
            text' .empty ≠ (.ok f', records') := by
  intro t table
  have hparse : Expr.parse (Options.grammar {} table) "String.ToString()".toList =
      .ok (.callOn (.typeName ⟨⟨"String", ⟨0, 6⟩⟩, .prim .string⟩) ⟨"ToString", ⟨7, 8⟩⟩ []
        ⟨0, 17⟩) := by with_unfolding_all rfl
  have hcompile : compile {} [⟨"", t⟩] (some 0) .inferred "String.ToString()" .empty =
      (.ok ⟨[⟨"", t⟩], .intrinsic .toString (.member (.parameter "it" t ⟨0, 6⟩) "String" .void
        ⟨0, 6⟩) [] .string ⟨0, 17⟩, .string, .delegate none [""] [t] .string⟩, .empty) := by
    with_unfolding_all rfl
  have hqualified : Expr.parse ⟨200, table.declares⟩ "it.String.ToString()".toList =
      .ok (.callOn (.member (.name ⟨"it", ⟨0, 2⟩⟩) ⟨"String", ⟨3, 6⟩⟩ ⟨0, 9⟩)
        ⟨"ToString", ⟨10, 8⟩⟩ [] ⟨0, 20⟩) := rfl
  refine ⟨_, _, hparse, hcompile, ⟨_, hqualified, rfl⟩, fun limit text' e' hparse' hbare => ?_⟩
  intro f' records' h
  obtain ⟨table', e, body, htable, hread, hcheck, -⟩ := compile_ok h
  cases htable
  cases hparse'.symm.trans hread
  obtain ⟨body', hcheck', -⟩ := Expr.check_of_bare hbare.symm hcheck
  have hrefused : (((Expr.callOn (.typeName ⟨⟨"String", ⟨0, 6⟩⟩, .prim .string⟩) ⟨"ToString", ⟨7, 8⟩⟩
      [] ⟨0, 17⟩).qualified {} table .empty).check { implicitMembers := false, maxDepth := limit }
      table .empty).1.toOption = none := rfl
  cases hrefused.symm.trans (congrArg (fun r => r.1.toOption) hcheck')
end Lambda
end QueryExpr
