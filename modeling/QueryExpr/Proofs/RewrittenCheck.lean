/-
# Checking what is written another way

An expression written another way comes to the same, over the renamed types: if
it does so at each place where something else is written, it does so as a whole.
For a member of a target that is so unless the target is the name of a type that
a member of `it` hides. Such a target need not have a value, while one that is
written another way has to; so the other way keeps such names, or else every
part of what the expression comes to has a value.

Key definitions: `Check.ofTarget`, `Rewriting.Lawful`.
Key theorems: `Check.carries_ofTarget`, `Check.carries_rewrite`.
-/
import QueryExpr.Proofs.RewrittenExpr

namespace QueryExpr
namespace Check

variable {o o' : Options} {r : Renaming} {P : Term → Prop} {c d : Context}
  {m m' : Check Term} {ms ms' : List (Check Term)}

/-! ### Targets -/

/-- Checks what is asked of a target: of its value, or of the type that it
names. -/
def ofTarget (o : Options) (target : Expr) (ask : Term → Check Term)
    (askType : KnownType → Check Term) : Check Term :=
  match target with
  | .typeName owner => do
    match ← shadowingTarget o owner.name.text owner.name.span with
    | some it => do ask (← member it owner.name.text owner.name.span)
    | none => askType owner.known
  | _ => do ask (← value (expr o target))

theorem expr_member (o : Options) (target : Expr) (n : Name) (span : Span) :
    expr o (.member target n span) = ofTarget o target (fun t => member t n.text span)
      (fun owner => staticConstant owner n span) := by
  cases target <;> rfl

theorem expr_callOn (o : Options) (target : Expr) (n : Name) (arguments : List Expr)
    (span : Span) :
    expr o (.callOn target n arguments span) =
      ofTarget o target (fun t => method t n.text (exprs o arguments) span)
        (fun owner => function owner n (exprs o arguments) span) := by
  cases target <;> rfl

/-- The term may be what a target comes to: it has a value, or the target is the
name of a type. -/
def Targets (e : Expr) (t : Term) : Prop := t.type.isVoid = false ∨ ∃ type, e = .typeName type

section
variable {e e' : Expr} {ask ask' : Term → Check Term} {askType askType' : KnownType → Check Term}
  {t u : Term}

theorem ofTarget_of_owner {owner : TypeName} {s : Symbol}
    (h : c.scopes.ownerOfType? o owner.name.text = some s) :
    ofTarget o (.typeName owner) ask askType c = (expr o (.typeName owner) >>= ask) c := by
  have hexpr : expr o (.typeName owner) c = _ := typeName_of_owner h
  rw [Step.bind_apply, hexpr]
  show (shadowingTarget o owner.name.text owner.name.span >>= _) c = _
  rw [Step.bind_apply, shadowingTarget_apply, h]
  dsimp only [Option.map_some]
  rw [Step.bind_apply]

theorem ofTarget_of_none {owner : TypeName}
    (h : c.scopes.ownerOfType? o owner.name.text = none) :
    ofTarget o (.typeName owner) ask askType c = askType owner.known c := by
  show (shadowingTarget o owner.name.text owner.name.span >>= _) c = _
  rw [Step.bind_apply, shadowingTarget_apply, h]
  rfl

/-- What is asked of a target that is checked is asked of what it comes to. -/
theorem ofTarget_of_ok (h : expr o e c = (.ok t, d)) (ht : Targets e t) :
    ofTarget o e ask askType c = ask t d := by
  cases e with
  | typeName owner =>
    cases ho : c.scopes.ownerOfType? o owner.name.text with
    | none =>
      obtain ⟨failure, hfailure⟩ := typeName_of_none ho
      have hcontra := hfailure.symm.trans h
      cases hcontra
    | some s => rw [ofTarget_of_owner ho, Step.bind_apply, h]
  | _ =>
    have hv : t.type.isVoid = false := ht.resolve_right fun ⟨_, heq⟩ => by cases heq
    show (value _ >>= ask) c = _
    rw [Step.bind_apply, value_of_ok h hv]

/-- What is asked of a target is asked of what it comes to, or of the type that
it names. -/
theorem ofTarget_cases (h : ofTarget o e ask askType c = (.ok u, d)) :
    (∃ t c', expr o e c = (.ok t, c') ∧ Targets e t ∧ ask t c' = (.ok u, d)) ∨
    ∃ owner, e = .typeName owner ∧ c.scopes.ownerOfType? o owner.name.text = none ∧
      askType owner.known c = (.ok u, d) := by
  cases e with
  | typeName owner =>
    cases ho : c.scopes.ownerOfType? o owner.name.text with
    | none =>
      rw [ofTarget_of_none ho] at h
      exact .inr ⟨owner, rfl, ho, h⟩
    | some s =>
      rw [ofTarget_of_owner ho, Step.bind_apply] at h
      rcases ht : expr o (.typeName owner) c with ⟨failure | t, c'⟩ <;> rw [ht] at h
      · cases h
      · exact .inl ⟨t, c', rfl, .inr ⟨owner, rfl⟩, h⟩
  | _ =>
    have h : (value _ >>= ask) c = (.ok u, d) := h
    rw [Step.bind_apply] at h
    rcases ht : value _ c with ⟨failure | t, c'⟩ <;> rw [ht] at h
    · cases h
    · obtain ⟨heq, hv⟩ := value_ok ht
      exact .inl ⟨t, c', heq, .inl hv, h⟩

/-- What is asked of a target written another way comes to the same. -/
theorem carries_ofTarget (hm : CarriesTerm r P c (expr o e) (expr o' e'))
    (hkept : (∀ u, P u → u.type.isVoid = false) ∨
      ((∃ type, e = .typeName type) → ∃ type, e' = .typeName type))
    (hshown : ∀ t, Reveals (Term.EveryPart P) (ask t) (P t ∧ t.EveryPart P))
    (hask : ∀ t d, expr o e c = (.ok t, d) → CarriesTerm r P d (ask t) (ask' (t.rename r)))
    (htype : ∀ owner, e = .typeName owner → c.scopes.ownerOfType? o owner.name.text = none →
      e' = .typeName owner ∧ (c.rename r).scopes.ownerOfType? o' owner.name.text = none ∧
        CarriesTerm r P c (askType owner.known) (askType' owner.known)) :
    CarriesTerm r P c (ofTarget o e ask askType) (ofTarget o' e' ask' askType') := by
  intro u d heq hparts
  rcases ofTarget_cases heq with ⟨t, c', ht, htargets, hu⟩ | ⟨owner, rfl, hnone, hu⟩
  · obtain ⟨hpart, hwithin⟩ := hshown t c' u d hu hparts
    have ht' := hm t c' ht hwithin
    have htargets' : Targets e' (t.rename r) := by
      unfold Targets
      rw [t.type_rename, Ty.isVoid_rename]
      rcases hkept with hvalued | hkept
      · exact .inl (hvalued t hpart)
      · exact htargets.imp_right hkept
    rw [ofTarget_of_ok ht' htargets']
    exact hask t c' ht u d hu hparts
  · obtain ⟨rfl, hnone', hcarries⟩ := htype owner rfl hnone
    rw [ofTarget_of_none hnone']
    exact hcarries u d hu hparts

end

/-! ### Names -/

/-- A bare name that no member of `it` is meant by means the same under other
names. -/
theorem carries_named {n : Name} (h : c.scopes.ownerOfName? o n.text = none) :
    CarriesTerm r P c (named o n) (named o' n) := by
  have hreference (s : Symbol) :
      CarriesTerm r P c (pure (reference s n.span)) (pure (reference (s.rename r) n.span)) :=
    carries_term (reference s n.span)
  intro e d heq hparts
  unfold named at heq ⊢
  rw [Step.bind_apply] at heq ⊢
  dsimp only [scopes_apply] at heq ⊢
  unfold Scopes.ownerOfName? at h
  cases hit : n.text == implicitName with
  | true =>
    rw [hit, if_pos rfl] at heq
    rw [if_pos rfl]
    refine (carries_ofExcept (V := fun _ => True) (h := Symbol.rename r) fun s hs => ?_).andThen
      (fun s d _ => ?_) e d heq hparts
    · exact Scopes.resolveImplicit_rename hs
    · exact carries_term (reference s n.span)
  | false =>
    rw [hit, if_neg Bool.false_ne_true] at heq
    rw [if_neg Bool.false_ne_true]
    have hlookup := c.scopes.lookup?_rename (r := r) n.text
    cases hs : c.scopes.lookup? n.text with
    | none =>
      rw [hit, hs] at h
      rw [hs] at heq
      have hnone : c.scopes.owner? o = none := h
      dsimp only at heq
      rw [Step.bind_apply, implicitTarget_apply, hnone] at heq
      cases heq
    | some s =>
      rw [hs] at heq hlookup
      rw [show (c.rename r).scopes.lookup? n.text = _ from hlookup]
      obtain ⟨text, kind, t⟩ := s
      cases kind with
      | constant v => exact carries_ofScalar v n.span e d heq hparts
      | parameter i => exact carries_term (reference ⟨text, .parameter i, t⟩ n.span) e d heq hparts

/-- So does a call without a target. -/
theorem carries_call {n : Name} (span : Span) (h : c.scopes.ownerOfCall? o n.text = none)
    (hms : CarriesAll r P c ms ms') :
    CarriesTerm r P c (call o n ms span) (call o' n ms' span) := by
  unfold Scopes.ownerOfCall? at h
  unfold call
  cases hiif : n.text == "iif" with
  | true =>
    rw [if_pos rfl, if_pos rfl]
    match hms with
    | .cons hc (.cons ha (.cons hb .nil)) => exact carries_conditional span hc ha hb
    | .nil | .cons _ .nil | .cons _ (.cons _ .nil) | .cons _ (.cons _ (.cons _ (.cons _ _))) =>
      exact carries_fail _ _
  | false =>
    rw [if_neg Bool.false_ne_true, if_neg Bool.false_ne_true]
    intro e d heq hparts
    rw [Step.bind_apply] at heq ⊢
    dsimp only [scopes_apply] at heq ⊢
    have hlookup := c.scopes.lookup?_rename (r := r) n.text
    cases hs : (c.scopes.lookup? n.text).filter Symbol.isParameter with
    | none =>
      rw [hiif, hs] at h
      rw [hs] at heq
      have hnone : c.scopes.owner? o = none := h
      dsimp only at heq
      rw [Step.bind_apply, implicitTarget_apply, hnone] at heq
      cases heq
    | some s =>
      have hs' : ((c.rename r).scopes.lookup? n.text).filter Symbol.isParameter =
          some (s.rename r) := by
        have hfilter : ((c.scopes.lookup? n.text).map (Symbol.rename r)).filter Symbol.isParameter =
            ((c.scopes.lookup? n.text).filter Symbol.isParameter).map (Symbol.rename r) :=
          Option.filter_map
        rw [show (c.rename r).scopes.lookup? n.text = _ from hlookup, hfilter, hs]
        rfl
      rw [hs] at heq
      rw [hs']
      exact carries_invoke (reference s n.span) n.text span hms e d heq hparts

end Check

/-! ### Expressions -/

/-- What another way of writing has to keep to, for expressions whose names have
the first property and whose type names the second one, and for terms whose
proper parts have the third one: what it writes for a member of `it` is checked
to that member. -/
structure Rewriting.Lawful (w : Rewriting) (o o' : Options) (Q : String → Prop)
    (T : TypeName → Prop) (P : Term → Prop) : Prop where
  joins : o'.stringConcatenation = o.stringConcatenation
  coherent {e : Term} : P e → e.type.Coherent w.names
  free {n : String} : Q n → w.names.Free n
  noAggregate {n : String} : Q n → ∀ c, w.names c n = n ∨ Aggregate.ofName? (w.names c n) = none
  /-- A target that has no value is not written another way. -/
  kept : (∀ e, P e → e.type.isVoid = false) ∨
    ∀ it type, T type → ∃ type', w.typeName it type = .typeName type'
  /-- What hides no type does not hide it under other names. -/
  bare {c : Context} {type : TypeName} : T type →
    c.scopes.ownerOfType? o type.name.text = none →
    (c.rename w.names).scopes.ownerOfType? o' type.name.text = none
  name {c : Context} {it : Symbol} {n : Name} : Q n.text →
    c.scopes.ownerOfName? o n.text = some it →
    Check.CarriesTerm w.names P c (Check.member (Check.reference it n.span) n.text n.span)
      (Check.expr o' (w.name it n))
  typeName {c : Context} {it : Symbol} {type : TypeName} : T type →
    c.scopes.ownerOfType? o type.name.text = some it →
    Check.CarriesTerm w.names P c
      (Check.member (Check.reference it type.name.span) type.name.text type.name.span)
      (Check.expr o' (w.typeName it type))
  call {c : Context} {it : Symbol} {n : Name} {ms : List (Check Term)} {es : List Expr}
    {span : Span} : Q n.text → c.scopes.ownerOfCall? o n.text = some it →
    Check.CarriesAll w.names P (c.inArguments it.type n.text) ms (Check.exprs o' es) →
    Check.CarriesTerm w.names P c (Check.method (Check.reference it n.span) n.text ms span)
      (Check.expr o' (w.call it n es span))
  conversion {c : Context} {it : Symbol} {type : TypeName} {ms : List (Check Term)}
    {es : List Expr} {span : Span} : T type →
    c.scopes.ownerOfType? o type.name.text = some it →
    Check.CarriesAll w.names P (c.inArguments it.type type.name.text) ms (Check.exprs o' es) →
    Check.CarriesTerm w.names P c
      (Check.method (Check.reference it type.name.span) type.name.text ms span)
      (Check.expr o' (w.conversion it type es span))

namespace Check

variable {w : Rewriting} {Q : String → Prop} {T : TypeName → Prop}

/-- One check comes to what another one comes to. -/
theorem Carries.of_apply_eq {α β : Type} {V : α → Prop} {h : α → β} {m n : Check α}
    {m' : Check β} (heq : m c = n c) (hn : Carries r V h c n m') : Carries r V h c m m' :=
  fun x d hx => hn x d (heq ▸ hx)

theorem carries_fails {α β : Type} {V : α → Prop} {h : α → β} {m : Check α} {m' : Check β}
    (hm : ∃ failure, m c = (.error failure, d)) : Carries r V h c m m' := by
  obtain ⟨failure, hm⟩ := hm
  intro x d hx
  rw [hm] at hx
  cases hx

/-- The name of a type is written as one, unless every part has a value. -/
theorem kept_rewrite (hw : w.Lawful o o' Q T P) {e : Expr} (hn : e.Names Q T) (c : Context) :
    (∀ u, P u → u.type.isVoid = false) ∨
      ((∃ type, e = .typeName type) → ∃ type, e.rewrite w o c = .typeName type) := by
  refine hw.kept.imp_right fun hkept => ?_
  rintro ⟨type, rfl⟩
  unfold Expr.rewrite
  split
  · exact hkept _ type hn
  · exact ⟨type, rfl⟩

/-- What is asked of a target that is written another way, by the name that it
has there. -/
theorem carries_asked (hw : w.Lawful o o' Q T P) {target : Expr} (hn : target.Names Q T)
    (htarget : CarriesTerm w.names P c (expr o target) (expr o' (target.rewrite w o c)))
    {ask ask' : Term → Check Term} {askType askType' : KnownType → Check Term}
    (hshown : ∀ t, Reveals (Term.EveryPart P) (ask t) (P t ∧ t.EveryPart P))
    (hask : ∀ t d, expr o target c = (.ok t, d) →
      CarriesTerm w.names P d (ask t) (ask' (t.rename w.names)))
    (htype : (∃ failure, expr o target c = (.error failure, c)) → ∀ owner,
      CarriesTerm w.names P c (askType owner) (askType' owner)) :
    CarriesTerm w.names P c (ofTarget o target ask askType)
      (ofTarget o' (target.rewrite w o c) ask' askType') := by
  refine carries_ofTarget htarget (kept_rewrite hw hn c) hshown hask fun owner heq hs => ?_
  subst heq
  refine ⟨?_, hw.bare hn hs, htype (typeName_of_none hs) owner.known⟩
  unfold Expr.rewrite
  rw [hs]

theorem carries_memberOf (hw : w.Lawful o o' Q T P) {target : Expr} {n : Name} {span : Span}
    (hn : (Expr.member target n span).Names Q T)
    (htarget : CarriesTerm w.names P c (expr o target) (expr o' (target.rewrite w o c))) :
    CarriesTerm w.names P c (expr o (.member target n span))
      (expr o' ((Expr.member target n span).rewrite w o c)) := by
  unfold Expr.rewrite
  -- the name changes where the target has a type: it has none if the target is refused
  rcases hx : expr o target c with ⟨failure | t, d⟩
  all_goals
    dsimp only
    rw [expr_member, expr_member]
    refine carries_asked hw hn.1 htarget (fun t => reveals_member t n.text span)
      (fun t d ht => ?_) fun ⟨_, hfails⟩ owner => ?_
  · cases hx.symm.trans ht
  · exact carries_staticConstant owner n span
  · cases hx.symm.trans ht
    exact carries_member (fun _ => hw.coherent) (hw.free hn.2) t span
  · cases hx.symm.trans hfails

theorem carries_callOf (hw : w.Lawful o o' Q T P) {target : Expr} {n : Name} {es : List Expr}
    {span : Span} (hn : (Expr.callOn target n es span).Names Q T)
    (htarget : CarriesTerm w.names P c (expr o target) (expr o' (target.rewrite w o c)))
    (hes : ∀ d, CarriesAll w.names P d (exprs o es) (exprs o' (Expr.rewriteAll w o es d))) :
    CarriesTerm w.names P c (expr o (.callOn target n es span))
      (expr o' ((Expr.callOn target n es span).rewrite w o c)) := by
  unfold Expr.rewrite
  rcases hx : expr o target c with ⟨failure | t, d⟩
  all_goals
    dsimp only
    rw [expr_callOn, expr_callOn]
    refine carries_asked hw hn.1 htarget (fun t => reveals_method t n.text _ span)
      (fun t d ht => ?_) fun ⟨_, hfails⟩ owner => ?_
  · cases hx.symm.trans ht
  · cases hx.symm.trans hfails
    exact carries_function owner n span (hes c)
  · cases hx.symm.trans ht
    exact carries_method (fun _ => hw.coherent) (hw.free hn.2.1) (hw.noAggregate hn.2.1) t span
      (hes _)
  · cases hx.symm.trans hfails

mutual
/-- **What is written another way comes to the same**, under the other names. -/
theorem carries_rewrite (hw : w.Lawful o o' Q T P) : ∀ (e : Expr) (c : Context), e.Names Q T →
    CarriesTerm w.names P c (expr o e) (expr o' (e.rewrite w o c))
  | .literal v written span, _, _ => carries_literal v written span
  | .name n, c, hn => by
    unfold Expr.rewrite
    cases hs : c.scopes.ownerOfName? o n.text with
    | some it => exact (hw.name hn hs).of_apply_eq (named_of_owner hs)
    | none => exact carries_named hs
  | .typeName type, c, ht => by
    unfold Expr.rewrite
    cases hs : c.scopes.ownerOfType? o type.name.text with
    | some it => exact (hw.typeName ht hs).of_apply_eq (typeName_of_owner hs)
    | none => exact carries_fails (typeName_of_none hs)
  | .member target n span, c, hn => carries_memberOf hw hn (carries_rewrite hw target c hn.1)
  | .index target arguments span, c, hn => by
    refine (carries_value (carries_rewrite hw target c hn.1)).bind (fun t => ?_) fun t d hd _ => ?_
    · exact (reveals_index t _ span).mono And.right
    · obtain rfl := value_leaves hd
      exact carries_index t span (carries_rewriteAll hw arguments _ hn.2)
  | .call n arguments span, c, hn => by
    unfold Expr.rewrite
    cases hs : c.scopes.ownerOfCall? o n.text with
    | some it =>
      have harguments := carries_rewriteAll hw arguments (c.inArguments it.type n.text) hn.2
      exact (hw.call hn.1 hs harguments).of_apply_eq (call_of_owner hs)
    | none => exact carries_call span hs (carries_rewriteAll hw arguments c hn.2)
  | .callOn target n arguments span, c, hn =>
    carries_callOf hw hn (carries_rewrite hw target c hn.1) fun d =>
      carries_rewriteAll hw arguments d hn.2.2
  | .conversion type arguments span, c, hn => by
    unfold Expr.rewrite
    cases hs : c.scopes.ownerOfType? o type.name.text with
    | some it =>
      have harguments := carries_rewriteAll hw arguments (c.inArguments it.type type.name.text) hn.2
      exact (hw.conversion hn.1 hs harguments).of_apply_eq (convertOrCall_of_owner hs)
    | none =>
      have hnone := hw.bare hn.1 hs
      have harguments := carries_rewriteAll hw arguments c hn.2
      intro e d heq hparts
      have heq : conversion type.known (exprs o arguments) span c = (.ok e, d) :=
        (convertOrCall_of_none hs).symm.trans heq
      exact (convertOrCall_of_none hnone).trans
        (carries_conversion type.known span harguments e d heq hparts)
  | .unary op operand span, c, hn => by
    refine (carries_value (carries_rewrite hw operand c hn)).bind
      (fun e => reveals_unary op e span) fun e _ _ _ => carries_unary op e span
  | .binary op left right span, c, hn => by
    refine (carries_value (carries_rewrite hw left c hn.1)).bind (fun e => ?_) fun e d hd _ => ?_
    · exact Reveals.after fun e' => (reveals_binary o op e e' span).mono And.left
    obtain rfl := value_leaves hd
    refine (carries_value (carries_rewrite hw right _ hn.2)).bind (fun e' => ?_)
      fun e' _ _ _ => ?_
    · exact (reveals_binary o op e e' span).mono And.right
    · exact carries_binary hw.joins op e e' span
  | .conditional a b b' span, c, hn =>
    carries_conditional span (carries_rewrite hw a c hn.1) (carries_rewrite hw b _ hn.2.1)
      (carries_rewrite hw b' _ hn.2.2)
  | .inList operand candidates span, c, hn =>
    carries_inList span (carries_rewrite hw operand c hn.1)
      (carries_rewriteAll hw candidates _ hn.2)
  | .inSource operand source span, c, hn =>
    carries_inSource span (carries_rewrite hw operand c hn.1) (carries_rewrite hw source _ hn.2)
  | .newRecord names values span, c, hn =>
    carries_newRecord names span (carries_rewriteAll hw values c hn)
  | .newArray type elements span, c, hn =>
    carries_newArray type span (carries_rewriteAll hw elements c hn)
termination_by structural e => e

theorem carries_rewriteAll (hw : w.Lawful o o' Q T P) : ∀ (es : List Expr) (c : Context),
    Expr.AllNames Q T es →
    CarriesAll w.names P c (exprs o es) (exprs o' (Expr.rewriteAll w o es c))
  | [], _, _ => .nil
  | e :: es, c, hn => .cons (carries_rewrite hw e c hn.1) (carries_rewriteAll hw es _ hn.2)
termination_by structural es => es
end

end Check

/-- What a whole expression is checked to, it is checked to written another way,
under the other names. -/
theorem Expr.check_rewrite {w : Rewriting} {o o' : Options} {Q : String → Prop}
    {T : TypeName → Prop} {P : Term → Prop} {e : Expr} {table : ParameterTable}
    {records records' : RecordCache} {body : Term} (hw : w.Lawful o o' Q T P)
    (hnames : e.Names Q T) (h : e.check o table records = (.ok body, records'))
    (hparts : body.EveryPart P) :
    (e.rewrite w o ⟨records, .ofTable table⟩).check o' (table.rename w.names)
      (records.rename w.names) = (.ok (body.rename w.names), records'.rename w.names) := by
  unfold check at h
  rcases hx : Check.expr o e ⟨records, .ofTable table⟩ with ⟨result, d⟩
  rw [hx] at h
  cases h
  have hcarries := Check.carries_rewrite hw e ⟨records, .ofTable table⟩ hnames body d hx hparts
  unfold check
  rw [show (⟨records.rename w.names, .ofTable (table.rename w.names)⟩ : Context) =
    Context.rename w.names ⟨records, .ofTable table⟩ from rfl, hcarries]
  rfl

end QueryExpr
