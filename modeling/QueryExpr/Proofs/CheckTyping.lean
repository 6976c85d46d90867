/-
# The checker keeps the rules of typing

What the checker yields for an expression is made by the rules of typing, by
induction on the expression: a name is what the scopes say, and every other
form is left to the routine for it.

Key theorems: `Check.settled_named`, `Check.yields_call`,
`Check.sound_exprWhere`, `Expr.check_sound`.
-/
import QueryExpr.Proofs.OperationTyping
import QueryExpr.Proofs.RegularExpr

namespace QueryExpr
namespace Check

section
variable {D : Discipline} (hD : D.Lawful) {s : Scopes} (hs : s.Valued D) {m : Check Term}
  {ms : List (Check Term)}
include hD hs

/-! ### Names -/

omit hD in
theorem settled_implicitTarget (o : Options) (span : Span) :
    Settled s (implicitTarget o span) fun it? => ∀ it, it? = some it →
      Term.Typed D s it ∧ D.value it.type := by
  unfold implicitTarget
  split
  · refine settled_scopes.bind fun s' hs' => settled_pure fun it hit => ?_
    rw [hs'] at hit
    obtain ⟨sym, hsym, rfl⟩ := Option.map_eq_some_iff.mp hit
    have hden : s.Denotes D sym := .inl hsym
    exact ⟨.parameter hden, (hden.type hs).2⟩
  · exact settled_pure fun it hit => by cases hit

omit hD in
theorem settled_shadowingTarget (o : Options) (name : String) (span : Span) :
    Settled s (shadowingTarget o name span) fun it? => ∀ it, it? = some it →
      Term.Typed D s it ∧ D.value it.type := by
  refine (settled_implicitTarget hs o span).bind fun it? hit => settled_pure fun it h => ?_
  exact hit it (Option.eq_some_of_filter_eq_some h)

omit hD hs in
theorem implicit?_of_resolveImplicit {span : Span} {sym : Symbol}
    (h : s.resolveImplicit span = .ok sym) : s.implicit? = some sym := by
  unfold Scopes.resolveImplicit ParameterTable.resolveImplicit at h
  split at h
  · cases h
    assumption
  · cases h

omit hD hs in
theorem checked_reference {sym : Symbol} (h : s.Denotes D sym) (span : Span) :
    Term.Checked D s (reference sym span) := checked (.parameter h) rfl

theorem settled_named (o : Options) (n : Name) :
    Settled s (named o n) (Term.Checked D s) := by
  refine settled_scopes.bind fun s' hs' => ?_
  rw [hs']
  split
  · have himp : ∀ sym, s.resolveImplicit n.span = .ok sym → s.implicit? = some sym :=
      fun _ => implicit?_of_resolveImplicit
    refine (settled_ofExcept himp).bind fun sym hsym => settled_pure ?_
    exact checked_reference (.inl hsym) n.span
  · rename_i hn
    have hn : n.text ≠ implicitName := by simpa using hn
    split
    · rename_i sym hsym
      split
      · exact settled_pure (checked_ofScalar hD _ _)
      · rename_i i hi
        have hp : sym.isParameter = true := by simp [Symbol.isParameter, hi]
        exact settled_pure (checked_reference (.inr ⟨_, hD.named hn, hsym, hp⟩) n.span)
    · refine (settled_implicitTarget hs o n.span).bind fun it? hit => ?_
      split
      · obtain ⟨h, hv⟩ := hit _ rfl
        exact (settled_member hD hs h hv n.text n.span).mono fun _ he => he.1
      · exact settled_fail _ _

theorem settled_typeName (o : Options) (type : TypeName) :
    Settled s (typeName o type) (Term.Checked D s) := by
  refine (settled_shadowingTarget hs o _ _).bind fun it? hit => ?_
  split
  · obtain ⟨h, hv⟩ := hit _ rfl
    exact (settled_member hD hs h hv _ _).mono fun _ he => he.1
  · exact settled_fail _ _

theorem settled_memberOfType (o : Options) (owner : TypeName) (n : Name) (span : Span) :
    Settled s (memberOfType o owner n span) (Term.Checked D s) := by
  refine (settled_shadowingTarget hs o _ _).bind fun it? hit => ?_
  split
  · obtain ⟨h, hv⟩ := hit _ rfl
    refine (settled_member hD hs h hv _ _).bind fun target ht => ?_
    exact (settled_member hD hs ht.1.1 ht.2 _ _).mono fun _ he => he.1
  · exact settled_staticConstant hD owner.known n span

theorem yields_call (o : Options) (n : Name) (span : Span) (hn : D.call n.text)
    (hms : ∀ m ∈ ms, Sound D m) : Yields D s (call o n ms span) (Term.Checked D s) := by
  unfold call
  split
  · split
    · rename_i c a b
      exact yields_conditional hD hs span (hms c (by simp)) (hms a (by simp)) (hms b (by simp))
    · exact (settled_fail _ _).yields
  · refine settled_scopes.bind_yields fun s' hs' => ?_
    rw [hs']
    split
    · rename_i sym hsym
      obtain ⟨hl, hp⟩ := Option.filter_eq_some_iff.mp hsym
      have hden : s.Denotes D sym := .inr ⟨n.text, hn, hl, hp⟩
      exact yields_invoke hD hs (.parameter hden) n.text span hms
    · refine (settled_implicitTarget hs o n.span).bind_yields fun it? hit => ?_
      split
      · obtain ⟨h, hv⟩ := hit _ rfl
        exact yields_method hD hs h hv n.text span hms
      · exact (settled_fail _ _).yields

theorem yields_callOnType (o : Options) (owner : TypeName) (n : Name) (span : Span)
    (hms : ∀ m ∈ ms, Sound D m) :
    Yields D s (callOnType o owner n ms span) (Term.Checked D s) := by
  refine (settled_shadowingTarget hs o _ _).bind_yields fun it? hit => ?_
  split
  · obtain ⟨h, hv⟩ := hit _ rfl
    refine (settled_member hD hs h hv _ _).bind_yields fun target ht => ?_
    exact yields_method hD hs ht.1.1 ht.2 n.text span hms
  · exact yields_function hD hs owner.known n span hms

theorem yields_convertOrCall {allowed : Ty → Ty → Bool} (hcast : D.Grants allowed) (o : Options)
    (type : TypeName) (span : Span) (hms : ∀ m ∈ ms, Sound D m) :
    Yields D s (convertOrCallWhere allowed o type ms span) (Term.Checked D s) := by
  refine (settled_shadowingTarget hs o _ _).bind_yields fun it? hit => ?_
  split
  · obtain ⟨h, hv⟩ := hit _ rfl
    exact yields_method hD hs h hv _ span hms
  · exact yields_conversion hD hs hcast type.known span hms

end

/-! ### Expressions -/

variable {D : Discipline} {allowed : Ty → Ty → Bool}

mutual
/-- **What the checker yields is made by the rules of typing**, for every
regular expression and every lawful discipline that grants the conversions
allowed. -/
theorem sound_exprWhere (hD : D.Lawful) (hcast : D.Grants allowed) (o : Options) :
    ∀ e : Expr, e.Regular D.call → Sound D (exprWhere allowed o e)
  | .literal v written span, _ =>
    ⟨composed_literal _ _ _, fun s _ => (settled_literal hD v written span).yields⟩
  | .name n, _ => ⟨composed_named o n, fun s hs => (settled_named hD hs o n).yields⟩
  | .typeName type, _ => ⟨composed_typeName o type, fun s hs => (settled_typeName hD hs o type).yields⟩
  | .member target n span, h => by
    have ht := sound_exprWhere hD hcast o target h
    rcases exprWhere_member allowed o target n span with ⟨owner, -, h'⟩ | h' <;> rw [h']
    · exact ⟨composed_memberOfType o owner n span, fun s hs =>
        (settled_memberOfType hD hs o owner n span).yields⟩
    · refine ⟨(composed_value ht.composed).bind fun e => composed_member e _ span, fun s hs => ?_⟩
      refine (yields_value hD hs ht).bind (composed_value ht.composed)
        (fun e => composed_member e _ span) fun e he => ?_
      exact ((settled_member hD hs he.1.1 he.2 n.text span).mono fun _ he => he.1).yields
  | .index target arguments span, h => by
    have ht := sound_exprWhere hD hcast o target h.1
    have hms := sound_exprsWhere hD hcast o arguments h.2
    have hk (e : Term) : Composed (index e (exprsWhere allowed o arguments) span) :=
      composed_index e span fun m hm => (hms m hm).composed
    refine ⟨(composed_value ht.composed).bind hk, fun s hs => ?_⟩
    refine (yields_value hD hs ht).bind (composed_value ht.composed) hk fun e he => ?_
    exact yields_index hD hs he.1.1 he.2 span hms
  | .call n arguments span, h => by
    have hms := sound_exprsWhere hD hcast o arguments h.2
    refine ⟨composed_call o n span fun m hm => (hms m hm).composed, fun s hs => ?_⟩
    exact yields_call hD hs o n span h.1 hms
  | .callOn target n arguments span, h => by
    have ht := sound_exprWhere hD hcast o target h.1
    have hms := sound_exprsWhere hD hcast o arguments h.2
    have hk (e : Term) : Composed (method e n.text (exprsWhere allowed o arguments) span) :=
      composed_method e n.text span fun m hm => (hms m hm).composed
    rcases exprWhere_callOn allowed o target n arguments span with ⟨owner, -, h'⟩ | h' <;> rw [h']
    · exact ⟨composed_callOnType o owner n span fun m hm => (hms m hm).composed, fun s hs =>
        yields_callOnType hD hs o owner n span hms⟩
    · refine ⟨(composed_value ht.composed).bind hk, fun s hs => ?_⟩
      refine (yields_value hD hs ht).bind (composed_value ht.composed) hk fun e he => ?_
      exact yields_method hD hs he.1.1 he.2 n.text span hms
  | .conversion type arguments span, h => by
    have hms := sound_exprsWhere hD hcast o arguments h
    refine ⟨composed_convertOrCallWhere allowed o type span fun m hm => (hms m hm).composed,
      fun s hs => ?_⟩
    exact yields_convertOrCall hD hs hcast o type span hms
  | .unary op operand span, h => by
    have ht := sound_exprWhere hD hcast o operand h
    have hk (e : Term) : Composed (unary op e span) := composed_unary op e span
    refine ⟨(composed_value ht.composed).bind hk, fun s hs => ?_⟩
    refine (yields_value hD hs ht).bind (composed_value ht.composed) hk fun e he => ?_
    exact (settled_unary hD hs op he.1.1 he.2 span).yields
  | .binary op left right span, h => by
    have hl := sound_exprWhere hD hcast o left h.1
    have hr := sound_exprWhere hD hcast o right h.2
    have hk (l : Term) : Composed (value (exprWhere allowed o right) >>= fun r =>
        binary o op l r span) :=
      (composed_value hr.composed).bind fun r => composed_binary o op l r span
    refine ⟨(composed_value hl.composed).bind hk, fun s hs => ?_⟩
    refine (yields_value hD hs hl).bind (composed_value hl.composed) hk fun l hl => ?_
    refine (yields_value hD hs hr).bind (composed_value hr.composed)
      (fun r => composed_binary o op l r span) fun r hr => ?_
    exact (settled_binary hD hs o op hl.1.1 hl.2 hr.1.1 hr.2 span).yields
  | .conditional c a b span, h => by
    have hc := sound_exprWhere hD hcast o c h.1
    have ha := sound_exprWhere hD hcast o a h.2.1
    have hb := sound_exprWhere hD hcast o b h.2.2
    exact ⟨composed_conditional span hc.composed ha.composed hb.composed, fun s hs =>
      yields_conditional hD hs span hc ha hb⟩
  | .inList operand items span, h => by
    have hm := sound_exprWhere hD hcast o operand h.1
    have hms := sound_exprsWhere hD hcast o items h.2
    exact ⟨composed_inList span hm.composed fun m hm => (hms m hm).composed, fun s hs =>
      yields_inList hD hs span hm hms⟩
  | .inSource operand source span, h => by
    have hm := sound_exprWhere hD hcast o operand h.1
    have hn := sound_exprWhere hD hcast o source h.2
    exact ⟨composed_inSource span hm.composed hn.composed, fun s hs => yields_inSource hD hs span hm hn⟩
  | .newRecord names items span, h => by
    have hms := sound_exprsWhere hD hcast o items h.2
    have hl : names.length = (exprsWhere allowed o items).length := by
      rw [h.1, length_exprsWhere]
    exact ⟨composed_newRecord names span fun m hm => (hms m hm).composed, fun s hs =>
      yields_newRecord hD hs span hl hms⟩
  | .newArray type items span, h => by
    have hms := sound_exprsWhere hD hcast o items h
    exact ⟨composed_newArray type span fun m hm => (hms m hm).composed, fun s hs =>
      yields_newArray hD hs type span hms⟩

theorem sound_exprsWhere (hD : D.Lawful) (hcast : D.Grants allowed) (o : Options) :
    ∀ es : List Expr, Expr.AllRegular D.call es → ∀ m ∈ exprsWhere allowed o es, Sound D m
  | [], _, m, hm => by cases hm
  | e :: es, h, m, hm => by
    rcases List.mem_cons.mp hm with rfl | hm
    · exact sound_exprWhere hD hcast o e h.1
    · exact sound_exprsWhere hD hcast o es h.2 m hm
end

end Check

/-- **What an expression is checked to is made by the rules of typing**, if the
expression has no conversions but those granted, and the record types at the
end are ones that may occur. -/
theorem Expr.check_sound {D : Discipline} (hD : D.Lawful) {allowed : Ty → Ty → Bool}
    (hcast : D.Grants allowed) {e : Expr} {o : Options} {table : ParameterTable}
    {records records' : RecordCache} {body : Term} (he : e.Regular D.call)
    (ha : e.Avoids allowed o table records) (hs : (Scopes.ofTable table).Valued D)
    (hc : D.Covers records) (hc' : D.Agrees records')
    (h : e.check o table records = (.ok body, records')) :
    Term.Typed D (.ofTable table) body := by
  unfold check at h
  rcases hr : Check.expr o e ⟨records, .ofTable table⟩ with ⟨r, c⟩
  rw [hr] at h
  cases h
  unfold Avoids at ha
  rw [hr] at ha
  have hy := (Check.sound_exprWhere hD hcast o e he).yields (.ofTable table) hs
    ⟨records, .ofTable table⟩ rfl hc (by rw [ha]; exact hc')
  rw [ha] at hy
  exact (hy.2 body rfl).1

end QueryExpr
