/-
# The rules of typing

What a checked expression is made of, told without the checker: one rule for
each form says what its parts are and which types they have.

A conversion is written out where a term is used as a type that it converts
to. Two places go further. The operand and the candidates of `in` are brought
to a common type that they lead to in several steps, and the left side of `??`
may be a null that is given the type of the right side.

Key definitions: `Term.HaveTypes`, `Ty.Leads`, `Term.Typed`.
Key theorems: `Term.Typed.admits`, `Term.Typed.convertTo`,
`Term.Typed.withSpan`.
-/
import Mathlib.Data.List.Forall2
import QueryExpr.Proofs.Disciplines

namespace QueryExpr

/-- The terms have the given types, one by one. -/
def Term.HaveTypes : List Term → List Ty → Prop :=
  List.Forall₂ fun e t => (e.type == t) = true

/-- The first type leads to the second by conversions through types that may
occur. -/
inductive Ty.Leads (D : Discipline) : Ty → Ty → Prop
  | refl {t : Ty} : Leads D t t
  | step {t u v : Ty} : t.converts u = true → D.Admits u → Leads D u v → Leads D t v

/-- The operators of arithmetic. -/
def Operation.isArithmetic : Operation → Bool
  | .add | .subtract | .multiply | .divide | .modulo => true
  | _ => false

/-- **The rules of typing**: the term is made as its form asks, and its proper
parts have values. -/
inductive Term.Typed (D : Discipline) : Scopes → Term → Prop
  | constant {s : Scopes} {v : Scalar} {t : Ty} {span : Span} :
      D.Admits t → v.naturalType = t ∨ v = .null ∧ D.null t → Typed D s (.constant v t span)
  | parameter {s : Scopes} {sym : Symbol} {span : Span} :
      s.Denotes D sym → Typed D s (Check.reference sym span)
  | member {s : Scopes} {e : Term} {n : String} {t : Ty} {span : Span} :
      Typed D s e → D.value e.type → e.type.member? n = some t → Typed D s (.member e n t span)
  | index {s : Scopes} {e : Term} {es : List Term} {sig : Signature} {span : Span} :
      Typed D s e → D.value e.type → (∀ a ∈ es, Typed D s a) → (∀ a ∈ es, D.value a.type) →
      sig ∈ Check.indexers e.type → HaveTypes es sig.parameters →
      Typed D s (.index e es sig.returns span)
  | call {s : Scopes} {e : Term} {n : String} {es : List Term} {sig : Signature} {span : Span} :
      Typed D s e → D.value e.type → (∀ a ∈ es, Typed D s a) → (∀ a ∈ es, D.value a.type) →
      sig ∈ e.type.methods n → HaveTypes es sig.parameters →
      Typed D s (.call e n es sig.returns span)
  | property {s : Scopes} {e : Term} {n : String} {op : Intrinsic} {t : Ty} {span : Span} :
      Typed D s e → D.value e.type → Builtin.property? e.type n = some (op, t) →
      Typed D s (.intrinsic op e [] t span)
  | method {s : Scopes} {e : Term} {n : String} {es : List Term} {b : Builtin} {span : Span} :
      Typed D s e → D.value e.type → (∀ a ∈ es, Typed D s a) → (∀ a ∈ es, D.value a.type) →
      b ∈ Builtin.methods e.type n → HaveTypes es b.parameters →
      Typed D s (.intrinsic b.op e es b.returns span)
  | function {s : Scopes} {owner : KnownType} {n : String} {es : List Term} {b : Builtin}
      {span : Span} :
      (∀ a ∈ es, Typed D s a) → (∀ a ∈ es, D.value a.type) →
      b ∈ Builtin.functions owner n → HaveTypes es b.parameters →
      Typed D s (.function b.op es b.returns span)
  | aggregate {s : Scopes} {op : Aggregate} {source : Term} {element t : Ty} {span : Span} :
      Typed D s source → D.value source.type → source.type.element? = some element →
      op.plain? element = some t → Typed D s (.aggregate op source t span)
  | aggregateTest {s : Scopes} {op : Aggregate} {source test : Term} {element t : Ty}
      {span : Span} :
      Typed D s source → D.value source.type → source.type.element? = some element →
      Typed D (s.push element) test → test.type = .boolean → op.tested? element = some t →
      Typed D s (.aggregateBy op source test t span)
  | aggregateSelect {s : Scopes} {op : Aggregate} {source body : Term} {element t : Ty}
      {span : Span} :
      Typed D s source → D.value source.type → source.type.element? = some element →
      Typed D (s.push element) body → D.value body.type →
      op.selected? element body.type = some t →
      (∀ u, op.input? body.type = some u → u = body.type) →
      Typed D s (.aggregateBy op source body t span)
  | aggregateWith {s : Scopes} {op : Aggregate} {source argument : Term} {element t u : Ty}
      {span : Span} :
      Typed D s source → D.value source.type → source.type.element? = some element →
      Typed D s argument → D.value argument.type → op.taken? element = some (u, t) →
      (argument.type == u) = true → Typed D s (.aggregateWith op source argument t span)
  | convert {s : Scopes} {e : Term} {t : Ty} {span : Span} :
      Typed D s e → D.value e.type → D.Admits t → (e.type == t) = false →
      e.isAssignable t = true ∨ D.cast e.type t → Typed D s (.convert e t span)
  | negate {s : Scopes} {e : Term} {t : Ty} {span : Span} :
      Typed D s e → D.value e.type → e.type = t → t.negation? = some t →
      Typed D s (.unary .negate e t span)
  | not {s : Scopes} {e : Term} {t : Ty} {span : Span} :
      Typed D s e → D.value e.type → e.type = t → t.isBoolean = true →
      Typed D s (.unary .not e t span)
  | arithmetic {s : Scopes} {op : Operation} {l r : Term} {p : Prim} {n : Bool} {span : Span} :
      Typed D s l → D.value l.type → Typed D s r → D.value r.type →
      op.isArithmetic = true → p ∈ Ty.promotions → l.type = .lift p n → r.type = .lift p n →
      Typed D s (.binary op l r (.lift p n) span)
  | concat {s : Scopes} {l r : Term} {span : Span} :
      Typed D s l → D.value l.type → Typed D s r → D.value r.type →
      Typed D s (.binary .concat l r .string span)
  | equality {s : Scopes} {op : Operation} {l r : Term} {span : Span} :
      Typed D s l → D.value l.type → Typed D s r → D.value r.type →
      op = .equal ∨ op = .notEqual → (l.type == r.type) = true →
      Typed D s (.binary op l r .boolean span)
  | ordering {s : Scopes} {op : Operation} {l r : Term} {span : Span} :
      Typed D s l → D.value l.type → Typed D s r → D.value r.type →
      op.isOrdering = true → l.type = r.type → Typed D s (.binary op l r .boolean span)
  | logic {s : Scopes} {op : Operation} {l r : Term} {n : Bool} {span : Span} :
      Typed D s l → D.value l.type → Typed D s r → D.value r.type →
      op = .andAlso ∨ op = .orElse → l.type = .lift .boolean n → r.type = .lift .boolean n →
      Typed D s (.binary op l r (.lift .boolean n) span)
  | conditional {s : Scopes} {c a b : Term} {t : Ty} {span : Span} :
      Typed D s c → c.type = .boolean → Typed D s a → D.value a.type → Typed D s b →
      D.value b.type → D.Admits t → (a.type == t) = true → (b.type == t) = true →
      Typed D s (.conditional c a b t span)
  | coalesce {s : Scopes} {l r : Term} {t : Ty} {span : Span} :
      Typed D s l → D.value l.type → Typed D s r → D.value r.type → l.type.acceptsNull = true →
      t = l.type ∨ t = l.type.nonNullable → (r.type == t) = true →
      Typed D s (.coalesce l r t span)
  | coalesceNull {s : Scopes} {l r : Term} {span : Span} :
      Typed D s l → l.type = .null → Typed D s r → D.value r.type →
      Typed D s (.coalesce (l.convertTo r.type) r r.type span)
  | inList {s : Scopes} {e : Term} {es : List Term} {t : Ty} {span : Span} :
      Typed D s e → D.value e.type → (∀ a ∈ es, Typed D s a) → (∀ a ∈ es, D.value a.type) →
      D.Admits t → D.value t →
      (∀ a ∈ e :: es, ∃ u, a.isAssignable u = true ∧ D.Admits u ∧ u.Leads D t) →
      Typed D s (.inList (e.convertTo t) (es.map (·.convertTo t)) .boolean span)
  | inSequence {s : Scopes} {e source : Term} {element : Ty} {span : Span} :
      Typed D s e → D.value e.type → Typed D s source → D.value source.type →
      source.type.element? = some element → (e.type == element) = true →
      Typed D s (.inSequence e source .boolean span)
  | newRecord {s : Scopes} {es : List Term} {id : Nat} {ps : Properties} {span : Span} :
      (∀ a ∈ es, Typed D s a) → (∀ a ∈ es, D.value a.type) → D.Admits (.record id ps) →
      HaveTypes es (ps.map (·.2)) → Typed D s (.newRecord es (.record id ps) span)
  | newArray {s : Scopes} {es : List Term} {t : Ty} {span : Span} :
      (∀ a ∈ es, Typed D s a) → (∀ a ∈ es, (a.type == t) = true) → D.Admits t → D.value t →
      Typed D s (.newArray es (.array t) span)
  | invoke {s : Scopes} {e : Term} {es : List Term} {name : Option String} {ns : List String}
      {ts : List Ty} {t : Ty} {span : Span} :
      Typed D s e → (∀ a ∈ es, Typed D s a) → (∀ a ∈ es, D.value a.type) →
      e.type = .delegate name ns ts t → HaveTypes es ts → Typed D s (.invoke e es t span)

namespace Term.Typed

variable {D : Discipline} {s : Scopes} {e : Term}

/-- A term stays what it is when it is read from another place. -/
theorem withSpan (h : Typed D s e) (span : Span) : Typed D s (e.withSpan span) := by
  cases h with
  | constant ht hv => exact .constant ht hv
  | parameter h => exact .parameter h
  | member h hv hm => exact .member h hv hm
  | index h hv has hvs hs ht => exact .index h hv has hvs hs ht
  | call h hv has hvs hs ht => exact .call h hv has hvs hs ht
  | property h hv hp => exact .property h hv hp
  | method h hv has hvs hb ht => exact .method h hv has hvs hb ht
  | function has hvs hb ht => exact .function has hvs hb ht
  | aggregate h hv he hp => exact .aggregate h hv he hp
  | aggregateTest h hv he hb ht hp => exact .aggregateTest h hv he hb ht hp
  | aggregateSelect h hv he hb hbv hp hi => exact .aggregateSelect h hv he hb hbv hp hi
  | aggregateWith h hv he ha hav hp ht => exact .aggregateWith h hv he ha hav hp ht
  | convert h hv ht hn hc => exact .convert h hv ht hn hc
  | negate h hv ht hn => exact .negate h hv ht hn
  | not h hv ht hb => exact .not h hv ht hb
  | arithmetic hl hlv hr hrv ho hp htl htr => exact .arithmetic hl hlv hr hrv ho hp htl htr
  | concat hl hlv hr hrv => exact .concat hl hlv hr hrv
  | equality hl hlv hr hrv ho ht => exact .equality hl hlv hr hrv ho ht
  | ordering hl hlv hr hrv ho ht => exact .ordering hl hlv hr hrv ho ht
  | logic hl hlv hr hrv ho htl htr => exact .logic hl hlv hr hrv ho htl htr
  | conditional hc hct ha hav hb hbv ht hat hbt =>
    exact .conditional hc hct ha hav hb hbv ht hat hbt
  | coalesce hl hlv hr hrv hn ht hrt => exact .coalesce hl hlv hr hrv hn ht hrt
  | coalesceNull hl hlt hr hrv => exact .coalesceNull hl hlt hr hrv
  | inList h hv has hvs ht htv hl => exact .inList h hv has hvs ht htv hl
  | inSequence h hv hs hsv he ht => exact .inSequence h hv hs hsv he ht
  | newRecord has hvs ht hts => exact .newRecord has hvs ht hts
  | newArray has hts ht htv => exact .newArray has hts ht htv
  | invoke h has hvs ht hts => exact .invoke h has hvs ht hts

/-- **The type of a term is one that may occur**, if the types in scope are. -/
theorem admits (hD : D.Lawful) (hs : s.Valued D) (h : Typed D s e) : D.Admits e.type := by
  induction h with
  | constant ht => exact ht
  | parameter h => exact (h.type hs).1
  | member _ _ hm ih => exact (ih hs).member hm
  | index _ _ _ _ hi _ ih => exact (hD.admits_indexer (ih hs) hi).1.1
  | call _ _ _ _ hm _ ih => exact ((ih hs).methods hm).1
  | property _ _ hp =>
    obtain ⟨p, rfl⟩ := Builtin.property?_prim hp
    exact hD.admits_prim p
  | method _ _ _ _ hb =>
    obtain ⟨⟨p, hp⟩, -⟩ := Builtin.isPrimitive_methods hb
    exact hp ▸ hD.admits_prim p
  | function _ _ hb =>
    obtain ⟨⟨p, hp⟩, -⟩ := Builtin.isPrimitive_functions hb
    exact hp ▸ hD.admits_prim p
  | aggregate _ _ he hp ih => exact hD.admits_plain? ((ih hs).element he) hp
  | aggregateTest _ _ he _ _ hp ih =>
    have := ih hs
    exact hD.admits_tested? (this.element he) (hD.element this.here he) hp
  | aggregateSelect _ _ he _ hbv hp _ ih ihb =>
    have ht := (ih hs).element he
    have hv := hD.element (ih hs).here he
    exact hD.admits_selected? ht hv (ihb (hs.push ht hv)) hbv hp
  | aggregateWith _ _ he _ _ hp _ ih =>
    exact (hD.admits_taken? ((ih hs).element he) (hD.element (ih hs).here he) hp).2.2
  | convert _ _ ht => exact ht
  | negate _ _ ht _ ih | not _ _ ht _ ih => exact ht ▸ ih hs
  | arithmetic => exact hD.admits_lift _ _
  | concat => exact hD.admits_prim _
  | equality | ordering => exact hD.admits_prim _
  | logic => exact hD.admits_lift _ _
  | conditional _ _ _ _ _ _ ht => exact ht
  | coalesce _ _ _ _ _ ht _ ihl =>
    rcases ht with rfl | rfl
    · exact ihl hs
    · exact hD.admits_nonNullable (ihl hs)
  | coalesceNull _ _ _ _ _ ihr => exact ihr hs
  | inList | inSequence => exact hD.admits_prim _
  | newRecord _ _ ht => exact ht
  | newArray _ _ ht htv => exact hD.admits_array ht htv
  | invoke _ _ _ ht _ ih =>
    have := ih hs
    rw [ht] at this
    exact this.part List.mem_cons_self

/-! ### Conversions -/

/-- The constant null has a type that allows it. -/
theorem null_type (hD : D.Lawful) (h : Typed D s e) (hn : e.isNullConstant = true) :
    D.null e.type := by
  cases h with
  | constant _ hv =>
    rcases hv with hv | ⟨-, hv⟩
    · unfold isNullConstant at hn
      split at hn
      · rename_i he
        cases he
        subst hv
        exact hD.acceptsNull rfl
      · cases hn
    · exact hv
  | _ => cases hn

theorem isAssignable_null {t : Ty} (hn : e.isNullConstant = true) (h : e.isAssignable t = true) :
    e.type.converts t = true := by
  rcases isAssignable_iff.mp h with h | h
  · exact h
  · unfold isNullConstant at hn
    split at hn
    · simp [fits, integralConstant?, Scalar.integral?] at h
    · cases hn

theorem value_convertTo_of {t : Ty} (hv : D.value e.type) (ht : D.value t) :
    D.value (e.convertTo t).type := by
  rw [type_convertTo]
  split
  · exact hv
  · exact ht

theorem value_convertTo (hD : D.Lawful) {t : Ty} (hv : D.value e.type)
    (ha : e.isAssignable t = true) : D.value (e.convertTo t).type :=
  value_convertTo_of hv (hD.value_of_isAssignable hv ha)

/-- **A term may be converted to what it may stand for.** -/
theorem convertTo (hD : D.Lawful) (hs : s.Valued D) {t : Ty} (h : Typed D s e)
    (hv : D.value e.type) (ht : D.Admits t) (ha : e.isAssignable t = true) :
    Typed D s (e.convertTo t) := by
  unfold Term.convertTo
  split
  · exact h
  · rename_i hne
    split
    · rename_i hn
      have hc := isAssignable_null hn ha
      exact .constant ht (.inr ⟨rfl, hD.convertsNull (h.admits hD hs) ht (h.null_type hD hn) hc⟩)
    · exact .convert h hv ht (by simpa using hne) (.inl ha)

end Term.Typed
end QueryExpr
