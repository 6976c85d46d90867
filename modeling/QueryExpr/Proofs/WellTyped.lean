/-
# Checked expressions are well typed

Over a model in which no parameter, property, element or indexer is `Void`,
the checker yields nothing but well-typed terms, and a lambda put together
from one has a body of the type that it returns.

Key definitions: `Discipline.solid`, `Term.EveryPart`, `Term.WellTyped`,
`Target.type?`.
Key theorems: `Discipline.lawful_solid`, `Term.Typed.everyPart`,
`Lambda.assemble_cases`, `Lambda.assemble_typed`, `Expr.check_wellTyped`.
-/
import QueryExpr.Lambda
import QueryExpr.Proofs.CheckTyping

namespace QueryExpr

namespace Discipline

/-- The discipline of a model without `Void` where a value is wanted. A name
may be used for any parameter that has it, and a text may convert wherever a
conversion leads. -/
def solid : Discipline where
  type := Ty.Solid
  value t := t.isVoid = false
  null _ := True
  call _ := True
  cast s t := s.convertsExplicitly t = true

theorem lawful_solid : solid.Lawful where
  prim p := by simp [solid, Ty.Solid, Ty.ownProperties, Ty.element?, Ty.ownIndexers]
  nullable p := by simp [solid, Ty.Solid, Ty.ownProperties, Ty.element?, Ty.ownIndexers]
  ofNull := by simp [solid, Ty.Solid, Ty.ownProperties, Ty.element?, Ty.ownIndexers]
  sequence h := by simpa [solid, Ty.Solid, Ty.ownProperties, Ty.element?, Ty.ownIndexers] using h
  array h := by simpa [solid, Ty.Solid, Ty.ownProperties, Ty.element?, Ty.ownIndexers] using h
  valued h := h
  converted {t u} h hc := by
    cases u with
    | void =>
      have hv : t.isVoid = false := h
      rw [Ty.converts_void t hc] at hv
      cases hv
    | _ => rfl
  property h hp := h.1 _ hp
  element h he := h.2.1 _ he
  indexer h hs := h.2.2 _ hs
  named _ := trivial
  acceptsNull _ := trivial
  convertsNull _ _ _ _ := trivial
  castsNull _ _ := trivial
  castsNullType _ := trivial

theorem grants_solid (allowed : Ty → Ty → Bool) : solid.Grants allowed := fun _ _ _ h => h

/-- A record of properties that are not `Void` may occur. -/
theorem agrees_solid (c : RecordCache) : solid.Agrees c := fun r _ h =>
  ⟨h, fun _ he => by simp [RecordType.type, Ty.element?] at he, fun _ hs => by
    simp [RecordType.type, Ty.ownIndexers] at hs⟩

end Discipline

/-! ### Proper parts -/

namespace Term

mutual
/-- The property holds of every proper part of the term. -/
def EveryPart (P : Term → Prop) : Term → Prop
  | .constant .. | .parameter .. => True
  | .member target _ _ _ => P target ∧ target.EveryPart P
  | .index target arguments _ _ | .call target _ arguments _ _
  | .intrinsic _ target arguments _ _ =>
    (P target ∧ target.EveryPart P) ∧ EveryPartOfAll P arguments
  | .function _ arguments _ _ => EveryPartOfAll P arguments
  | .aggregate _ source _ _ => P source ∧ source.EveryPart P
  | .aggregateBy _ source body _ _ =>
    (P source ∧ source.EveryPart P) ∧ P body ∧ body.EveryPart P
  | .aggregateWith _ source argument _ _ =>
    (P source ∧ source.EveryPart P) ∧ P argument ∧ argument.EveryPart P
  | .convert operand _ _ | .unary _ operand _ _ => P operand ∧ operand.EveryPart P
  | .binary _ left right _ _ | .coalesce left right _ _ =>
    (P left ∧ left.EveryPart P) ∧ P right ∧ right.EveryPart P
  | .conditional condition whenTrue whenFalse _ _ =>
    (P condition ∧ condition.EveryPart P) ∧ (P whenTrue ∧ whenTrue.EveryPart P) ∧
      P whenFalse ∧ whenFalse.EveryPart P
  | .inList operand candidates _ _ =>
    (P operand ∧ operand.EveryPart P) ∧ EveryPartOfAll P candidates
  | .inSequence operand source _ _ =>
    (P operand ∧ operand.EveryPart P) ∧ P source ∧ source.EveryPart P
  | .newRecord values _ _ => EveryPartOfAll P values
  | .newArray elements _ _ => EveryPartOfAll P elements
  | .invoke delegate arguments _ _ =>
    (P delegate ∧ delegate.EveryPart P) ∧ EveryPartOfAll P arguments
termination_by structural e => e

/-- The property holds of the terms and of all their proper parts. -/
def EveryPartOfAll (P : Term → Prop) : List Term → Prop
  | [] => True
  | e :: es => (P e ∧ e.EveryPart P) ∧ EveryPartOfAll P es
termination_by structural es => es
end

variable {P : Term → Prop}

theorem everyPartOfAll_iff {es : List Term} :
    EveryPartOfAll P es ↔ ∀ e ∈ es, P e ∧ e.EveryPart P := by
  induction es with
  | nil => simp [EveryPartOfAll]
  | cons e es ih => simp [EveryPartOfAll, ih]

theorem EveryPart.convertTo {e : Term} (he : P e) (h : e.EveryPart P) (t : Ty) :
    (e.convertTo t).EveryPart P := by
  unfold Term.convertTo
  split
  · exact h
  · split
    · trivial
    · exact ⟨he, h⟩

/-- The proper parts of a term that is made by the rules have values. -/
theorem Typed.everyPart {D : Discipline} (hD : D.Lawful) {s : Scopes} {e : Term}
    (h : Typed D s e) : e.EveryPart fun u => D.value u.type := by
  induction h with
  | constant | parameter => trivial
  | member _ hv _ ih => exact ⟨hv, ih⟩
  | index _ hv _ hvs _ _ ih ihs | call _ hv _ hvs _ _ ih ihs | method _ hv _ hvs _ _ ih ihs =>
    exact ⟨⟨hv, ih⟩, everyPartOfAll_iff.mpr fun a ha => ⟨hvs a ha, ihs a ha⟩⟩
  | property _ hv _ ih => exact ⟨⟨hv, ih⟩, trivial⟩
  | function _ hvs _ _ ihs =>
    exact everyPartOfAll_iff.mpr fun a ha => ⟨hvs a ha, ihs a ha⟩
  | aggregate _ hv _ _ ih => exact ⟨hv, ih⟩
  | aggregateTest _ hv _ _ ht _ ih ihb => exact ⟨⟨hv, ih⟩, hD.valued (by rw [ht]; rfl), ihb⟩
  | aggregateSelect _ hv _ _ hbv _ _ ih ihb => exact ⟨⟨hv, ih⟩, hbv, ihb⟩
  | aggregateWith _ hv _ _ hav _ _ ih iha => exact ⟨⟨hv, ih⟩, hav, iha⟩
  | convert _ hv _ _ _ ih | negate _ hv _ _ ih | not _ hv _ _ ih => exact ⟨hv, ih⟩
  | arithmetic _ hlv _ hrv _ _ _ _ ihl ihr | concat _ hlv _ hrv ihl ihr
  | equality _ hlv _ hrv _ _ ihl ihr | ordering _ hlv _ hrv _ _ ihl ihr
  | logic _ hlv _ hrv _ _ _ ihl ihr | coalesce _ hlv _ hrv _ _ _ ihl ihr =>
    exact ⟨⟨hlv, ihl⟩, hrv, ihr⟩
  | conditional _ hct _ hav _ hbv _ _ _ ihc iha ihb =>
    exact ⟨⟨hD.valued (by rw [hct]; rfl), ihc⟩, ⟨hav, iha⟩, hbv, ihb⟩
  | @coalesceNull s l r span _ hlt _ hrv ihl ihr =>
    have hlv : D.value l.type := hD.valued (by rw [hlt]; rfl)
    exact ⟨⟨value_convertTo_of hlv hrv, ihl.convertTo hlv r.type⟩, hrv, ihr⟩
  | @inList s e es t span _ hv _ hvs _ htv _ ih ihs =>
    refine ⟨⟨value_convertTo_of hv htv, ih.convertTo hv t⟩, everyPartOfAll_iff.mpr fun a ha => ?_⟩
    obtain ⟨b, hb, rfl⟩ := List.mem_map.mp ha
    exact ⟨value_convertTo_of (hvs b hb) htv, (ihs b hb).convertTo (hvs b hb) t⟩
  | inSequence _ hv _ hsv _ _ ih ihs => exact ⟨⟨hv, ih⟩, hsv, ihs⟩
  | newRecord _ hvs _ _ ihs => exact everyPartOfAll_iff.mpr fun a ha => ⟨hvs a ha, ihs a ha⟩
  | newArray _ hts _ htv ihs =>
    refine everyPartOfAll_iff.mpr fun a ha => ⟨?_, ihs a ha⟩
    exact hD.converted htv (Ty.converts_of_beq (Ty.beq_symm (hts a ha)))
  | invoke _ _ hvs ht _ ih ihs =>
    exact ⟨⟨hD.valued (by rw [ht]; rfl), ih⟩, everyPartOfAll_iff.mpr fun a ha =>
      ⟨hvs a ha, ihs a ha⟩⟩

end Term

/-- The term is made by the rules of typing over a model without `Void`, and no
proper part of it is without a value. -/
def Term.WellTyped (s : Scopes) (e : Term) : Prop :=
  Typed .solid s e ∧ e.EveryPart fun u => u.type.isVoid = false

/-! ### Lambdas -/

/-- The type that a lambda is wanted to return, if any is given. -/
def Target.type? : Target → Option Ty
  | .inferred => none
  | .type t => some t
  | .delegate d => some d.returns

namespace Lambda

/-- A body that is converted to the wanted type has it, unless nothing is
wanted. -/
theorem convertBody_typed {D : Discipline} (hD : D.Lawful) {s : Scopes} (hs : s.Valued D)
    {body e : Term} {t : Ty} (h : Term.Typed D s body) (ht : D.Admits t)
    (he : convertBody body t = .ok e) :
    Term.Typed D s e ∧ (t.isVoid = true ∨ (e.type == t) = true) := by
  unfold convertBody at he
  split at he
  · split at he
    · cases he
      exact ⟨h, .inl (by assumption)⟩
    · cases he
  · split at he
    · cases he
    · rename_i hv
      split at he
      · rename_i e' hc
        cases he
        unfold Term.coerce? at hc
        split at hc <;> cases hc
        rename_i ha
        have hv : D.value body.type := hD.valued (by simpa using hv)
        exact ⟨h.convertTo hD hs hv ht ha, .inr (body.type_convertTo_beq t)⟩
      · cases he

/-- What a lambda is put together from: its parameters, and either the body
itself or the body converted to the wanted type. -/
theorem assemble_cases {parameters : List Declaration} {body : Term} {target : Target} {f : Lambda}
    (h : assemble parameters body target = .ok f) :
    f.parameters = parameters ∧
      (f.body = body ∧ f.returns = body.type ∨
        ∃ t, target.type? = some t ∧ f.returns = t ∧ convertBody body t = .ok f.body) := by
  have converted (t delegate : Ty)
      (h : (do
        let body ← convertBody body t
        return ⟨parameters, body, t, delegate⟩ : Except Failure Lambda) = .ok f) :
      f.parameters = parameters ∧ f.returns = t ∧ convertBody body t = .ok f.body := by
    cases hb : convertBody body t <;> rw [hb] at h <;> cases h
    exact ⟨rfl, rfl, rfl⟩
  cases target with
  | inferred =>
    cases h
    exact ⟨rfl, .inl ⟨rfl, rfl⟩⟩
  | type t =>
    obtain ⟨hp, hr, hb⟩ := converted _ _ h
    exact ⟨hp, .inr ⟨t, rfl, hr, hb⟩⟩
  | delegate d =>
    cases hc : checkParameters d parameters <;> simp only [assemble, hc] at h
    · cases h
    · obtain ⟨hp, hr, hb⟩ := converted _ _ h
      exact ⟨hp, .inr ⟨d.returns, rfl, hr, hb⟩⟩

/-- A lambda has a body of the type that it returns, unless it returns nothing. -/
theorem assemble_typed {D : Discipline} (hD : D.Lawful) {s : Scopes} (hs : s.Valued D)
    {parameters : List Declaration} {body : Term} {target : Target} {f : Lambda}
    (h : Term.Typed D s body) (ht : ∀ t, target.type? = some t → D.Admits t)
    (hf : assemble parameters body target = .ok f) :
    Term.Typed D s f.body ∧ (f.returns.isVoid = true ∨ (f.body.type == f.returns) = true) := by
  obtain ⟨-, ⟨hb, hr⟩ | ⟨t, htt, hr, hb⟩⟩ := assemble_cases hf
  · rw [hb, hr]
    exact ⟨h, .inr (Ty.beq_refl _)⟩
  · rw [hr]
    exact convertBody_typed hD hs h (ht t htt) hb

end Lambda

/-- **The checker yields well-typed terms, and lambdas of them are well typed.**
The parameters, the record types made so far and the wanted type come from a
model without `Void`; of the expression it is asked that every value of a
projection has a name, as it does in every text. -/
theorem Expr.check_wellTyped {e : Expr} {o : Options} {table : ParameterTable}
    {records records' : RecordCache} {body : Term} (he : e.Regular fun _ => True)
    (hp : ∀ d ∈ table.parameters, d.type.Throughout Ty.Solid ∧ d.type.isVoid = false)
    (hr : ∀ r ∈ records.entries, r.type.Throughout Ty.Solid)
    (h : e.check o table records = (.ok body, records')) :
    body.WellTyped (.ofTable table) ∧
      ∀ (parameters : List Declaration) (target : Target) (f : Lambda),
        (∀ t, target.type? = some t → t.Throughout Ty.Solid) →
        Lambda.assemble parameters body target = .ok f →
        f.body.WellTyped (.ofTable table) ∧
          (f.returns.isVoid = true ∨ (f.body.type == f.returns) = true) := by
  have hD := Discipline.lawful_solid
  have hs : (Scopes.ofTable table).Valued .solid := ⟨hp, List.forall_mem_nil _⟩
  have hb : Term.Typed .solid (.ofTable table) body :=
    check_sound hD (Discipline.grants_solid _) he (e.avoids_none o table records) hs hr
      (Discipline.agrees_solid _) h
  refine ⟨⟨hb, hb.everyPart hD⟩, fun parameters target f ht hf => ?_⟩
  obtain ⟨hf, hft⟩ := Lambda.assemble_typed hD hs hb ht hf
  exact ⟨⟨hf, hf.everyPart hD⟩, hft⟩

/-- The rules hold of `Age + 1` over a host object with an age. -/
theorem Expr.check_wellTyped_age :
    let person : Ty := .cls "Person" [("Age", .prim (.int .int64))] [] [] none none false
    let table : ParameterTable := ⟨[⟨"", person⟩], some 0⟩
    let e : Expr := .binary .add (.name ⟨"Age", ⟨0, 3⟩⟩)
      (.literal (.integer 1 false .none) "1" ⟨6, 1⟩) ⟨0, 7⟩
    ∃ body records, e.check {} table .empty = (.ok body, records) ∧
      body.WellTyped (.ofTable table) := by
  intro person table e
  rcases h : e.check {} table .empty with ⟨f | body, records⟩
  · have hok : (e.check {} table .empty).1.toOption.isSome = true := by decide +kernel
    rw [h] at hok
    cases hok
  refine ⟨body, records, rfl,
    (check_wellTyped ?_ (fun d hd => ?_) (List.forall_mem_nil _) h).1⟩
  · exact ⟨trivial, trivial⟩
  rw [List.mem_singleton.mp hd]
  refine ⟨.of_parts ?_ fun u hu => ?_, rfl⟩
  · simp [person, Ty.Solid, Ty.ownProperties, Ty.element?, Ty.ownIndexers, Ty.isVoid]
  · rw [List.mem_singleton.mp hu]
    exact Discipline.lawful_solid.admits_prim _
end QueryExpr
