/-
# Conversions over two caches

What is asked of a type or of a term has the same answer for the one that it
corresponds to: whether it converts to another type, what it costs to pass it, which
overload takes it. Where the answer is a type, it is the corresponding one.

Key definitions: `Term.Corresponds`.
Key theorems: `Caches.Sound.converts`, `Caches.Sound.unify?`,
`Caches.Sound.selectOverload`.
-/
import QueryExpr.Proofs.RenumberedTypes

namespace QueryExpr

variable {ts : List Ty} {w w' : Caches} {t t' u u' : Ty}

namespace Ty

/-- The types correspond, or both are missing. -/
abbrev CorrespondOption (ts : List Ty) (w : Caches) : Option Ty → Option Ty → Prop :=
  Option.Rel (Corresponds ts w)

/-- What has no parts is declared from the start. -/
theorem known_of_leaf (h : t.parts = []) (ht : t.Known ts .empty) :
    t.Throughout (Known ts .empty) :=
  .of_parts ht fun u hu => by rw [h] at hu; cases hu

theorem member?_record (id : Nat) (ps : Properties) (n : String) :
    (record id ps).member? n = ps.lookup n := by
  show ([record id ps].findSome? fun u => u.ownProperties.lookup n) = ps.lookup n
  rw [List.findSome?_singleton]
  rfl

end Ty

theorem Properties.Correspond.lookup {ps qs : Properties} (h : ps.Correspond ts w qs)
    (n : String) : Ty.CorrespondOption ts w (ps.lookup n) (qs.lookup n) := by
  induction h with
  | nil => exact .none
  | @cons p q _ _ hp _ ih =>
    obtain ⟨m, t⟩ := p
    obtain ⟨m', u⟩ := q
    obtain ⟨rfl, htu⟩ := hp
    rw [List.lookup_cons, List.lookup_cons]
    cases n == m with
    | true => exact .some htu
    | false => exact ih

namespace Ty
namespace Corresponds

theorem prim (p : Prim) : Corresponds ts w (.prim p) (.prim p) := .same (known_of_leaf rfl trivial)

theorem nullable (p : Prim) : Corresponds ts w (.nullable p) (.nullable p) :=
  .same (known_of_leaf rfl trivial)

theorem null : Corresponds ts w .null .null := .same (known_of_leaf rfl trivial)

theorem lift (p : Prim) (n : Bool) : Corresponds ts w (.lift p n) (.lift p n) := by
  cases n
  · exact prim p
  · exact nullable p

theorem map_lift (p : Option Prim) (n : Bool) :
    CorrespondOption ts w (p.map (Ty.lift · n)) (p.map (Ty.lift · n)) := by
  cases p with
  | none => exact .none
  | some p => exact .some (lift p n)

section
variable (h : t.Corresponds ts w t')
include h

/-! ### What a type is -/

theorem isVoid : t.isVoid = t'.isVoid := by cases h <;> rfl

theorem isNull : t.isNull = t'.isNull := by cases h <;> rfl

theorem isString : t.isString = t'.isString := by cases h <;> rfl

theorem isNullable : t.isNullable = t'.isNullable := by cases h <;> rfl

theorem primitive? : t.primitive? = t'.primitive? := by cases h <;> rfl

theorem acceptsNull : t.acceptsNull = t'.acceptsNull := by cases h <;> rfl

theorem isBoolean : t.isBoolean = t'.isBoolean := by rw [Ty.isBoolean, h.primitive?, Ty.isBoolean]

theorem nonNullable : t.nonNullable.Corresponds ts w t'.nonNullable := by
  cases h with
  | same ht =>
    cases t with
    | nullable p => exact prim p
    | _ => exact .same ht
  | sequence h => exact .sequence h
  | array h => exact .array h
  | record hi hj hdi hdj hn ht => exact .record hi hj hdi hdj hn ht

theorem toNullable? : CorrespondOption ts w t.toNullable? t'.toNullable? := by
  cases h with
  | same ht =>
    cases t with
    | prim p =>
      rw [Ty.toNullable?]
      split
      · exact .some (nullable p)
      · exact .some (prim p)
    | _ =>
      unfold Ty.toNullable?
      dsimp only
      split
      · exact .some (.same ht)
      · exact .none
  | sequence h => exact .some (.sequence h)
  | array h => exact .some (.array h)
  | record hi hj hdi hdj hn ht => exact .some (.record hi hj hdi hdj hn ht)

theorem element? : CorrespondOption ts w t.element? t'.element? := by
  cases h with
  | same ht =>
    cases he : t.element? with
    | none => exact .none
    | some e => exact .some (.same (ht.element he))
  | sequence h | array h => exact .some h
  | record => exact .none

theorem bases : List.Forall₂ (Corresponds ts w) t.bases t'.bases := by
  cases h with
  | same ht =>
    refine of_mem_given fun u hu => ht.chain u (List.mem_cons_of_mem _ hu)
  | _ => exact .nil

theorem negation? : CorrespondOption ts w t.negation? t'.negation? := by
  unfold Ty.negation?
  rw [h.primitive?, h.isNullable]
  exact map_lift _ _

theorem accumulator? : CorrespondOption ts w t.accumulator? t'.accumulator? := by
  unfold Ty.accumulator?
  rw [h.primitive?, h.isNullable]
  exact map_lift _ _

theorem promote? (h' : u.Corresponds ts w u') (arithmetic : Bool) :
    CorrespondOption ts w (Ty.promote? t u arithmetic) (Ty.promote? t' u' arithmetic) := by
  unfold Ty.promote?
  rw [h.primitive?, h'.primitive?, h.isNullable, h'.isNullable]
  cases t'.primitive? with
  | none => exact .none
  | some p =>
    cases u'.primitive? with
    | none => exact .none
    | some q =>
      dsimp only
      split
      · exact .none
      · split
        · exact .some (lift p _)
        · exact map_lift _ _

/-! ### Members -/

theorem member? (n : String) : CorrespondOption ts w (t.member? n) (t'.member? n) := by
  cases h with
  | same ht =>
    cases hm : t.member? n with
    | none => exact .none
    | some u => exact .some (.same (ht.member hm))
  | record _ _ _ _ hn hts =>
    rw [member?_record, member?_record]
    exact (Properties.correspond_of_names hn hts).lookup n
  | _ => exact .none

theorem methods (n : String) : t.methods n = t'.methods n := by cases h <;> rfl

theorem builtinMethods (n : String) : Builtin.methods t n = Builtin.methods t' n := by
  cases h <;> rfl

theorem property? (n : String) : Builtin.property? t n = Builtin.property? t' n := by
  cases h with
  | array => unfold Builtin.property?; split <;> simp_all
  | _ => rfl

end
end Corresponds
end Ty

namespace Caches.Sound

variable (hw : w.Sound ts) (ht : t.Corresponds ts w t') (hu : u.Corresponds ts w u')
include hw ht hu

theorem isBaseOf : Ty.isBaseOf t u = Ty.isBaseOf t' u' := by
  have hbases := hu.bases
  unfold Ty.isBaseOf
  generalize u.bases = us, u'.bases = us' at hbases
  induction hbases with
  | nil => rfl
  | cons hb _ ih => rw [List.any_cons, List.any_cons, ih, hw.beq hb ht]

theorem convertsByReference : Ty.convertsByReference t u = Ty.convertsByReference t' u' := by
  have hbase := hw.isBaseOf hu ht
  have hobject : (u == .object) = (u' == .object) := hw.beq hu (.prim _)
  unfold Ty.convertsByReference
  rw [hw.beq ht hu, ht.acceptsNull, hobject]
  cases ht with
  | same =>
    cases t with
    | cls => dsimp only; rw [hbase]
    | _ => rfl
  | _ => rfl

theorem converts : t.converts u = t'.converts u' := by
  have hbase := hw.isBaseOf hu ht
  have hnull := hu.acceptsNull
  have reference {e e' f f' : Ty} (he : e.Corresponds ts w e') (hf : f.Corresponds ts w f') :
      Ty.convertsByReference e f = Ty.convertsByReference e' f' := hw.convertsByReference he hf
  unfold Ty.converts
  rw [hw.beq ht hu]
  congr 1
  -- a declared type may be told from one that was made, but not by how it converts: if it
  -- is no class, all there is to ask for is its element
  cases ht with
  | same ht =>
    cases hu with
    | same => rfl
    | sequence hf =>
      cases t with
      | array e | sequence e => exact reference (.same (ht.element rfl)) hf
      | cls n ps ms is e b v =>
        cases e with
        | none => exact hbase
        | some e =>
          dsimp only
          rw [hbase, reference (.same (ht.element rfl)) hf]
      | _ => rfl
    | array hf =>
      cases t with
      | array e =>
        dsimp only
        rw [reference (.same (ht.element rfl)) hf]
      | cls n ps ms is e b v => cases e <;> exact hbase
      | _ => rfl
    | record =>
      cases t with
      | cls n ps ms is e b v => cases e <;> exact hbase
      | _ => rfl
  | sequence he =>
    cases hu with
    | same hu =>
      cases u with
      | prim p => cases p <;> rfl
      | sequence f => exact reference he (.same (hu.element rfl))
      | _ => rfl
    | sequence hf => exact reference he hf
    | _ => rfl
  | array he =>
    cases hu with
    | same hu =>
      cases u with
      | prim p => cases p <;> rfl
      | sequence f => exact reference he (.same (hu.element rfl))
      | array f =>
        dsimp only
        rw [reference he (.same (hu.element rfl)), he.acceptsNull]
      | _ => rfl
    | sequence hf => exact reference he hf
    | array hf =>
      dsimp only
      rw [reference he hf, he.acceptsNull]
    | _ => rfl
  | record =>
    cases hu with
    | same hu =>
      cases u with
      | prim p => cases p <;> rfl
      | _ => rfl
    | _ => rfl

theorem conversionCost? : Ty.conversionCost? t u = Ty.conversionCost? t' u' := by
  rw [Ty.conversionCost?, hw.beq ht hu, hw.converts ht hu, Ty.conversionCost?]

theorem convertsExplicitly : t.convertsExplicitly u = t'.convertsExplicitly u' := by
  have hobject : (t == .object) = (t' == .object) := hw.beq ht (.prim _)
  rw [Ty.convertsExplicitly, hw.converts ht hu, ht.isVoid, hu.isVoid, ht.primitive?,
    hu.primitive?, hobject, hw.isBaseOf ht hu, Ty.convertsExplicitly]

end Caches.Sound

/-! ### Terms -/

/-- The types of the terms correspond, and they are the same constants where a
conversion asks for one. -/
structure Term.Corresponds (ts : List Ty) (w : Caches) (e e' : Term) : Prop where
  type : e.type.Corresponds ts w e'.type
  isNullConstant : e.isNullConstant = e'.isNullConstant
  integralConstant? : e.integralConstant? = e'.integralConstant?

namespace Term.Corresponds

variable {e e' : Term}

theorem mono (hg : w.Grows w') (h : e.Corresponds ts w e') : e.Corresponds ts w' e' :=
  ⟨h.type.mono hg, h.isNullConstant, h.integralConstant?⟩

/-- The same constant corresponds to itself. -/
theorem ofScalar (v : Scalar) (span span' : Span) :
    (Term.ofScalar v span).Corresponds ts w (.ofScalar v span') := by
  refine ⟨?_, ?_, ?_⟩
  · cases v with
    | null => exact .null
    | _ => exact .prim _
  · cases v <;> rfl
  · cases v <;> rfl

theorem withSpan {span span' : Span} (h : e.Corresponds ts w e') :
    (e.withSpan span).Corresponds ts w (e'.withSpan span') := by
  have isNull (e : Term) (span : Span) :
      (e.withSpan span).isNullConstant = e.isNullConstant := by
    cases e with
    | constant v => cases v <;> rfl
    | _ => rfl
  have integral (e : Term) (span : Span) :
      (e.withSpan span).integralConstant? = e.integralConstant? := by
    cases e <;> rfl
  refine ⟨?_, ?_, ?_⟩
  · rw [type_withSpan, type_withSpan]
    exact h.type
  · rw [isNull, isNull, h.isNullConstant]
  · rw [integral, integral, h.integralConstant?]

theorem fits (h : e.Corresponds ts w e') (hu : u.Corresponds ts w u') : e.fits u = e'.fits u' := by
  rw [Term.fits, h.integralConstant?, hu.primitive?, Term.fits]

end Term.Corresponds

namespace Caches.Sound

variable {e e' l l' : Term} (hw : w.Sound ts)
include hw

theorem convertTo (he : e.Corresponds ts w e') (hu : u.Corresponds ts w u') :
    (e.convertTo u).Corresponds ts w (e'.convertTo u') := by
  unfold Term.convertTo
  rw [hw.beq he.type hu, he.isNullConstant]
  split
  · exact he
  · split
    · exact ⟨hu, rfl, rfl⟩
    · exact ⟨hu, rfl, rfl⟩

theorem assignmentCost? (he : e.Corresponds ts w e') (hu : u.Corresponds ts w u') :
    e.assignmentCost? u = e'.assignmentCost? u' := by
  rw [Term.assignmentCost?, hw.conversionCost? he.type hu, he.fits hu, Term.assignmentCost?]

theorem isAssignable (he : e.Corresponds ts w e') (hu : u.Corresponds ts w u') :
    e.isAssignable u = e'.isAssignable u' := by
  rw [Term.isAssignable, hw.assignmentCost? he hu, Term.isAssignable]

theorem unify? (ht : t.Corresponds ts w t') (he : e.Corresponds ts w e') :
    Ty.CorrespondOption ts w (Ty.unify? t e) (Ty.unify? t' e') := by
  have hpromote := ht.promote? he.type false
  unfold Ty.unify?
  rw [hw.beq ht he.type, ht.isNull, he.type.isNull, hw.isAssignable he ht, hw.converts ht he.type]
  split
  · exact .some ht
  · split
    · exact he.type.toNullable?
    · split
      · exact ht.toNullable?
      · generalize Ty.promote? t e.type false = v, Ty.promote? t' e'.type false = v' at hpromote
        cases hpromote with
        | some h => exact .some h
        | none =>
          dsimp only
          split
          · exact .some ht
          · split
            · exact .some he.type
            · exact .none

theorem equality? (hl : l.Corresponds ts w l') (he : e.Corresponds ts w e') :
    Ty.CorrespondOption ts w (Ty.equality? l e) (Ty.equality? l' e') := by
  have hpromote := hl.type.promote? he.type false
  unfold Ty.equality?
  rw [hw.beq hl.type he.type, hl.type.isNull, he.type.isNull, hw.isAssignable he hl.type,
    hw.isAssignable hl he.type]
  generalize Ty.promote? l.type e.type false = v, Ty.promote? l'.type e'.type false = v'
    at hpromote
  cases hpromote with
  | some h => exact .some h
  | none =>
    dsimp only
    split
    · exact .some hl.type
    · split
      · exact he.type.toNullable?
      · split
        · exact hl.type.toNullable?
        · split
          · exact .some hl.type
          · split
            · exact .some he.type
            · exact .none

/-! ### Several terms -/

theorem bestOf {es es' : List Term} (ht : t.Corresponds ts w t')
    (hes : List.Forall₂ (Term.Corresponds ts w) es es') (h : Ty.bestOf t es = .ok u) :
    ∃ u', Ty.bestOf t' es' = .ok u' ∧ u.Corresponds ts w u' := by
  induction hes generalizing t t' with
  | nil =>
    cases h
    exact ⟨t', rfl, ht⟩
  | @cons e e' es es' he _ ih =>
    have hunify := hw.unify? ht he
    rw [Ty.bestOf] at h ⊢
    generalize Ty.unify? t e = v, Ty.unify? t' e' = v' at hunify h
    cases hunify with
    | some hv => exact ih hv h
    | none => cases h

theorem best {es es' : List Term} (hes : List.Forall₂ (Term.Corresponds ts w) es es')
    (h : Ty.best es = .ok u) : ∃ u', Ty.best es' = .ok u' ∧ u.Corresponds ts w u' := by
  cases hes with
  | nil =>
    cases h
    exact ⟨.object, rfl, .prim _⟩
  | @cons e e' es es' he hes =>
    rw [Ty.best] at h ⊢
    cases hbest : Ty.bestOf e.type es with
    | error f => rw [hbest] at h; cases h
    | ok v =>
      rw [hbest] at h
      cases h
      obtain ⟨v', hv', hcorr⟩ := hw.bestOf he.type hes hbest
      rw [hv']
      refine ⟨_, rfl, ?_⟩
      rw [hcorr.isNull]
      split
      · exact .prim _
      · exact hcorr

/-- The same overload takes the terms that correspond. -/
theorem selectOverload {candidates : List (List Ty)} {es es' : List Term}
    (hc : ∀ us ∈ candidates, ∀ u ∈ us, u.Corresponds ts w u)
    (hes : List.Forall₂ (Term.Corresponds ts w) es es') :
    QueryExpr.selectOverload candidates es = QueryExpr.selectOverload candidates es' := by
  have hcost (i : Nat) {u : Ty} (hu : u.Corresponds ts w u) :
      es[i]?.bind (·.assignmentCost? u) = es'[i]?.bind (·.assignmentCost? u) := by
    induction hes generalizing i with
    | nil => rfl
    | cons he _ ih =>
      cases i with
      | zero => exact hw.assignmentCost? he hu
      | succ i => exact ih i
  have htotal {us : List Ty} (hus : ∀ u ∈ us, u.Corresponds ts w u) (i : Nat) :
      totalCost? (fun i t => es[i]?.bind (·.assignmentCost? t)) i us =
        totalCost? (fun i t => es'[i]?.bind (·.assignmentCost? t)) i us := by
    induction us generalizing i with
    | nil => rfl
    | cons u us ih =>
      obtain ⟨hu, hus⟩ := List.forall_mem_cons.mp hus
      rw [totalCost?, totalCost?, hcost i hu, ih hus]
  have happlicable :
      applicable (fun i t => es[i]?.bind (·.assignmentCost? t)) es.length candidates =
      applicable (fun i t => es'[i]?.bind (·.assignmentCost? t)) es.length candidates := by
    unfold applicable
    refine List.filterMap_congr fun c hmem => ?_
    have hus := hc c.1 (List.fst_mem_of_mem_zipIdx hmem)
    dsimp only
    rw [htotal hus]
  rw [QueryExpr.selectOverload, QueryExpr.selectOverload, ← hes.length_eq, resolveOverload,
    happlicable, resolveOverload]

/-- The operands of an operator are brought to types that correspond, and so is what
comes of it. -/
theorem operationTypes? (op : Operation) (hl : l.Corresponds ts w l')
    (he : e.Corresponds ts w e') :
    Option.Rel (fun p q => p.1.Corresponds ts w q.1 ∧ p.2.Corresponds ts w q.2)
      (Check.operationTypes? op l e) (Check.operationTypes? op l' e') := by
  have hequality := hw.equality? hl he
  have hpromote (arithmetic : Bool) := hl.type.promote? he.type arithmetic
  have hboolean : (Ty.boolean).Corresponds ts w .boolean := .prim _
  unfold Check.operationTypes?
  rw [hl.type.isBoolean, he.type.isBoolean, hl.type.isNullable, he.type.isNullable,
    hl.type.isString, he.type.isString]
  cases op with
  | andAlso | orElse =>
    dsimp only
    split
    · exact .some ⟨.lift _ _, .lift _ _⟩
    · exact .none
  | equal | notEqual =>
    dsimp only
    generalize Ty.equality? l e = v, Ty.equality? l' e' = v' at hequality
    cases hequality with
    | some h => exact .some ⟨h, hboolean⟩
    | none => exact .none
  | less | lessEqual | greater | greaterEqual =>
    have hpromote := hpromote false
    dsimp only
    generalize Ty.promote? l.type e.type false = v, Ty.promote? l'.type e'.type false = v'
      at hpromote
    cases hpromote with
    | some h => exact .some ⟨h, hboolean⟩
    | none =>
      dsimp only
      split
      · exact .some ⟨.prim _, hboolean⟩
      · exact .none
  | _ =>
    have hpromote := hpromote true
    dsimp only
    generalize Ty.promote? l.type e.type true = v, Ty.promote? l'.type e'.type true = v'
      at hpromote
    cases hpromote with
    | some h => exact .some ⟨h, h⟩
    | none => exact .none

end Caches.Sound

/-! ### Aggregates -/

namespace Ty.Corresponds

variable (op : Aggregate) (h : t.Corresponds ts w t') (hv : u.Corresponds ts w u')
include h

theorem result? : CorrespondOption ts w (op.result? t) (op.result? t') := by
  have haccumulator := h.accumulator?
  cases op with
  | sum => exact haccumulator
  | average =>
    rw [Aggregate.result?, Aggregate.result?]
    generalize t.accumulator? = v, t'.accumulator? = v' at haccumulator
    cases haccumulator with
    | none => exact .none
    | @some a a' hsum =>
      have hintegral : a.isIntegral = a'.isIntegral := by
        rw [isIntegral, hsum.primitive?, isIntegral]
      dsimp only [Option.map_some]
      rw [hintegral, h.isNullable]
      split
      · exact .some (lift _ _)
      · exact .some hsum
  | min | max =>
    rw [Aggregate.result?, Aggregate.result?, h.primitive?]
    split
    · exact .some h
    · exact .none
  | _ => exact .none

theorem plain? : CorrespondOption ts w (op.plain? t) (op.plain? t') := by
  cases op with
  | any | count => exact .some (prim _)
  | first | firstOrDefault => exact .some h
  | sum => exact h.result? .sum
  | average => exact h.result? .average
  | min => exact h.result? .min
  | max => exact h.result? .max
  | _ => exact .none

theorem tested? : CorrespondOption ts w (op.tested? t) (op.tested? t') := by
  cases op with
  | any | all | count => exact .some (prim _)
  | «where» => exact .some (.sequence h)
  | first | firstOrDefault => exact .some h
  | _ => exact .none

theorem taken? : Option.Rel (fun p q => p.1.Corresponds ts w q.1 ∧ p.2.Corresponds ts w q.2)
    (op.taken? t) (op.taken? t') := by
  cases op with
  | take | skip => exact .some ⟨prim _, .sequence h⟩
  | contains => exact .some ⟨h, prim _⟩
  | _ => exact .none

include hv

theorem selected? : CorrespondOption ts w (op.selected? t u) (op.selected? t' u') := by
  cases op with
  | select => exact .some (.sequence hv)
  | orderBy | orderByDescending => exact .some (.sequence h)
  | sum => exact hv.result? .sum
  | average => exact hv.result? .average
  | min => exact hv.result? .min
  | max => exact hv.result? .max
  | _ => exact .none

end Ty.Corresponds

end QueryExpr
