/-
# Values of a type

What it takes for a value to be one of a type. A primitive type has scalars
of its kind; all types that accept null have null. The elements of a list, and
the values of a record, are of the types declared for them. A host object
belongs to a class if it answers as the class and its bases declare: a field
gives a value of its type, the elements are there, and what a method, an
indexer or a function gives for arguments of the declared types, if it gives
anything, is of the declared type.

Key definitions: `Prim.Holds`, `Conforms`, `Answers`.
Key theorems: `conforms_null`, `Answers.chain`, `Conforms.elements`,
`Conforms.member`.
-/
import Mathlib.Data.List.Forall2
import QueryExpr.Eval.Access
import QueryExpr.Proofs.SafeTypes

namespace QueryExpr

/-- The values of a primitive type. -/
def Prim.Holds : Prim → Value → Prop
  | .boolean, v => ∃ b, v = .scalar (.boolean b)
  | .char, v => ∃ c, v = .scalar (.char c)
  | .int t, v => ∃ n, v = .scalar (.int n) ∧ n.type = t
  | .single, v => ∃ x, v = .scalar (.single x)
  | .double, v => ∃ x, v = .scalar (.double x)
  | .decimal, v => ∃ x, v = .scalar (.decimal x)
  | .string, v => v = .null ∨ ∃ s, v = .scalar (.string s)
  | .object, _ => True

mutual
/-- The values of a type. -/
def Conforms (host : Host) : Ty → Value → Prop
  | .prim p, v => p.Holds v
  | .nullable p, v => v = .null ∨ p.Holds v
  | .null, v => v = .null
  | .void, _ => True
  | .sequence e, v =>
    v = .null ∨ (∃ id items, v = .list id items ∧ ∀ w ∈ items, Conforms host e w) ∨
      ∃ id name items, v = .object id name ∧ host.elements id name = some items ∧
        ∀ w ∈ items, Conforms host e w
  | .array e, v => v = .null ∨ ∃ id items, v = .list id items ∧ ∀ w ∈ items, Conforms host e w
  | .cls _ ps ms is e b isValue, v =>
    v = .null ∧ isValue = false ∨ ∃ id name, v = .object id name ∧
      AnswersFields host id name ps ∧ AnswersCalls host id name ms ∧
      AnswersIndexes host id name is ∧ AnswersElements host id name e ∧ AnswersBase host id name b
  | .record id ps, v => v = .null ∨ ∃ vs, v = .record ⟨id, ps⟩ vs ∧ ConformsFields host ps vs
  | .delegate _ _ ts t, v =>
    v = .null ∨ ∃ id, v = .function id ∧
      ∀ vs w, ConformsAll host ts vs → host.invoke id vs = .ok w → Conforms host t w
termination_by structural t => t

/-- The values are one by one of the given types. -/
def ConformsAll (host : Host) : List Ty → List Value → Prop
  | [], vs => vs = []
  | t :: ts, vs => ∃ w ws, vs = w :: ws ∧ Conforms host t w ∧ ConformsAll host ts ws
termination_by structural ts => ts

/-- The values are one by one of the types of the properties. -/
def ConformsFields (host : Host) : List (String × Ty) → List Value → Prop
  | [], vs => vs = []
  | (_, t) :: ps, vs => ∃ w ws, vs = w :: ws ∧ Conforms host t w ∧ ConformsFields host ps ws
termination_by structural ps => ps

/-- The object has fields of the declared types. -/
def AnswersFields (host : Host) (id : Nat) (name : String) : List (String × Ty) → Prop
  | [] => True
  | (n, t) :: ps =>
    (∃ v, host.field id name n = some v ∧ Conforms host t v) ∧ AnswersFields host id name ps
termination_by structural ps => ps

/-- Methods of the object give values of the declared types. -/
def AnswersCalls (host : Host) (id : Nat) (name : String) : List (String × List Ty × Ty) → Prop
  | [] => True
  | (n, ts, t) :: ms =>
    (∀ vs w, ConformsAll host ts vs → host.call id name n vs = .ok w → Conforms host t w) ∧
      AnswersCalls host id name ms
termination_by structural ms => ms

/-- Indexers of the object give values of the declared types. -/
def AnswersIndexes (host : Host) (id : Nat) (name : String) : List (List Ty × Ty) → Prop
  | [] => True
  | (ts, t) :: is =>
    (∀ vs w, ConformsAll host ts vs → host.index id name vs = .ok w → Conforms host t w) ∧
      AnswersIndexes host id name is
termination_by structural is => is

/-- The object has elements, if any are declared, of the declared type. -/
def AnswersElements (host : Host) (id : Nat) (name : String) : Option Ty → Prop
  | none => True
  | some t => ∃ items, host.elements id name = some items ∧ ∀ w ∈ items, Conforms host t w
termination_by structural t => t

/-- The object answers as the base declares, if there is one. -/
def AnswersBase (host : Host) (id : Nat) (name : String) : Option Ty → Prop
  | none => True
  | some t => Answers host id name t
termination_by structural t => t

/-- The object answers as the type declares. -/
def Answers (host : Host) (id : Nat) (name : String) : Ty → Prop
  | .cls _ ps ms is e b _ =>
    AnswersFields host id name ps ∧ AnswersCalls host id name ms ∧
      AnswersIndexes host id name is ∧ AnswersElements host id name e ∧ AnswersBase host id name b
  | _ => True
termination_by structural t => t
end

variable {host : Host} {id : Nat} {name : String} {t u : Ty} {v : Value}

/-- The values of a class: null, and the objects that answer as it declares. -/
theorem conforms_cls {n : String} {ps : List (String × Ty)} {ms : List (String × List Ty × Ty)}
    {is : List (List Ty × Ty)} {e b : Option Ty} {isValue : Bool} :
    Conforms host (.cls n ps ms is e b isValue) v ↔
      v = .null ∧ isValue = false ∨
        ∃ id name, v = .object id name ∧ Answers host id name (.cls n ps ms is e b isValue) :=
  Iff.rfl

/-- Null is a value of every type that accepts it. -/
theorem conforms_null (h : t.acceptsNull = true) : Conforms host t .null := by
  cases t with
  | prim p => cases p <;> simp_all [Ty.acceptsNull, Prim.isValueType, Conforms, Prim.Holds]
  | void => cases h
  | null => exact rfl
  | cls => exact .inl ⟨rfl, by simpa [Ty.acceptsNull] using h⟩
  | _ => exact .inl rfl

theorem conformsAll_iff {ts : List Ty} {vs : List Value} :
    ConformsAll host ts vs ↔ List.Forall₂ (Conforms host) ts vs := by
  induction ts generalizing vs with
  | nil => simp [ConformsAll]
  | cons t ts ih =>
    simp only [ConformsAll, List.forall₂_cons_left_iff, ih]
    constructor
    · rintro ⟨w, ws, rfl, hw, hws⟩
      exact ⟨w, ws, hw, hws, rfl⟩
    · rintro ⟨w, ws, hw, hws, rfl⟩
      exact ⟨w, ws, rfl, hw, hws⟩

theorem conformsFields_iff {ps : List (String × Ty)} {vs : List Value} :
    ConformsFields host ps vs ↔ ConformsAll host (ps.map (·.2)) vs := by
  induction ps generalizing vs with
  | nil => exact Iff.rfl
  | cons p ps ih => simp only [ConformsFields, List.map_cons, ConformsAll, ih]

/-! ### Objects -/

/-- An object that answers as a class declares answers as its bases declare. -/
theorem Answers.chain : ∀ {t : Ty}, Answers host id name t → ∀ u ∈ t.chain, Answers host id name u
  | .cls n ps ms is e (some b) isValue, h, u, hu => by
    rw [Ty.chain_eq] at hu
    rcases List.mem_cons.mp hu with rfl | hu
    · exact h
    · exact Answers.chain (t := b) h.2.2.2.2 u hu
  | .cls n ps ms is e none isValue, h, u, hu => by
    rw [List.mem_singleton.mp hu]
    exact h
  | .prim _, h, u, hu | .nullable _, h, u, hu | .null, h, u, hu | .void, h, u, hu
  | .sequence _, h, u, hu | .array _, h, u, hu | .record _ _, h, u, hu
  | .delegate _ _ _ _, h, u, hu => by
    rw [List.mem_singleton.mp hu]
    exact h

theorem AnswersFields.lookup {ps : List (String × Ty)} {n : String}
    (h : AnswersFields host id name ps) (hn : ps.lookup n = some t) :
    ∃ v, host.field id name n = some v ∧ Conforms host t v := by
  induction ps with
  | nil => cases hn
  | cons p ps ih =>
    rw [List.lookup_cons] at hn
    split at hn
    · rename_i he
      cases hn
      rw [beq_iff_eq.mp he]
      exact h.1
    · exact ih h.2 hn

theorem AnswersCalls.mem {ms : List (String × List Ty × Ty)} {m : String × List Ty × Ty}
    (h : AnswersCalls host id name ms) (hm : m ∈ ms) {vs : List Value} {w : Value}
    (hvs : ConformsAll host m.2.1 vs) (hw : host.call id name m.1 vs = .ok w) :
    Conforms host m.2.2 w := by
  induction ms with
  | nil => cases hm
  | cons m' ms ih =>
    rcases List.mem_cons.mp hm with rfl | hm
    · exact h.1 vs w hvs hw
    · exact ih h.2 hm

theorem AnswersIndexes.mem {is : List (List Ty × Ty)} {i : List Ty × Ty}
    (h : AnswersIndexes host id name is) (hi : i ∈ is) {vs : List Value} {w : Value}
    (hvs : ConformsAll host i.1 vs) (hw : host.index id name vs = .ok w) :
    Conforms host i.2 w := by
  induction is with
  | nil => cases hi
  | cons i' is ih =>
    rcases List.mem_cons.mp hi with rfl | hi
    · exact h.1 vs w hvs hw
    · exact ih h.2 hi

/-! ### Access -/

/-- The errors that evaluation may come to over values of the right types. -/
def EvalError.isExpected : EvalError → Bool
  | .nullReference _ | .indexOutOfRange _ _ | .argumentOutOfRange _ | .divideByZero
  | .emptySequence => true
  | _ => false

/-- The outcome is as wanted, or an error that may be expected. -/
def Eval.Fine {α : Type} (Q : α → Prop) : Except EvalError α → Prop
  | .ok x => Q x
  | .error e => e.isExpected = true

namespace Eval.Fine

variable {α β : Type} {Q : α → Prop} {R : β → Prop} {x : Except EvalError α}

theorem bind {f : α → Except EvalError β} (h : Fine Q x) (hf : ∀ y, Q y → Fine R (f y)) :
    Fine R (x >>= f) := by
  cases x with
  | error e => exact h
  | ok y => exact hf y h

theorem map {f : α → β} (h : Fine Q x) (hf : ∀ y, Q y → R (f y)) : Fine R (x.map f) := by
  cases x with
  | error e => exact h
  | ok y => exact hf y h

theorem mono {R : α → Prop} (h : Fine Q x) (hR : ∀ y, Q y → R y) : Fine R x := by
  cases x with
  | error e => exact h
  | ok y => exact hR y h

end Eval.Fine

open Eval (Fine)

/-- An object has a field for each member of its class. -/
theorem Answers.member {n : String} (ht : t.Throughout Ty.Sound) (h : Answers host id name t)
    (hc : t.isBase = true) (hm : t.member? n = some u) :
    ∃ v, host.field id name n = some v ∧ Conforms host u v := by
  obtain ⟨b, hb, hp⟩ := List.exists_of_findSome?_eq_some hm
  have hbase : b.isBase = true := by
    rcases List.mem_cons.mp hb with rfl | hb
    · exact hc
    · exact Ty.isBase_of_mem_bases ht hb
  have hab := h.chain b hb
  cases b with
  | cls => exact AnswersFields.lookup hab.1 hp
  | record => cases hbase
  | _ => cases hp

theorem ConformsFields.property (id : Nat) {ps : List (String × Ty)} {vs : List Value} {n : String}
    (h : ConformsFields host ps vs) (hn : ps.lookup n = some u) :
    ∃ v, Value.property? ⟨id, ps⟩ vs n = some v ∧ Conforms host u v := by
  induction ps generalizing vs with
  | nil => cases hn
  | cons p ps ih =>
    obtain ⟨w, ws, rfl, hw, hws⟩ := h
    rw [List.lookup_cons] at hn
    unfold Value.property? RecordType.position? at ih ⊢
    split at hn
    · rename_i he
      cases hn
      have he : p.1 = n := (beq_iff_eq.mp he).symm
      refine ⟨w, ?_, hw⟩
      simp [List.findIdx?_cons, he]
    · rename_i he
      have he : (p.1 == n) = false := by
        rw [BEq.comm]
        simpa using he
      obtain ⟨v, hv, hu⟩ := ih hws hn
      refine ⟨v, ?_, hu⟩
      rw [← hv]
      simp only [List.findIdx?_cons, he]
      cases ps.findIdx? fun p => p.1 == n <;> rfl

/-- The member of a value is of the type declared for it. -/
theorem Conforms.member {n : String} (ht : t.Throughout Ty.Sound) (h : Conforms host t v)
    (hm : t.member? n = some u) : Fine (Conforms host u) (v.member host n) := by
  cases t with
  | cls m ps ms is e b isValue =>
    rcases conforms_cls.mp h with ⟨rfl, -⟩ | ⟨id, name, rfl, ha⟩
    · rfl
    · obtain ⟨w, hw, hu⟩ := ha.member ht rfl hm
      simp only [Value.member, hw]
      exact hu
  | record id ps =>
    have hm : ps.lookup n = some u := by
      simpa [Ty.member?, Ty.chain, Ty.bases, Ty.ownProperties] using hm
    rcases h with rfl | ⟨vs, rfl, hvs⟩
    · rfl
    · obtain ⟨w, hw, hu⟩ := hvs.property id hm
      simp only [Value.member, hw]
      exact hu
  | _ => simp [Ty.member?, Ty.chain, Ty.bases, Ty.ownProperties] at hm

/-- A value that has a method is null, or an object that answers to it. -/
theorem Conforms.methods {n : String} {sig : Signature} (h : Conforms host t v)
    (hs : sig ∈ t.methods n) :
    v = .null ∨ ∃ id name, v = .object id name ∧ ∀ vs w, ConformsAll host sig.parameters vs →
      host.call id name n vs = .ok w → Conforms host sig.returns w := by
  obtain ⟨b, hb, hm⟩ := List.mem_flatMap.mp hs
  cases t with
  | cls m ps ms is e b' isValue =>
    rcases conforms_cls.mp h with ⟨rfl, -⟩ | ⟨id, name, rfl, ha⟩
    · exact .inl rfl
    · refine .inr ⟨id, name, rfl, fun vs w hvs hw => ?_⟩
      have hab := ha.chain b hb
      cases b with
      | cls m ps ms is e b isValue =>
        simp only [Ty.ownMethods, List.mem_map, List.mem_filter] at hm
        obtain ⟨m, ⟨hm, hn⟩, rfl⟩ := hm
        obtain rfl : m.1 = n := beq_iff_eq.mp hn
        exact AnswersCalls.mem hab.2.1 hm hvs hw
      | _ => simp [Ty.ownMethods] at hm
  | _ =>
    rw [List.mem_singleton.mp hb] at hm
    simp [Ty.ownMethods] at hm

/-- A value that has an indexer is null, or an object that answers to it. -/
theorem Conforms.ownIndexers {sig : Signature} (h : Conforms host t v) (hs : sig ∈ t.ownIndexers) :
    v = .null ∨ ∃ id name, v = .object id name ∧ ∀ vs w, ConformsAll host sig.parameters vs →
      host.index id name vs = .ok w → Conforms host sig.returns w := by
  cases t with
  | cls m ps ms is e b isValue =>
    rcases conforms_cls.mp h with ⟨rfl, -⟩ | ⟨id, name, rfl, ha⟩
    · exact .inl rfl
    · obtain ⟨i, hi, rfl⟩ := List.mem_map.mp hs
      exact .inr ⟨id, name, rfl, fun vs w hvs hw => AnswersIndexes.mem ha.2.2.1 hi hvs hw⟩
  | _ => simp [Ty.ownIndexers] at hs

/-- An item at a position that is an integer. -/
theorem Value.itemAt_fine {α : Type} {Q : α → Prop} {items : List α} {p : IntType}
    (h : (Prim.int p).Holds v) (hi : ∀ x ∈ items, Q x) : Fine Q (itemAt items [v]) := by
  obtain ⟨n, rfl, -⟩ := h
  unfold itemAt position
  simp only [Value.integer?, Scalar.integer?, Scalar.integral?]
  split
  · exact hi _ (List.getElem_mem _)
  · rfl

/-- The elements of a value of a type that has elements. -/
theorem Conforms.elements (h : Conforms host t v) (he : t.element? = some u) :
    Fine (fun vs => ∀ w ∈ vs, Conforms host u w) (v.elements host) := by
  cases t with
  | sequence e =>
    cases he
    rcases h with rfl | ⟨id, items, rfl, hi⟩ | ⟨id, name, items, rfl, hs, hi⟩
    · rfl
    · exact hi
    · simp only [Value.elements, hs]
      exact hi
  | array e =>
    cases he
    rcases h with rfl | ⟨id, items, rfl, hi⟩
    · rfl
    · exact hi
  | cls n ps ms is e b isValue =>
    cases he
    rcases h with ⟨rfl, -⟩ | ⟨id, name, rfl, -, -, -, ⟨items, hs, hi⟩, -⟩
    · rfl
    · simp only [Value.elements, hs]
      exact hi
  | _ => cases he

end QueryExpr
