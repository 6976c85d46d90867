/-
# Disciplines of typing

The rules of typing leave open what is asked of the types that occur, of the
types that values have, of the names a parameter goes by, and of the
conversions that a text asks for. A discipline settles that. What the checker
makes of types that a lawful discipline admits is admitted again: members,
what is returned, elements, and the results of aggregates.

Key definitions: `Discipline`, `Discipline.Admits`, `Discipline.Grants`,
`Discipline.Lawful`, `Scopes.Denotes`, `Scopes.Valued`.
Key theorems: `Discipline.Lawful.admits_indexer`,
`Discipline.Lawful.admits_selected?`, `Scopes.lookup?_eq`,
`Scopes.Denotes.type`.
-/
import QueryExpr.Proofs.AggregateForms
import QueryExpr.Typing.Check

namespace QueryExpr

/-- What the rules of typing leave open. -/
structure Discipline where
  /-- Holds of every type that occurs, and of its parts. -/
  type : Ty → Prop
  /-- The types that values have. -/
  value : Ty → Prop
  /-- The types that the constant null may have. -/
  null : Ty → Prop
  /-- The names that a parameter may be called by. -/
  call : String → Prop
  /-- What a conversion `T(x)` leads from, and to, beyond the conversions that
  are made without being asked for. -/
  cast : Ty → Ty → Prop

namespace Discipline

/-- The type may occur. -/
def Admits (D : Discipline) (t : Ty) : Prop := t.Throughout D.type

/-- The discipline grants the conversions to predefined types that are allowed. -/
def Grants (D : Discipline) (allowed : Ty → Ty → Bool) : Prop :=
  ∀ (t : Ty) (p : Prim), allowed t (.prim p) = true → t.convertsExplicitly (.prim p) = true →
    D.cast t (.prim p)

/-- What a discipline has to grant for the checker to keep it. -/
structure Lawful (D : Discipline) : Prop where
  prim (p : Prim) : D.type (.prim p)
  nullable (p : Prim) : D.type (.nullable p)
  ofNull : D.type .null
  sequence {t : Ty} : D.value t → D.type (.sequence t)
  array {t : Ty} : D.value t → D.type (.array t)
  valued {t : Ty} : t.isVoid = false → D.value t
  converted {t u : Ty} : D.value t → t.converts u = true → D.value u
  property {t : Ty} {p : String × Ty} : D.type t → p ∈ t.ownProperties → D.value p.2
  element {t u : Ty} : D.type t → t.element? = some u → D.value u
  indexer {t : Ty} {s : Signature} : D.type t → s ∈ t.ownIndexers → D.value s.returns
  named {n : String} : n ≠ implicitName → D.call n
  acceptsNull {t : Ty} : t.acceptsNull = true → D.null t
  convertsNull {t u : Ty} : D.Admits t → D.Admits u → D.null t → t.converts u = true → D.null u
  castsNull {p q : Prim} : D.null (.prim p) → D.cast (.prim p) (.prim q) → D.null (.prim q)
  castsNullType {p : Prim} : D.cast .null (.prim p) → D.null (.prim p)

end Discipline

/-- The symbol is what `it` stands for, or a name that a parameter may be
called by. -/
def Scopes.Denotes (s : Scopes) (D : Discipline) (sym : Symbol) : Prop :=
  s.implicit? = some sym ∨ ∃ n, D.call n ∧ s.lookup? n = some sym ∧ sym.isParameter = true

/-- The parameters and elements in scope have types that may occur, and that
values have. -/
def Scopes.Valued (s : Scopes) (D : Discipline) : Prop :=
  (∀ d ∈ s.root.parameters, D.Admits d.type ∧ D.value d.type) ∧
    ∀ t ∈ s.elements, D.Admits t ∧ D.value t

/-! ### What a lawful discipline admits -/

namespace Discipline.Lawful

variable {D : Discipline} (hD : D.Lawful)
include hD

theorem admits_prim (p : Prim) : D.Admits (.prim p) :=
  .of_parts (hD.prim p) fun u hu => by cases hu

theorem admits_lift (p : Prim) (n : Bool) : D.Admits (.lift p n) := by
  cases n
  · exact hD.admits_prim p
  · exact .of_parts (hD.nullable p) fun u hu => by cases hu

theorem admits_null : D.Admits .null := .of_parts hD.ofNull fun u hu => by cases hu

theorem admits_sequence {t : Ty} (h : D.Admits t) (hv : D.value t) : D.Admits (.sequence t) := by
  refine .of_parts (hD.sequence hv) fun u hu => ?_
  rw [List.mem_singleton.mp hu]
  exact h

theorem admits_array {t : Ty} (h : D.Admits t) (hv : D.value t) : D.Admits (.array t) := by
  refine .of_parts (hD.array hv) fun u hu => ?_
  rw [List.mem_singleton.mp hu]
  exact h

theorem admits_naturalType (v : Scalar) : D.Admits v.naturalType := by
  cases v with
  | null => exact hD.admits_null
  | _ => exact hD.admits_prim _

theorem admits_nonNullable {t : Ty} (h : D.Admits t) : D.Admits t.nonNullable := by
  cases t with
  | nullable p => exact hD.admits_prim p
  | _ => exact h

theorem admits_toNullable? {t u : Ty} (h : D.Admits t) (hu : t.toNullable? = some u) :
    D.Admits u := by
  cases t with
  | prim p =>
    simp only [Ty.toNullable?] at hu
    split at hu <;> cases hu
    · exact hD.admits_lift p true
    · exact h
  | _ =>
    simp only [Ty.toNullable?] at hu
    split at hu <;> cases hu
    exact h

theorem admits_promote? {t u v : Ty} {a : Bool} (h : Ty.promote? t u a = some v) :
    D.Admits v := by
  obtain ⟨_, _, c, -, -, -, -, -, -, -, rfl, -⟩ := Ty.promote?_cases h
  exact hD.admits_lift c _

/-- A common type is one of the two, or made of one of them. -/
theorem admits_unify? {t u : Ty} {e : Term} (ht : D.Admits t) (he : D.Admits e.type)
    (h : Ty.unify? t e = some u) : D.Admits u := by
  unfold Ty.unify? at h
  split at h
  · cases h; exact ht
  split at h
  · exact hD.admits_toNullable? he h
  split at h
  · exact hD.admits_toNullable? ht h
  split at h
  · cases h
    exact hD.admits_promote? (by assumption)
  split at h
  · cases h; exact ht
  split at h
  · cases h; exact he
  · cases h

theorem admits_equality? {l r : Term} {t : Ty} (hl : D.Admits l.type) (hr : D.Admits r.type)
    (h : Ty.equality? l r = some t) : D.Admits t := by
  unfold Ty.equality? at h
  split at h
  · cases h
    exact hD.admits_promote? (by assumption)
  split at h
  · cases h; exact hl
  split at h
  · exact hD.admits_toNullable? hr h
  split at h
  · exact hD.admits_toNullable? hl h
  split at h
  · cases h; exact hl
  split at h
  · cases h; exact hr
  · cases h

theorem value_of_isAssignable {e : Term} {t : Ty} (hv : D.value e.type)
    (ha : e.isAssignable t = true) : D.value t := by
  rcases Term.isAssignable_iff.mp ha with h | h
  · exact hD.converted hv h
  · exact hD.valued (Term.fits_not_void h)

theorem admits_bestOf : ∀ (es : List Term) {t u : Ty}, D.Admits t → D.value t →
    (∀ e ∈ es, D.Admits e.type ∧ D.value e.type) → Ty.bestOf t es = .ok u →
    D.Admits u ∧ D.value u
  | [], _, _, ht, hv, _, h => by cases h; exact ⟨ht, hv⟩
  | e :: es, t, u, ht, hv, hes, h => by
    obtain ⟨hea, hev⟩ := hes e List.mem_cons_self
    unfold Ty.bestOf at h
    split at h
    · rename_i t' ht'
      exact admits_bestOf es (hD.admits_unify? ht hea ht')
        (hD.value_of_isAssignable hev (Ty.unify?_assignable ht'))
        (fun e he => hes e (List.mem_cons_of_mem _ he)) h
    · cases h

theorem admits_best {es : List Term} {t : Ty}
    (hes : ∀ e ∈ es, D.Admits e.type ∧ D.value e.type) (h : Ty.best es = .ok t) :
    D.Admits t ∧ D.value t := by
  unfold Ty.best at h
  split at h
  · cases h
    exact ⟨hD.admits_prim _, hD.valued rfl⟩
  · rename_i e es
    split at h
    · rename_i u hu
      cases h
      obtain ⟨hea, hev⟩ := hes e List.mem_cons_self
      split
      · exact ⟨hD.admits_prim _, hD.valued rfl⟩
      · exact hD.admits_bestOf es hea hev (fun e he => hes e (List.mem_cons_of_mem _ he)) hu
    · cases h

theorem value_member {t u : Ty} {n : String} (h : D.Admits t) (hm : t.member? n = some u) :
    D.value u := by
  obtain ⟨v, hv, hp⟩ := List.exists_of_findSome?_eq_some hm
  obtain ⟨l, l', hl, -⟩ := List.lookup_eq_some_iff.mp hp
  exact hD.property (h.chain v hv).here (p := (n, u)) (by simp [hl])

/-- A discipline that admits a type admits what its indexers return. -/
theorem admits_indexer {t : Ty} {sig : Signature} (h : D.Admits t) (hs : sig ∈ Check.indexers t) :
    (D.Admits sig.returns ∧ ∀ u ∈ sig.parameters, D.Admits u) ∧ D.value sig.returns := by
  unfold Check.indexers at hs
  split at hs
  · rw [List.mem_singleton.mp hs]
    refine ⟨⟨h.element rfl, fun u hu => ?_⟩, hD.element h.here rfl⟩
    rw [List.mem_singleton.mp hu]
    exact hD.admits_prim _
  · rw [List.mem_singleton.mp hs]
    refine ⟨⟨hD.admits_prim _, fun u hu => ?_⟩, hD.valued rfl⟩
    rw [List.mem_singleton.mp hu]
    exact hD.admits_prim _
  · exact ⟨h.ownIndexer hs, hD.indexer h.here hs⟩

end Discipline.Lawful

/-! ### Built-in members -/

namespace Builtin

/-- The parameters and the result are of primitive types. -/
def IsPrimitive (b : Builtin) : Prop :=
  (∃ p, b.returns = .prim p) ∧ ∀ u ∈ b.parameters, ∃ p, u = .prim p

theorem isPrimitive_methods {t : Ty} {n : String} {b : Builtin} (h : b ∈ methods t n) :
    b.IsPrimitive := by
  have any : ∀ b ∈ anyMethods n, b.IsPrimitive := by
    unfold anyMethods
    split <;> simp [IsPrimitive, Ty.string, Ty.boolean, Ty.int32, Ty.object]
  have text : ∀ b ∈ stringMethods n, b.IsPrimitive := by
    unfold stringMethods
    split <;> simp [IsPrimitive, Ty.string, Ty.boolean, Ty.int32, Ty.char]
  unfold methods at h
  rcases List.mem_append.mp h with h | h
  · exact any b h
  · split at h
    · exact text b h
    · cases h

theorem isPrimitive_unaries {op : Intrinsic} {ps : List Prim} {b : Builtin}
    (h : b ∈ unaries op ps) : b.IsPrimitive := by
  obtain ⟨p, -, rfl⟩ := List.mem_map.mp h
  exact ⟨⟨p, rfl⟩, fun u hu => ⟨p, List.mem_singleton.mp hu⟩⟩

theorem isPrimitive_functions {owner : KnownType} {n : String} {b : Builtin}
    (h : b ∈ functions owner n) : b.IsPrimitive := by
  have binary {op : Intrinsic} (h : b ∈ binaries op) : b.IsPrimitive := by
    obtain ⟨p, -, rfl⟩ := List.mem_map.mp h
    refine ⟨⟨p, rfl⟩, fun u hu => ⟨p, ?_⟩⟩
    simpa using hu
  unfold functions at h
  split at h
  · exact isPrimitive_unaries h
  · exact binary h
  · exact binary h
  · exact isPrimitive_unaries h
  · exact isPrimitive_unaries h
  · exact isPrimitive_unaries h
  · rw [List.mem_singleton.mp h]
    exact ⟨⟨_, rfl⟩, fun u hu => ⟨_, List.mem_singleton.mp hu⟩⟩
  · cases h

/-- A built-in property has a primitive type. -/
theorem property?_prim {t u : Ty} {n : String} {op : Intrinsic}
    (h : property? t n = some (op, u)) : ∃ p, u = .prim p := by
  unfold property? at h
  split at h <;> cases h <;> exact ⟨_, rfl⟩

end Builtin

/-! ### The types of aggregates -/

namespace Discipline.Lawful

variable {D : Discipline} (hD : D.Lawful)
include hD

theorem admits_result? {op : Aggregate} {t u : Ty} (ht : D.Admits t)
    (h : op.result? t = some u) : D.Admits u := by
  unfold Aggregate.result? at h
  split at h
  · obtain ⟨_, q, -, rfl, -⟩ := Ty.accumulator?_cases h
    exact hD.admits_lift q _
  · obtain ⟨v, hv, rfl⟩ := Option.map_eq_some_iff.mp h
    obtain ⟨_, q, -, rfl, -⟩ := Ty.accumulator?_cases hv
    split <;> exact hD.admits_lift _ _
  · split at h <;> cases h
    exact ht
  · split at h <;> cases h
    exact ht
  · cases h

theorem admits_plain? {op : Aggregate} {t u : Ty} (ht : D.Admits t)
    (h : op.plain? t = some u) : D.Admits u := by
  unfold Aggregate.plain? at h
  split at h
  · cases h; exact hD.admits_prim _
  · cases h; exact hD.admits_prim _
  · cases h; exact ht
  · cases h; exact ht
  all_goals first | exact hD.admits_result? ht h | cases h

theorem admits_tested? {op : Aggregate} {t u : Ty} (ht : D.Admits t) (hv : D.value t)
    (h : op.tested? t = some u) : D.Admits u := by
  unfold Aggregate.tested? at h
  split at h <;> cases h
  · exact hD.admits_prim _
  · exact hD.admits_prim _
  · exact hD.admits_prim _
  · exact hD.admits_sequence ht hv
  · exact ht
  · exact ht

theorem admits_selected? {op : Aggregate} {t u v : Ty} (ht : D.Admits t) (hv : D.value t)
    (hu : D.Admits u) (hw : D.value u) (h : op.selected? t u = some v) : D.Admits v := by
  unfold Aggregate.selected? at h
  split at h
  · cases h; exact hD.admits_sequence hu hw
  · cases h; exact hD.admits_sequence ht hv
  · cases h; exact hD.admits_sequence ht hv
  all_goals first | exact hD.admits_result? hu h | cases h

theorem admits_taken? {op : Aggregate} {t u v : Ty} (ht : D.Admits t) (hv : D.value t)
    (h : op.taken? t = some (u, v)) : D.Admits u ∧ D.value u ∧ D.Admits v := by
  unfold Aggregate.taken? at h
  split at h <;> cases h
  · exact ⟨hD.admits_prim _, hD.valued rfl, hD.admits_sequence ht hv⟩
  · exact ⟨hD.admits_prim _, hD.valued rfl, hD.admits_sequence ht hv⟩
  · exact ⟨ht, hv, hD.admits_prim _⟩

end Discipline.Lawful

/-! ### Names in scope -/

theorem ParameterTable.symbolAt?_eq {t : ParameterTable} {i : Nat} {sym : Symbol}
    (h : t.symbolAt? i = some sym) :
    ∃ d, t.parameters[i]? = some d ∧ sym = ⟨d.name, .parameter i, d.type⟩ := by
  obtain ⟨d, hd, rfl⟩ := Option.map_eq_some_iff.mp h
  exact ⟨d, hd, rfl⟩

theorem ParameterTable.implicit?_eq {t : ParameterTable} {sym : Symbol}
    (h : t.implicit? = some sym) :
    ∃ i, t.implicit = some i ∧
      ∃ d, t.parameters[i]? = some d ∧ sym = ⟨d.name, .parameter i, d.type⟩ := by
  obtain ⟨i, hi, h⟩ := Option.bind_eq_some_iff.mp h
  exact ⟨i, hi, symbolAt?_eq h⟩

theorem Symbol.isParameter_constant? {n : String} {sym : Symbol} (h : constant? n = some sym) :
    sym.isParameter = false := by
  unfold constant? at h
  split at h <;> cases h <;> rfl

/-- A name stands for a parameter that has it. -/
theorem ParameterTable.lookup?_eq {t : ParameterTable} {n : String} {sym : Symbol}
    (h : t.lookup? n = some sym) (hs : sym.isParameter = true) :
    n ≠ "" ∧ ∃ i d, t.parameters[i]? = some d ∧ d.name = n ∧ sym = ⟨n, .parameter i, d.type⟩ := by
  unfold lookup? at h
  split at h
  · cases h
    rw [Symbol.isParameter_constant? (by assumption)] at hs
    cases hs
  · split at h
    · cases h
    · rename_i hn
      obtain ⟨i, hi, h⟩ := Option.bind_eq_some_iff.mp h
      obtain ⟨d, hd, rfl⟩ := symbolAt?_eq h
      obtain ⟨hlt, hdn, -⟩ := List.findIdx?_eq_some_iff_getElem.mp hi
      have hname : d.name = n := by
        rw [List.getElem?_eq_getElem hlt] at hd
        cases hd
        simpa using hdn
      exact ⟨fun h => hn (by simp [h]), i, d, hd, hname, by rw [hname]⟩

/-- An element has no name. -/
theorem ParameterTable.lookup?_ofElement {t : Ty} {n : String} {sym : Symbol}
    (h : (ofElement t).lookup? n = some sym) : sym.isParameter = false := by
  cases hs : sym.isParameter with
  | false => rfl
  | true =>
    obtain ⟨hn, i, d, hi, hd, -⟩ := lookup?_eq h hs
    rw [List.mem_singleton.mp (List.mem_of_getElem? hi)] at hd
    exact absurd hd.symm hn

namespace Scopes

variable {D : Discipline} {s : Scopes}

/-- A parameter is found in the table of the lambda. -/
theorem lookup?_eq {n : String} {sym : Symbol} (h : s.lookup? n = some sym)
    (hs : sym.isParameter = true) : s.root.lookup? n = some sym := by
  obtain ⟨t, ht, h⟩ := List.exists_of_findSome?_eq_some h
  rcases List.mem_append.mp ht with ht | ht
  · obtain ⟨u, -, rfl⟩ := List.mem_map.mp ht
    rw [ParameterTable.lookup?_ofElement h] at hs
    cases hs
  · rw [List.mem_singleton.mp ht] at h
    exact h

theorem Denotes.type (hs : s.Valued D) {sym : Symbol} (h : s.Denotes D sym) :
    D.Admits sym.type ∧ D.value sym.type := by
  rcases h with h | ⟨n, -, h, hp⟩
  · unfold Scopes.implicit? current at h
    split at h
    · rename_i t ts ht
      cases h
      exact hs.2 t (by simp [ht])
    · obtain ⟨i, -, d, hd, rfl⟩ := ParameterTable.implicit?_eq h
      exact hs.1 d (List.mem_of_getElem? hd)
  · obtain ⟨-, i, d, hd, -, rfl⟩ := ParameterTable.lookup?_eq (lookup?_eq h hp) hp
    exact hs.1 d (List.mem_of_getElem? hd)

theorem Valued.push (hs : s.Valued D) {t : Ty} (ht : D.Admits t) (hv : D.value t) :
    (s.push t).Valued D := by
  refine ⟨hs.1, fun u hu => ?_⟩
  rcases List.mem_cons.mp hu with rfl | hu
  · exact ⟨ht, hv⟩
  · exact hs.2 u hu

end Scopes

end QueryExpr
