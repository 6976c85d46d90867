/-
# What parameters stand for

The checker takes a name for a parameter of the lambda, by its place, or for
the current element of the body that it stands in. A term carries only the
name that the value is bound to. Where no name is declared twice, the name
says in its scopes what the checker took it for.

Evaluation finds a value by its name, the last binding first. Among the
parameters it is the last one bound to the name, which is another than the
one meant only where several parameters are bound to `it`.

Key definitions: `Referent`, `Scopes.Resolves`, `Scopes.referent?`,
`Declaration.lastNamed`, `Declaration.lastAlike`.
Key theorems: `Scopes.Denotes.resolves`, `Declaration.lookup_bindings`,
`Declaration.lastAlike_eq_iff`, `ParameterTable.boundName_eq`.
-/
import QueryExpr.Proofs.Disciplines
import QueryExpr.Value

namespace QueryExpr

/-- What a parameter stands for: a parameter of the lambda, or the current
element of the innermost body. -/
inductive Referent
  | argument (index : Nat)
  | element
  deriving DecidableEq

/-- The discipline that asks for nothing but that no parameter is called as
`it`. -/
def Discipline.scoped : Discipline where
  type _ := True
  value _ := True
  null _ := True
  call n := n ≠ implicitName
  cast _ _ := True

theorem Discipline.lawful_scoped : scoped.Lawful := by
  constructor <;> intros <;> trivial

namespace Scopes

/-- What the checker takes a symbol for. -/
inductive Resolves (s : Scopes) : Symbol → Referent → Prop
  /-- In a body `it` is the element. -/
  | element {t : Ty} {ts : List Ty} :
      s.elements = t :: ts → Resolves s ⟨"", .parameter 0, t⟩ .element
  /-- Outside of bodies `it` is the parameter chosen for it. -/
  | implicit {n : String} {i : Nat} {t : Ty} :
      s.elements = [] → s.root.implicit? = some ⟨n, .parameter i, t⟩ →
      Resolves s ⟨n, .parameter i, t⟩ (.argument i)
  /-- Any other name is that of a parameter. -/
  | named {n : String} {i : Nat} {t : Ty} :
      n ≠ implicitName → s.root.lookup? n = some ⟨n, .parameter i, t⟩ →
      Resolves s ⟨n, .parameter i, t⟩ (.argument i)

/-- What the name that a value is bound to stands for. -/
def referent? (s : Scopes) (name : String) : Option Referent :=
  if name = implicitName then
    if s.elements.isEmpty then s.root.implicit.map .argument else some .element
  else (s.root.parameters.findIdx? fun d => d.name == name).map .argument

end Scopes

/-! ### Declared names -/

namespace ParameterTable

theorem not_mem_of_duplicateAfter : ∀ {ds : List Declaration} {seen : List String},
    duplicateAfter seen ds = none → ∀ d ∈ ds, d.name ≠ "" → d.name ∉ seen
  | d :: ds, seen, h, e, he, hn, hs => by
    unfold duplicateAfter at h
    split at h
    · rename_i hd
      rcases List.mem_cons.mp he with rfl | he
      · simp at hd
        exact hn hd
      · exact not_mem_of_duplicateAfter h e he hn hs
    · split at h
      · cases h
      · rename_i hd
        rcases List.mem_cons.mp he with rfl | he
        · exact hd (by simpa using hs)
        · exact not_mem_of_duplicateAfter h e he hn (List.mem_cons_of_mem _ hs)

/-- A parameter that has a name is the first of its name. -/
theorem findIdx?_of_duplicateAfter : ∀ {ds : List Declaration} {seen : List String} {i : Nat}
    {d : Declaration}, duplicateAfter seen ds = none → ds[i]? = some d → d.name ≠ "" →
    (ds.findIdx? fun e => e.name == d.name) = some i
  | d :: ds, seen, 0, e, h, hi, hn => by
    cases hi
    simp [List.findIdx?_cons]
  | d :: ds, seen, i + 1, e, h, hi, hn => by
    have hi : ds[i]? = some e := by simpa using hi
    have hm := List.mem_of_getElem? hi
    unfold duplicateAfter at h
    split at h
    · rename_i hd
      have hde : (d.name == e.name) = false := by
        simp at hd
        simp [hd, Ne.symm hn]
      rw [List.findIdx?_cons, hde, findIdx?_of_duplicateAfter h hi hn]
      rfl
    · split at h
      · cases h
      · have hde : (d.name == e.name) = false := by
          have := not_mem_of_duplicateAfter h e hm hn
          simp at this
          simp [Ne.symm this.1]
        rw [List.findIdx?_cons, hde, findIdx?_of_duplicateAfter h hi hn]
        rfl

theorem make_ok {ds : List Declaration} {implicit : Option Nat} {t : ParameterTable}
    (h : make ds implicit = .ok t) : t.parameters = ds ∧ duplicate? ds = none := by
  unfold make at h
  split at h
  · cases h
  · cases h
    exact ⟨rfl, by assumption⟩

end ParameterTable

/-- The name that a parameter with a name is bound to is that name. -/
theorem Symbol.boundName_of_name {sym : Symbol} (h : sym.name ≠ "") :
    sym.boundName = sym.name := by
  unfold boundName
  split
  · simp_all
  · rfl

/-- A name stands for the parameter that has it. -/
theorem ParameterTable.referent_of_name {t : ParameterTable} {i : Nat} {d : Declaration}
    (ht : duplicate? t.parameters = none) (hi : t.parameters[i]? = some d) (hn : d.name ≠ "") :
    (t.parameters.findIdx? fun e => e.name == d.name).map Referent.argument = some (.argument i) := by
  rw [findIdx?_of_duplicateAfter ht hi hn]
  rfl

/-- **The name in a term stands for what the checker took it for.** -/
theorem Scopes.Denotes.resolves {s : Scopes} {sym : Symbol} (h : s.Denotes .scoped sym)
    (hd : ParameterTable.duplicate? s.root.parameters = none) :
    ∃ r, s.Resolves sym r ∧ s.referent? sym.boundName = some r := by
  rcases h with h | ⟨n, hn, h, hp⟩
  · unfold Scopes.implicit? current at h
    split at h
    · rename_i t ts ht
      cases h
      exact ⟨.element, .element ht, by simp [Symbol.boundName, referent?, ht]⟩
    · rename_i ht
      obtain ⟨i, hi, d, hdi, rfl⟩ := ParameterTable.implicit?_eq h
      refine ⟨.argument i, .implicit ht h, ?_⟩
      unfold referent?
      split
      · simp [ht, hi]
      · rename_i hb
        have hname : d.name ≠ "" := fun he => hb (by simp [Symbol.boundName, he])
        rw [Symbol.boundName_of_name hname]
        exact ParameterTable.referent_of_name hd hdi hname
  · have hroot := Scopes.lookup?_eq h hp
    obtain ⟨hne, i, d, hdi, rfl, rfl⟩ := ParameterTable.lookup?_eq hroot hp
    refine ⟨.argument i, .named hn hroot, ?_⟩
    unfold referent?
    rw [Symbol.boundName_of_name hne, if_neg hn]
    exact ParameterTable.referent_of_name hd hdi hne

/-! ### Names of bindings -/

namespace Declaration

/-- The place of the last parameter that is bound to a name. -/
def lastNamed (name : String) : List Declaration → Option Nat
  | [] => none
  | d :: ds =>
    match lastNamed name ds with
    | some i => some (i + 1)
    | none => if d.boundName = name then some 0 else none

/-- The place of the last parameter that is bound to the same name as the one
at the given place. -/
def lastAlike (ds : List Declaration) (i : Nat) : Nat :=
  (ds[i]?.bind fun d => lastNamed d.boundName ds).getD i

theorem lastNamed_eq_none {name : String} : ∀ {ds : List Declaration},
    lastNamed name ds = none → ∀ d ∈ ds, d.boundName ≠ name
  | d :: ds, h, e, he => by
    unfold lastNamed at h
    split at h
    · cases h
    · rename_i hn
      split at h
      · cases h
      · rcases List.mem_cons.mp he with rfl | he
        · assumption
        · exact lastNamed_eq_none hn e he

theorem lastNamed_eq_some {name : String} : ∀ {ds : List Declaration} {i : Nat},
    lastNamed name ds = some i →
    (∃ d, ds[i]? = some d ∧ d.boundName = name) ∧
      ∀ j d, i < j → ds[j]? = some d → d.boundName ≠ name
  | d :: ds, i, h => by
    unfold lastNamed at h
    split at h
    · rename_i k hk
      cases h
      obtain ⟨hd, hlast⟩ := lastNamed_eq_some hk
      refine ⟨by simpa using hd, fun j e hj he => ?_⟩
      cases j with
      | zero => omega
      | succ j => exact hlast j e (by omega) (by simpa using he)
    · rename_i hn
      split at h <;> cases h
      rename_i hd
      refine ⟨⟨d, rfl, hd⟩, fun j e hj he => ?_⟩
      cases j with
      | zero => omega
      | succ j => exact lastNamed_eq_none hn e (List.mem_of_getElem? (by simpa using he))

/-- **The last parameter alike is the parameter itself just if no later one is
bound to the same name.** -/
theorem lastAlike_eq_iff {ds : List Declaration} {i : Nat} {d : Declaration}
    (hi : ds[i]? = some d) :
    lastAlike ds i = i ↔ ∀ j e, i < j → ds[j]? = some e → e.boundName ≠ d.boundName := by
  have hbind : lastAlike ds i = (lastNamed d.boundName ds).getD i := by
    unfold lastAlike
    rw [hi]
    rfl
  rw [hbind]
  cases hl : lastNamed d.boundName ds with
  | none => exact absurd rfl (lastNamed_eq_none hl d (List.mem_of_getElem? hi))
  | some k =>
    obtain ⟨⟨e, hk, he⟩, hlast⟩ := lastNamed_eq_some hl
    constructor
    · intro h
      have h : k = i := h
      subst h
      exact hlast
    · intro h
      have hik : i ≤ k := Nat.le_of_not_lt fun hlt => hlast i d hlt hi rfl
      have hki : k ≤ i := Nat.le_of_not_lt fun hlt => h k e hlt hk he
      exact Nat.le_antisymm hki hik

/-- A name is looked up among the bindings of parameters: the last parameter
bound to it is found. -/
theorem lookup_bindings (name : String) : ∀ {ds : List Declaration} {vs : List Value},
    ds.length = vs.length →
    ((ds.map boundName).zip vs).reverse.lookup name = (lastNamed name ds).bind (vs[·]?)
  | [], [], _ => rfl
  | d :: ds, v :: vs, h => by
    have ih := lookup_bindings name (Nat.succ.inj h)
    rw [List.map_cons, List.zip_cons_cons, List.reverse_cons, List.lookup_append, ih]
    cases hl : lastNamed name ds with
    | some i =>
      have hi : i < ds.length := by
        obtain ⟨⟨e, he, -⟩, -⟩ := lastNamed_eq_some hl
        exact (List.getElem?_eq_some_iff.mp he).1
      have hv : i < vs.length := by
        have := Nat.succ.inj h
        omega
      simp [lastNamed, hl, List.getElem?_eq_getElem hv]
    | none =>
      by_cases hd : d.boundName = name
      · simp [lastNamed, hl, hd]
      · have hne : (name == d.boundName) = false := by simp [Ne.symm hd]
        simp [lastNamed, hl, hd, List.lookup_cons, hne]

end Declaration

/-- Of two parameters bound to the same name, that name is `it`. -/
theorem ParameterTable.boundName_eq {ds : List Declaration} (h : duplicate? ds = none)
    {i j : Nat} {d e : Declaration} (hij : i < j) (hi : ds[i]? = some d) (hj : ds[j]? = some e)
    (hb : e.boundName = d.boundName) : d.boundName = implicitName := by
  refine Decidable.byContradiction fun hn => ?_
  have hd : d.name ≠ "" := fun he => hn (by simp [Declaration.boundName, he])
  have he : e.name ≠ "" := fun h => hn (by rw [← hb]; simp [Declaration.boundName, h])
  have hname : e.name = d.name := by simpa [Declaration.boundName, hd, he] using hb
  have hdi := findIdx?_of_duplicateAfter h hi hd
  have hej := findIdx?_of_duplicateAfter h hj he
  rw [hname, hdi] at hej
  have : i = j := Option.some.inj hej
  omega

end QueryExpr
