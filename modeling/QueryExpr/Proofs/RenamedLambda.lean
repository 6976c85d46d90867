/-
# Lambdas under other names

A lambda is put together from a renamed body as from the body itself, over
renamed parameters and what it has to return, renamed. Where an expression is
written twice in different places, it is checked to the same both times, up to
places; so what one text is compiled to, up to places and under other names,
another one is, if it is checked to the same.

Key definitions: `Target.rename`, `Lambda.rename`, `Lambda.bare`.
Key theorems: `Lambda.assemble_rename`, `Lambda.compile_of_bare`,
`Lambda.rename_self`.
-/
import QueryExpr.Lambda.Compile
import QueryExpr.Proofs.MovedCheck
import QueryExpr.Proofs.RenamedTerms
import QueryExpr.Proofs.RenderedExpr

namespace QueryExpr

variable {r : Renaming}

/-- The delegate over renamed types. -/
def Delegate.rename (r : Renaming) (d : Delegate) : Delegate :=
  ⟨d.name, d.parameters.map (Declaration.rename r), d.returns.rename r⟩

/-- What a lambda has to return, renamed. -/
def Target.rename (r : Renaming) : Target → Target
  | .inferred => .inferred
  | .type t => .type (t.rename r)
  | .delegate d => .delegate (d.rename r)

/-- The lambda over renamed types, with the members that it names renamed. -/
def Lambda.rename (r : Renaming) (l : Lambda) : Lambda :=
  ⟨l.parameters.map (Declaration.rename r), l.body.rename r, l.returns.rename r,
    l.delegate.rename r⟩

/-! ### Putting lambdas together -/

theorem Ty.rename_ofDelegate (name : Option String) (ds : List Declaration) (t : Ty) :
    (Ty.ofDelegate name ds t).rename r =
      .ofDelegate name (ds.map (Declaration.rename r)) (t.rename r) := by
  rw [ofDelegate, ofDelegate, rename, renameAll_eq_map, List.map_map, List.map_map, List.map_map]
  rfl

namespace ParameterTable

theorem duplicateAfter_rename : ∀ (ds : List Declaration) (seen : List String),
    duplicateAfter seen (ds.map (Declaration.rename r)) = duplicateAfter seen ds
  | [], _ => rfl
  | d :: ds, seen => by
    rw [List.map_cons, duplicateAfter, duplicateAfter, duplicateAfter_rename ds,
      duplicateAfter_rename ds]
    rfl

theorem make_rename {ds : List Declaration} {implicit : Option Nat} {table : ParameterTable}
    (h : make ds implicit = .ok table) :
    make (ds.map (Declaration.rename r)) implicit = .ok (table.rename r) := by
  unfold make duplicate? at h ⊢
  rw [duplicateAfter_rename, List.length_map]
  cases hd : duplicateAfter [] ds <;> rw [hd] at h <;> cases h
  rfl

/-- The same names are those of parameters. -/
theorem declares_rename (t : ParameterTable) : (t.rename r).declares = t.declares := by
  funext n
  rw [declares, declares, lookup?_rename, Option.any_map]
  rfl

end ParameterTable

namespace Lambda

variable {body e : Term} {t : Ty} {ds : List Declaration} {target : Target} {f : Lambda}

theorem convertBody_rename (h : convertBody body t = .ok e) :
    convertBody (body.rename r) (t.rename r) = .ok (e.rename r) := by
  unfold convertBody at h ⊢
  rw [Ty.isVoid_rename, body.type_rename, Ty.isVoid_rename, body.isCallShaped_rename,
    body.coerce?_rename]
  split at h <;> rename_i hv
  · rw [if_pos hv]
    split at h <;> rename_i hb
    · cases h
      exact if_pos hb
    · cases h
  · rw [if_neg hv]
    split at h <;> rename_i hb
    · cases h
    · rw [if_neg hb]
      cases he : body.coerce? t <;> rw [he] at h <;> cases h
      rfl

theorem mismatch?_rename : ∀ ds ps : List Declaration, mismatch? ds ps = none →
    mismatch? (ds.map (Declaration.rename r)) (ps.map (Declaration.rename r)) = none
  | [], _, _ => by unfold mismatch?; rfl
  | _ :: _, [], _ => by unfold mismatch?; rfl
  | d :: ds, p :: ps, h => by
    unfold mismatch? at h
    have htypes : ((d.rename r).type == (p.rename r).type) = (d.type == p.type) :=
      Ty.beq_rename d.type p.type
    rw [List.map_cons, List.map_cons, mismatch?]
    split at h
    · rw [if_pos (by rwa [htypes])]
      exact mismatch?_rename ds ps h
    · cases h

theorem checkParameters_rename {d : Delegate} {u : Unit} (h : checkParameters d ds = .ok u) :
    checkParameters (d.rename r) (ds.map (Declaration.rename r)) = .ok u := by
  unfold checkParameters at h ⊢
  split at h <;> rename_i hlength
  · cases h
  · cases hm : mismatch? d.parameters ds <;> rw [hm] at h <;> cases h
    rw [if_neg (by simpa only [Delegate.rename, List.length_map] using hlength)]
    have hnone : mismatch? (d.rename r).parameters (ds.map (Declaration.rename r)) = none :=
      mismatch?_rename _ _ hm
    rw [hnone]

/-- A lambda is put together from a renamed body like from the body itself. -/
theorem assemble_rename (h : assemble ds body target = .ok f) :
    assemble (ds.map (Declaration.rename r)) (body.rename r) (target.rename r) =
      .ok (f.rename r) := by
  cases target with
  | inferred =>
    cases h
    rw [Target.rename, assemble, body.type_rename, ← Ty.rename_ofDelegate]
    rfl
  | type wanted =>
    rw [assemble] at h
    rw [Target.rename, assemble]
    cases he : convertBody body wanted <;> rw [he] at h <;> cases h
    rw [convertBody_rename he]
    show Except.ok _ = Except.ok _
    rw [← Ty.rename_ofDelegate]
    rfl
  | delegate d =>
    rw [assemble] at h
    rw [Target.rename, assemble]
    cases hp : checkParameters d ds <;> rw [hp] at h
    · cases h
    · cases he : convertBody body d.returns <;> rw [he] at h <;> cases h
      rw [checkParameters_rename hp, show (d.rename r).returns = d.returns.rename r from rfl,
        convertBody_rename he]
      show Except.ok _ = Except.ok _
      rw [Delegate.type, Delegate.rename, ← Ty.rename_ofDelegate]
      rfl

end Lambda

/-! ### Without places -/

/-- The term without the places of its parts. -/
def Term.bare (e : Term) : Term := e.relocate fun _ => 0

/-- The lambda without the places of the parts of its body. -/
def Lambda.bare (f : Lambda) : Lambda := f.relocate fun _ => 0

namespace Expr

mutual
/-- To take away all places is to move them all to the start. -/
theorem bare_eq_relocate : ∀ e : Expr, e.bare = e.relocate fun _ => 0
  | .literal .. | .name _ | .typeName _ => rfl
  | .member e _ _ | .unary _ e _ => by
    rw [bare, relocate, bare_eq_relocate e]
    rfl
  | .index e es _ | .callOn e _ es _ | .inList e es _ => by
    rw [bare, relocate, bare_eq_relocate e, bareAll_eq_relocateAll es]
    rfl
  | .call _ es _ | .conversion _ es _ | .newRecord _ es _ | .newArray _ es _ => by
    rw [bare, relocate, bareAll_eq_relocateAll es]
    rfl
  | .binary _ e e' _ | .inSource e e' _ => by
    rw [bare, relocate, bare_eq_relocate e, bare_eq_relocate e']
    rfl
  | .conditional c a b _ => by
    rw [bare, relocate, bare_eq_relocate c, bare_eq_relocate a, bare_eq_relocate b]
    rfl
termination_by structural e => e

theorem bareAll_eq_relocateAll : ∀ es : List Expr, bareAll es = relocateAll (fun _ => 0) es
  | [] => rfl
  | e :: es => by rw [bareAll, relocateAll, bare_eq_relocate e, bareAll_eq_relocateAll es]
termination_by structural es => es
end

/-- What differs in nothing but places is checked to what differs in nothing but
places. -/
theorem check_of_bare {e e' : Expr} {o : Options} {table : ParameterTable}
    {records records' : RecordCache} {body : Term} (hbare : e'.bare = e.bare)
    (h : e.check o table records = (.ok body, records')) :
    ∃ body', e'.check o table records = (.ok body', records') ∧ body'.bare = body.bare := by
  have hzero : Monotone fun _ : Nat => 0 := fun _ _ _ => Nat.le_refl _
  have hcheck := check_relocate hzero e o table records
  rw [← bare_eq_relocate, ← hbare, bare_eq_relocate, check_relocate hzero e', h] at hcheck
  obtain ⟨hresult, hrecords⟩ := Prod.mk.inj hcheck
  rcases hc : e'.check o table records with ⟨failure | body', d⟩
  · rw [hc] at hresult
    cases hresult
  · rw [hc] at hresult hrecords
    cases hrecords
    exact ⟨body', rfl, Except.ok.inj hresult⟩

end Expr

namespace Lambda

variable {body body' : Term} {ds : List Declaration} {target : Target} {f : Lambda}

theorem assemble_of_bare (hbare : body'.bare = body.bare) (h : assemble ds body target = .ok f) :
    ∃ f', assemble ds body' target = .ok f' ∧ f'.bare = f.bare := by
  have hassemble := assemble_relocate (f := fun _ => 0) rfl ds body target
  rw [show body.relocate _ = body'.relocate _ from hbare.symm, assemble_relocate rfl, h]
    at hassemble
  cases hf : assemble ds body' target with
  | error failure =>
    rw [hf] at hassemble
    cases hassemble
  | ok f' =>
    rw [hf] at hassemble
    exact ⟨f', rfl, Except.ok.inj hassemble⟩

/-- A text is compiled to the lambda that the expression comes to, up to places,
if it spells the expression up to places. -/
theorem compile_of_bare {o : Options} {implicit : Option Nat} {text : String}
    {table : ParameterTable} {records records' : RecordCache} {e e' : Expr}
    (htable : ParameterTable.make ds implicit = .ok table)
    (hparse : Expr.parse (o.grammar table) text.toList = .ok e') (hbare : e'.bare = e.bare)
    (hcheck : e.check o table records = (.ok body, records'))
    (hassemble : assemble ds body target = .ok f) :
    ∃ f', compile o ds implicit target text records = (.ok f', records') ∧ f'.bare = f.bare := by
  obtain ⟨body', hcheck', hbody⟩ := Expr.check_of_bare hbare hcheck
  obtain ⟨f', hassemble', hf⟩ := assemble_of_bare hbody hassemble
  refine ⟨f', ?_, hf⟩
  unfold compile
  rw [htable]
  dsimp only
  rw [hparse]
  dsimp only
  rw [hcheck']
  exact congrArg (·, records') hassemble'

end Lambda

/-! ### Names that stay -/

namespace Ty

theorem newName_self (t : Ty) (n : String) : t.newName (fun _ n => n) n = n := by
  cases t <;> rfl

theorem nameIn_self (t : Ty) (n : String) : t.nameIn (fun _ n => n) n = n := by
  unfold nameIn
  split
  · exact newName_self _ n
  · rfl

theorem coherent_self (t : Ty) : t.Coherent fun _ n => n := by
  intro u _ v _ n m _ _
  rw [newName_self, newName_self]

end Ty

namespace Term

mutual
/-- Terms are what they were if every name stays. -/
theorem rename_self : ∀ e : Term, e.rename (fun _ n => n) = e
  | .constant .. | .parameter .. => by rw [rename, Ty.rename_self]
  | .member e .. => by rw [rename, rename_self e, Ty.nameIn_self, Ty.rename_self]
  | .index e es .. | .intrinsic _ e es .. | .inList e es .. | .invoke e es .. => by
    rw [rename, rename_self e, renameAll_self es, Ty.rename_self]
  | .call e _ es .. => by
    rw [rename, rename_self e, Ty.nameIn_self, renameAll_self es, Ty.rename_self]
  | .function _ es .. | .newRecord es .. | .newArray es .. => by
    rw [rename, renameAll_self es, Ty.rename_self]
  | .aggregate _ e .. | .convert e .. | .unary _ e .. => by
    rw [rename, rename_self e, Ty.rename_self]
  | .aggregateBy _ e e' .. | .aggregateWith _ e e' .. | .binary _ e e' .. | .coalesce e e' ..
  | .inSequence e e' .. => by rw [rename, rename_self e, rename_self e', Ty.rename_self]
  | .conditional c a b .. => by
    rw [rename, rename_self c, rename_self a, rename_self b, Ty.rename_self]
termination_by structural e => e

theorem renameAll_self : ∀ es : List Term, renameAll (fun _ n => n) es = es
  | [] => rfl
  | e :: es => by rw [renameAll, rename_self e, renameAll_self es]
termination_by structural es => es
end

end Term

theorem Properties.rename_self (ps : Properties) : ps.rename (fun _ n => n) = ps := by
  simp only [Properties.rename, Ty.rename_self, List.map_id']

theorem RecordType.rename_self (record : RecordType) : record.rename (fun _ n => n) = record := by
  rw [RecordType.rename, Properties.rename_self]

theorem RecordCache.rename_self (c : RecordCache) : c.rename (fun _ n => n) = c := by
  have hrecords : RecordType.rename (fun _ n => n) = id := funext RecordType.rename_self
  rw [RecordCache.rename, hrecords, List.map_id]

theorem Declaration.rename_self : Declaration.rename (fun _ n => n) = id :=
  funext fun d => by rw [Declaration.rename, Ty.rename_self, id]

theorem ParameterTable.rename_self (t : ParameterTable) : t.rename (fun _ n => n) = t := by
  rw [ParameterTable.rename, Declaration.rename_self, List.map_id]

theorem Context.rename_self (c : Context) : c.rename (fun _ n => n) = c := by
  have htypes : Ty.rename (fun _ n => n) = id := funext Ty.rename_self
  rw [Context.rename, RecordCache.rename_self, Scopes.rename, ParameterTable.rename_self, htypes,
    List.map_id]

end QueryExpr
