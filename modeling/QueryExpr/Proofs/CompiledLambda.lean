/-
# What is compiled

A lambda that compiles comes from a table of its parameters, an expression
that the text spells, and a body that the expression is checked to. What is
known of checked expressions is so known of compiled lambdas.

Key theorems: `Lambda.compile_ok`, `Lambda.compile_grows`,
`Lambda.compile_typed`.
-/
import QueryExpr.Lambda.Compile
import QueryExpr.Proofs.ParsedExpr
import QueryExpr.Proofs.Referents
import QueryExpr.Proofs.WellTyped

namespace QueryExpr.Lambda

variable {o : Options} {ds : List Declaration} {implicit : Option Nat} {target : Target}
  {text : String} {records records' : RecordCache} {f : Lambda}

/-- The stages that a lambda goes through when it compiles. -/
theorem compile_ok (h : compile o ds implicit target text records = (.ok f, records')) :
    ∃ t e body, ParameterTable.make ds implicit = .ok t ∧
      Expr.parse (o.grammar t) text.toList = .ok e ∧ e.check o t records = (.ok body, records') ∧
      assemble ds body target = .ok f := by
  unfold compile at h
  split at h
  · cases h
  · rename_i t ht
    split at h
    · cases h
    · rename_i e he
      split at h
      · cases h
      · rename_i body c hb
        obtain ⟨hf, rfl⟩ := Prod.mk.inj h
        exact ⟨t, e, body, ht, he, hb, hf⟩

/-- Compiling makes record types and loses none, whether or not it fails. -/
theorem compile_grows (o : Options) (ds : List Declaration) (implicit : Option Nat)
    (target : Target) (text : String) (records : RecordCache) :
    records.Grows (compile o ds implicit target text records).2 := by
  unfold compile
  split
  · exact .refl
  · rename_i t _
    split
    · exact .refl
    · rename_i e _
      have h := e.check_grows o t records
      split <;> rename_i hc <;> rwa [hc] at h

/-- **The body of a compiled lambda is made by the rules of typing**, and has
the type that the lambda returns. -/
theorem compile_typed {D : Discipline} (hD : D.Lawful) {allowed : Ty → Ty → Bool}
    (hcast : D.Grants allowed) (hs : ∀ d ∈ ds, D.Admits d.type ∧ D.value d.type)
    (ht : ∀ t, target.type? = some t → D.Admits t)
    (ha : ∀ t e, ParameterTable.make ds implicit = .ok t →
      Expr.parse (o.grammar t) text.toList = .ok e → e.Avoids allowed o t records)
    (hc : D.Covers records) (hc' : D.Agrees records')
    (h : compile o ds implicit target text records = (.ok f, records')) :
    f.parameters = ds ∧ ∃ t, ParameterTable.make ds implicit = .ok t ∧
      Term.Typed D (.ofTable t) f.body ∧
      (f.returns.isVoid = true ∨ (f.body.type == f.returns) = true) := by
  obtain ⟨t, e, body, hmake, hparse, hcheck, hf⟩ := compile_ok h
  have hds : t.parameters = ds := (ParameterTable.make_ok hmake).1
  have hv : (Scopes.ofTable t).Valued D :=
    ⟨fun d hd => hs d (hds ▸ hd), List.forall_mem_nil _⟩
  have hregular : e.Regular D.call :=
    .mono (fun n hn => hD.named hn) e (Expr.regular_of_parse hparse)
  have hbody := Expr.check_sound hD hcast hregular (ha t e hmake hparse) hv hc hc' hcheck
  exact ⟨(assemble_cases hf).1, t, hmake, assemble_typed hD hv hbody ht hf⟩

end QueryExpr.Lambda
