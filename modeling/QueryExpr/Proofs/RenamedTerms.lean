/-
# Terms and contexts under other names

Where what classes declare goes by other names, a checked expression names the
same members under their new names, over renamed types; so do the names in
scope and the record types made so far. A member keeps its place: along the
chain of a type every name is found where it was, as long as the new names of
what is declared along the chain are told apart like the old ones.

Key definitions: `Ty.nameIn`, `Ty.Coherent`, `Renaming.Free`, `Term.rename`,
`Context.rename`.
Key theorems: `Ty.takes_nameIn`, `Ty.Takes.member?`, `Ty.Takes.methods`,
`selectOverload_rename`, `RecordCache.request_rename`.
-/
import Mathlib.Data.List.Forall2
import QueryExpr.Proofs.Disciplines
import QueryExpr.Proofs.RecordGrowth
import QueryExpr.Proofs.RenamedTypes

namespace QueryExpr

variable {r : Renaming}

/-! ### Names of members -/

/-- No other name becomes this one. -/
def Renaming.Free (r : Renaming) (n : String) : Prop := ∀ c m, r c m = n → m = n

namespace Ty

/-- Whether the type itself declares a property or a method of the name. -/
def declares (t : Ty) (n : String) : Bool :=
  (t.ownProperties.lookup n).isSome || !(t.ownMethods n).isEmpty

/-- The new name of the member or method that a name stands for in a type. -/
def nameIn (r : Renaming) (t : Ty) (n : String) : String :=
  match t.chain.find? (·.declares n) with
  | some u => u.newName r n
  | none => n

/-- What is declared along the chain of the type is told apart by its new names
as by the old ones. -/
def Coherent (r : Renaming) (t : Ty) : Prop :=
  ∀ u ∈ t.chain, ∀ v ∈ t.chain, ∀ n m, u.declares n = true → v.declares m = true →
    (u.newName r n = v.newName r m ↔ n = m)

/-- What is found under the first name in the type is what is found under the
second one in the renamed type. -/
def Takes (r : Renaming) (t : Ty) (n n' : String) : Prop :=
  ∀ u ∈ t.chain, ∀ m, u.declares m = true → (u.newName r m = n' ↔ m = n)

variable {t u : Ty} {n n' : String}

theorem newName_of_free (hn : r.Free n) {m : String} (h : u.newName r m = n) : m = n := by
  cases u with
  | cls c => exact hn c m h
  | _ => exact h

theorem takes_nameIn (hc : t.Coherent r) (hn : r.Free n) : t.Takes r n (t.nameIn r n) := by
  intro u hu m hm
  unfold nameIn
  split
  · rename_i v hv
    have hdeclares := List.find?_some hv
    exact hc u hu v (List.mem_of_find?_eq_some hv) m n hm hdeclares
  · rename_i hnone
    refine ⟨newName_of_free hn, fun heq => ?_⟩
    rw [heq] at hm
    exact absurd hm (List.find?_eq_none.mp hnone u hu)

/-- A name that stays, and that no other name becomes. -/
theorem takes_self (hn : r.Free n) (hr : ∀ c, r c n = n) (t : Ty) : t.Takes r n n := by
  intro u _ m _
  refine ⟨newName_of_free hn, fun heq => ?_⟩
  rw [heq]
  cases u with
  | cls c => exact hr c
  | _ => rfl

theorem lookup_rename {f : String → String} : ∀ {ps : List (String × Ty)},
    (∀ p ∈ ps, f p.1 = n' ↔ p.1 = n) →
    (ps.map fun p => (f p.1, p.2.rename r)).lookup n' = (ps.lookup n).map (rename r)
  | [], _ => rfl
  | p :: ps, h => by
    obtain ⟨hp, hps⟩ := List.forall_mem_cons.mp h
    have hrest := lookup_rename hps
    have heq : (n' == f p.1) = (n == p.1) := by
      rw [Bool.eq_iff_iff, beq_iff_eq, beq_iff_eq, eq_comm, hp, eq_comm]
    rw [List.map_cons, List.lookup_cons, List.lookup_cons, heq]
    cases n == p.1 with
    | true => rfl
    | false => exact hrest

theorem declares_property {p : String × Ty} (h : p ∈ t.ownProperties) : t.declares p.1 = true :=
  Bool.or_eq_true_iff.mpr (.inl (List.lookup_isSome_iff.mpr ⟨p, h, beq_self_eq_true p.1⟩))

theorem Takes.member? (h : t.Takes r n n') :
    (t.rename r).member? n' = (t.member? n).map (rename r) := by
  have hown : ∀ u ∈ t.chain, (u.rename r).ownProperties.lookup n' =
      (u.ownProperties.lookup n).map (rename r) := by
    intro u hu
    rw [ownProperties_rename]
    exact lookup_rename fun p hp => h u hu p.1 (declares_property hp)
  unfold Ty.member?
  rw [chain_rename, List.findSome?_map]
  generalize t.chain = us at hown
  induction us with
  | nil => rfl
  | cons u us ih =>
    obtain ⟨hu, hus⟩ := List.forall_mem_cons.mp hown
    rw [List.findSome?_cons, List.findSome?_cons, Function.comp_apply, hu]
    cases u.ownProperties.lookup n with
    | some v => rfl
    | none => exact ih hus

end Ty

/-- The signature over renamed types. -/
def Signature.rename (r : Renaming) (s : Signature) : Signature :=
  ⟨s.parameters.map (Ty.rename r), s.returns.rename r⟩

namespace Ty

variable {t : Ty} {n n' : String}

theorem Takes.ownMethods {u : Ty} (h : ∀ m, u.declares m = true → (u.newName r m = n' ↔ m = n)) :
    (u.rename r).ownMethods n' = (u.ownMethods n).map (Signature.rename r) := by
  cases u with
  | cls c ps ms is e b v =>
    have hname : ∀ m ∈ ms, (r c m.1 == n') = (m.1 == n) := by
      intro m hm
      have hmem : m ∈ ms.filter (·.1 == m.1) := List.mem_filter.mpr ⟨hm, beq_self_eq_true m.1⟩
      have hdeclares : (Ty.cls c ps ms is e b v).declares m.1 = true := by
        refine Bool.or_eq_true_iff.mpr (.inr ?_)
        rw [Bool.not_eq_true', Ty.ownMethods, List.isEmpty_map]
        exact List.isEmpty_eq_false_iff.mpr (List.ne_nil_of_mem hmem)
      rw [Bool.eq_iff_iff, beq_iff_eq, beq_iff_eq]
      exact h m.1 hdeclares
    rw [Ty.rename, Ty.ownMethods, Ty.ownMethods, renameMethods_eq_map, List.filter_map,
      List.map_map, List.map_map, List.filter_congr (q := fun m => m.1 == n) hname]
    refine List.map_congr_left fun m _ => ?_
    simp only [Function.comp_apply, renameAll_eq_map, Signature.rename]
  | _ => rfl

theorem Takes.methods (h : t.Takes r n n') :
    (t.rename r).methods n' = (t.methods n).map (Signature.rename r) := by
  unfold Ty.methods
  rw [chain_rename, List.flatMap_map, List.map_flatMap]
  exact List.flatMap_congr fun u hu => Takes.ownMethods (h u hu)

theorem indexers_rename (t : Ty) : Check.indexers (t.rename r) =
    (Check.indexers t).map (Signature.rename r) := by
  cases t with
  | prim p => cases p <;> rfl
  | cls n ps ms is e b v => exact ownIndexers_rename (.cls n ps ms is e b v)
  | _ => rfl

end Ty

/-! ### Terms -/

namespace Term

mutual
/-- The term with the names of members and methods, and its types, renamed. -/
def rename (r : Renaming) : Term → Term
  | .constant v t span => .constant v (t.rename r) span
  | .parameter n t span => .parameter n (t.rename r) span
  | .member e n t span => .member (e.rename r) (e.type.nameIn r n) (t.rename r) span
  | .index e es t span => .index (e.rename r) (renameAll r es) (t.rename r) span
  | .call e m es t span =>
    .call (e.rename r) (e.type.nameIn r m) (renameAll r es) (t.rename r) span
  | .intrinsic op e es t span => .intrinsic op (e.rename r) (renameAll r es) (t.rename r) span
  | .function op es t span => .function op (renameAll r es) (t.rename r) span
  | .aggregate op s t span => .aggregate op (s.rename r) (t.rename r) span
  | .aggregateBy op s b t span => .aggregateBy op (s.rename r) (b.rename r) (t.rename r) span
  | .aggregateWith op s a t span => .aggregateWith op (s.rename r) (a.rename r) (t.rename r) span
  | .convert e t span => .convert (e.rename r) (t.rename r) span
  | .unary op e t span => .unary op (e.rename r) (t.rename r) span
  | .binary op e e' t span => .binary op (e.rename r) (e'.rename r) (t.rename r) span
  | .conditional c a b t span =>
    .conditional (c.rename r) (a.rename r) (b.rename r) (t.rename r) span
  | .coalesce e e' t span => .coalesce (e.rename r) (e'.rename r) (t.rename r) span
  | .inList e es t span => .inList (e.rename r) (renameAll r es) (t.rename r) span
  | .inSequence e s t span => .inSequence (e.rename r) (s.rename r) (t.rename r) span
  | .newRecord es t span => .newRecord (renameAll r es) (t.rename r) span
  | .newArray es t span => .newArray (renameAll r es) (t.rename r) span
  | .invoke e es t span => .invoke (e.rename r) (renameAll r es) (t.rename r) span
termination_by structural e => e

/-- The terms with names and types renamed. -/
def renameAll (r : Renaming) : List Term → List Term
  | [] => []
  | e :: es => e.rename r :: renameAll r es
termination_by structural es => es
end

theorem renameAll_eq_map : ∀ es : List Term, renameAll r es = es.map (rename r)
  | [] => rfl
  | e :: es => by rw [renameAll, renameAll_eq_map es, List.map_cons]

theorem length_renameAll (es : List Term) : (renameAll r es).length = es.length := by
  rw [renameAll_eq_map, List.length_map]

section
variable (e : Term)

theorem type_rename : (e.rename r).type = e.type.rename r := by
  cases e <;> rw [rename] <;> rfl

theorem span_rename : (e.rename r).span = e.span := by
  cases e <;> rw [rename] <;> rfl

theorem isNullConstant_rename : (e.rename r).isNullConstant = e.isNullConstant := by
  cases e with
  | constant v => cases v <;> rw [rename] <;> rfl
  | _ => rw [rename]; rfl

theorem integralConstant?_rename : (e.rename r).integralConstant? = e.integralConstant? := by
  cases e <;> rw [rename] <;> rfl

theorem isCallShaped_rename : (e.rename r).isCallShaped = e.isCallShaped := by
  cases e <;> rw [rename] <;> rfl

theorem rename_withSpan (span : Span) :
    (e.withSpan span).rename r = (e.rename r).withSpan span := by
  cases e <;> simp only [withSpan, rename]

theorem rename_convertTo (t : Ty) :
    (e.convertTo t).rename r = (e.rename r).convertTo (t.rename r) := by
  unfold convertTo
  rw [type_rename, isNullConstant_rename, span_rename, Ty.beq_rename]
  split
  · rfl
  · split <;> rw [rename]

theorem assignmentCost?_rename (t : Ty) :
    (e.rename r).assignmentCost? (t.rename r) = e.assignmentCost? t := by
  rw [assignmentCost?, assignmentCost?, fits, fits, type_rename, integralConstant?_rename,
    Ty.conversionCost?_rename, Ty.primitive?_rename]

theorem isAssignable_rename (t : Ty) :
    (e.rename r).isAssignable (t.rename r) = e.isAssignable t := by
  rw [isAssignable, isAssignable, assignmentCost?_rename]

theorem coerce?_rename (t : Ty) :
    (e.rename r).coerce? (t.rename r) = (e.coerce? t).map (rename r) := by
  rw [coerce?, coerce?, isAssignable_rename, ← rename_convertTo]
  split <;> rfl

end

end Term

theorem Aggregate.rename_brought (op : Aggregate) (e : Term) :
    (op.brought e).rename r = op.brought (e.rename r) := by
  unfold Aggregate.brought
  rw [e.type_rename, Aggregate.input?_rename]
  cases op.input? e.type with
  | some t => exact e.rename_convertTo t
  | none => rfl

/-! ### Terms that have to agree -/

theorem totalCost?_rename (es : List Term) : ∀ (i : Nat) (ts : List Ty),
    totalCost? (fun i t => (Term.renameAll r es)[i]?.bind (·.assignmentCost? t)) i
        (ts.map (Ty.rename r)) =
      totalCost? (fun i t => es[i]?.bind (·.assignmentCost? t)) i ts
  | _, [] => rfl
  | i, t :: ts => by
    have hcost : (Term.renameAll r es)[i]?.bind (·.assignmentCost? (t.rename r)) =
        es[i]?.bind (·.assignmentCost? t) := by
      rw [Term.renameAll_eq_map, List.getElem?_map]
      cases es[i]? with
      | none => rfl
      | some e => exact e.assignmentCost?_rename t
    rw [List.map_cons, totalCost?, totalCost?, hcost, totalCost?_rename es (i + 1) ts]

/-- The same overload is chosen among renamed candidates. -/
theorem selectOverload_rename (candidates : List (List Ty)) (es : List Term) :
    selectOverload (candidates.map (List.map (Ty.rename r))) (Term.renameAll r es) =
      selectOverload candidates es := by
  have happlicable : applicable (fun i t => (Term.renameAll r es)[i]?.bind (·.assignmentCost? t))
      es.length (candidates.map (List.map (Ty.rename r))) =
      applicable (fun i t => es[i]?.bind (·.assignmentCost? t)) es.length candidates := by
    unfold applicable
    rw [List.zipIdx_map, List.filterMap_map]
    refine congrArg (List.filterMap · _) (funext fun c => ?_)
    simp only [Function.comp_apply, Prod.map, List.length_map, totalCost?_rename, id]
  rw [selectOverload, selectOverload, Term.length_renameAll, resolveOverload, resolveOverload,
    happlicable]

theorem renameAll_convertArguments : ∀ (es : List Term) (ts : List Ty),
    Term.renameAll r (convertArguments es ts) =
      convertArguments (Term.renameAll r es) (ts.map (Ty.rename r))
  | [], _ => rfl
  | _ :: _, [] => rfl
  | e :: es, t :: ts => by
    rw [convertArguments, List.zipWith_cons_cons, Term.renameAll, e.rename_convertTo]
    exact congrArg _ (renameAll_convertArguments es ts)

theorem renameAll_map_convertTo (es : List Term) (t : Ty) :
    Term.renameAll r (es.map (·.convertTo t)) =
      (Term.renameAll r es).map (·.convertTo (t.rename r)) := by
  simp only [Term.renameAll_eq_map, List.map_map]
  exact List.map_congr_left fun e _ => e.rename_convertTo t

namespace Ty

theorem unify?_rename (t : Ty) (e : Term) :
    unify? (t.rename r) (e.rename r) = (unify? t e).map (rename r) := by
  unfold unify?
  rw [e.type_rename, beq_rename, isNull_rename, isNull_rename, toNullable?_rename,
    toNullable?_rename, promote?_rename, e.isAssignable_rename, converts_rename]
  cases promote? t e.type false with
  | some u =>
    dsimp only [Option.map_some]
    repeat' split
    all_goals rfl
  | none =>
    dsimp only [Option.map_none]
    repeat' split
    all_goals rfl

theorem equality?_rename (e e' : Term) :
    equality? (e.rename r) (e'.rename r) = (equality? e e').map (rename r) := by
  unfold equality?
  rw [e.type_rename, e'.type_rename, promote?_rename, beq_rename, isNull_rename, isNull_rename,
    toNullable?_rename, toNullable?_rename, e.isAssignable_rename, e'.isAssignable_rename]
  cases promote? e.type e'.type false with
  | some u => rfl
  | none =>
    dsimp only [Option.map_none]
    repeat' split
    all_goals rfl

theorem bestOf_rename : ∀ {es : List Term} {t u : Ty}, bestOf t es = .ok u →
    bestOf (t.rename r) (Term.renameAll r es) = .ok (u.rename r)
  | [], _, _, h => by cases h; rfl
  | e :: es, t, u, h => by
    rw [bestOf] at h
    rw [Term.renameAll, bestOf, unify?_rename]
    cases hv : unify? t e with
    | none => rw [hv] at h; cases h
    | some v =>
      rw [hv] at h
      exact bestOf_rename h

theorem best_rename {es : List Term} {t : Ty} (h : best es = .ok t) :
    best (Term.renameAll r es) = .ok (t.rename r) := by
  cases es with
  | nil => cases h; rfl
  | cons e es =>
    rw [best] at h
    rw [Term.renameAll, best, e.type_rename]
    cases hu : bestOf e.type es with
    | error f => rw [hu] at h; cases h
    | ok u =>
      rw [hu] at h
      cases h
      rw [bestOf_rename hu]
      dsimp only
      rw [isNull_rename]
      split <;> rfl

end Ty

theorem Check.operationTypes?_rename (op : Operation) (e e' : Term) :
    operationTypes? op (e.rename r) (e'.rename r) =
      (operationTypes? op e e').map (Prod.map (Ty.rename r) (Ty.rename r)) := by
  have hpromote (arithmetic : Bool) := Ty.promote?_rename (r := r) e.type e'.type arithmetic
  unfold operationTypes?
  rw [e.type_rename, e'.type_rename, Ty.equality?_rename]
  simp only [Ty.isBoolean_rename, Ty.isNullable_rename, Ty.isString_rename, hpromote]
  cases op with
  | andAlso | orElse =>
    dsimp only
    split
    · exact congrArg some (Prod.ext (Ty.rename_lift _ _).symm (Ty.rename_lift _ _).symm)
    · rfl
  | equal | notEqual => cases Ty.equality? e e' <;> rfl
  | less | lessEqual | greater | greaterEqual =>
    cases Ty.promote? e.type e'.type false with
    | some t => rfl
    | none =>
      dsimp only [Option.map_none]
      split <;> rfl
  | _ => cases Ty.promote? e.type e'.type true <;> rfl

/-! ### Built-in members -/

namespace Builtin

theorem methods_rename (t : Ty) (n : String) : methods (t.rename r) n = methods t n := by
  rw [methods, methods, Ty.isString_rename]

theorem property?_rename (t : Ty) (n : String) : property? (t.rename r) n = property? t n := by
  cases t with
  | array e =>
    by_cases h : n = "Length"
    · rw [h]
      rfl
    · simp [Ty.rename, property?, h]
  | _ => rfl

/-- What is built in takes and returns primitive types. -/
theorem IsPrimitive.rename {b : Builtin} (h : b.IsPrimitive) :
    b.parameters.map (Ty.rename r) = b.parameters ∧ b.returns.rename r = b.returns := by
  obtain ⟨⟨p, hp⟩, hps⟩ := h
  have hparameters : ∀ u ∈ b.parameters, u.rename r = id u := by
    intro u hu
    obtain ⟨q, rfl⟩ := hps u hu
    rfl
  exact ⟨(List.map_congr_left hparameters).trans (List.map_id _), by rw [hp]; rfl⟩

end Builtin

/-! ### Record types and names in scope -/

/-- The properties over renamed types. -/
def Properties.rename (r : Renaming) (ps : Properties) : Properties :=
  ps.map fun p => (p.1, p.2.rename r)

/-- The record type over renamed types. -/
def RecordType.rename (r : Renaming) (record : RecordType) : RecordType :=
  ⟨record.id, Properties.rename r record.properties⟩

/-- The record types made so far, over renamed types. -/
def RecordCache.rename (r : Renaming) (c : RecordCache) : RecordCache :=
  ⟨c.entries.map (RecordType.rename r), c.synthesized⟩

/-- The parameter with its type renamed. -/
def Declaration.rename (r : Renaming) (d : Declaration) : Declaration := ⟨d.name, d.type.rename r⟩

/-- What a name stands for, with its type renamed. -/
def Symbol.rename (r : Renaming) (s : Symbol) : Symbol := ⟨s.name, s.kind, s.type.rename r⟩

/-- The table of the renamed parameters. -/
def ParameterTable.rename (r : Renaming) (t : ParameterTable) : ParameterTable :=
  ⟨t.parameters.map (Declaration.rename r), t.implicit⟩

/-- The names in scope, over renamed types. -/
def Scopes.rename (r : Renaming) (s : Scopes) : Scopes :=
  ⟨s.root.rename r, s.elements.map (Ty.rename r)⟩

/-- The context over renamed types. -/
def Context.rename (r : Renaming) (c : Context) : Context :=
  ⟨c.records.rename r, c.scopes.rename r⟩

theorem RecordType.type_rename (record : RecordType) :
    (record.rename r).type = record.type.rename r := by
  have hproperties := Ty.renameProperties_eq_map (r := r) (fun n => n) record.properties
  exact congrArg (Ty.record record.id) hproperties.symm

namespace Properties

theorem same_rename : ∀ ps qs : Properties, (ps.rename r).same (qs.rename r) = ps.same qs
  | [], [] => rfl
  | [], _ :: _ => rfl
  | _ :: _, [] => rfl
  | (n, t) :: ps, (m, u) :: qs => by
    have hrest := same_rename ps qs
    unfold Properties.rename at hrest ⊢
    rw [List.map_cons, List.map_cons, same, same, hrest, Ty.beq_rename]

theorem fault_rename (ps : Properties) : (ps.rename r).fault = ps.fault := by
  refine faultAfter_of_names [] ?_
  rw [Properties.rename, List.map_map]
  rfl

end Properties

namespace RecordCache

theorem find?_rename (c : RecordCache) (ps : Properties) :
    (c.rename r).find? (ps.rename r) = (c.find? ps).map (RecordType.rename r) := by
  rw [find?, find?, RecordCache.rename, List.find?_map]
  refine congrArg (fun p => Option.map (RecordType.rename r) (List.find? p c.entries)) ?_
  exact funext fun record => ps.same_rename record.properties

/-- The same is requested under other names. -/
theorem request_rename (c : RecordCache) (ps : Properties) :
    (c.rename r).request (ps.rename r) =
      ((c.request ps).1.map (RecordType.rename r), (c.request ps).2.rename r) := by
  unfold request
  rw [find?_rename, ps.fault_rename]
  cases c.find? ps with
  | some record => rfl
  | none => cases ps.fault <;> rfl

end RecordCache

theorem Symbol.rename_constant? (word : String) :
    (constant? word).map (Symbol.rename r) = constant? word := by
  unfold constant?
  split <;> rfl

namespace ParameterTable

theorem symbolAt?_rename (t : ParameterTable) (i : Nat) :
    (t.rename r).symbolAt? i = (t.symbolAt? i).map (Symbol.rename r) := by
  rw [symbolAt?, symbolAt?, ParameterTable.rename, List.getElem?_map, Option.map_map,
    Option.map_map]
  rfl

theorem implicit?_rename (t : ParameterTable) :
    (t.rename r).implicit? = t.implicit?.map (Symbol.rename r) := by
  have hat : (t.rename r).symbolAt? = fun i => (t.symbolAt? i).map (Symbol.rename r) :=
    funext t.symbolAt?_rename
  rw [implicit?, implicit?, hat, Option.map_bind]
  rfl

theorem lookup?_rename (t : ParameterTable) (n : String) :
    (t.rename r).lookup? n = (t.lookup? n).map (Symbol.rename r) := by
  have hat : (t.rename r).symbolAt? = fun i => (t.symbolAt? i).map (Symbol.rename r) :=
    funext t.symbolAt?_rename
  have hconstant := Symbol.rename_constant? (r := r) n
  unfold lookup?
  cases hc : Symbol.constant? n with
  | some s =>
    rw [hc] at hconstant
    exact hconstant.symm
  | none =>
    dsimp only
    split
    · rfl
    · rw [hat, Option.map_bind, ParameterTable.rename, List.findIdx?_map]
      rfl

end ParameterTable

namespace Scopes

theorem rename_pop (s : Scopes) : s.pop.rename r = (s.rename r).pop := by
  rw [pop, pop, Scopes.rename, Scopes.rename, List.map_tail]

theorem current_rename (s : Scopes) : (s.rename r).current = s.current.rename r := by
  obtain ⟨root, elements⟩ := s
  cases elements <;> rfl

theorem implicit?_rename (s : Scopes) :
    (s.rename r).implicit? = s.implicit?.map (Symbol.rename r) := by
  rw [implicit?, current_rename, ParameterTable.implicit?_rename]
  rfl

theorem resolveImplicit_rename {s : Scopes} {span : Span} {symbol : Symbol}
    (h : s.resolveImplicit span = .ok symbol) :
    (s.rename r).resolveImplicit span = .ok (symbol.rename r) := by
  unfold resolveImplicit ParameterTable.resolveImplicit at h ⊢
  rw [current_rename, ParameterTable.implicit?_rename]
  cases hs : s.current.implicit? with
  | none => rw [hs] at h; cases h
  | some found => rw [hs] at h; cases h; rfl

theorem lookup?_rename (s : Scopes) (n : String) :
    (s.rename r).lookup? n = (s.lookup? n).map (Symbol.rename r) := by
  have htables : (s.rename r).tables = s.tables.map (ParameterTable.rename r) := by
    rw [tables, tables, List.map_append, Scopes.rename, List.map_map, List.map_map]
    rfl
  rw [lookup?, lookup?, htables, List.findSome?_map]
  generalize s.tables = ts
  induction ts with
  | nil => rfl
  | cons t ts ih =>
    rw [List.findSome?_cons, List.findSome?_cons, Function.comp_apply, t.lookup?_rename]
    cases t.lookup? n with
    | some s => rfl
    | none => exact ih

end Scopes
end QueryExpr
