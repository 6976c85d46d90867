/-
# Members named like predefined types

A member may have the name of a predefined type. An expression is then read with
the name of a type where the bare name of the member stands, and with a conversion
where the method is called without a target; still it is checked like one over a
member of an ordinary name. Wherever the member is meant, its new name can stand
for it, and what the expression comes to is the same under the new name.

What a projection calls its properties is no matter of the members they are of, so
that a property that has its name from a member keeps it.

Key definitions: `Renaming.ofMember`, `Rewriting.typeNamed`.
Key theorems: `Rewriting.lawful_typeNamed`, `Rewriting.legible_typeNamed`,
`Ty.coherent_ofMember`, `Lambda.compile_typeNamed`.
-/
import Mathlib
import QueryExpr.Proofs.CoherentTypes
import QueryExpr.Proofs.CompiledLambda
import QueryExpr.Proofs.RenamedLambda
import QueryExpr.Proofs.RewrittenCheck
import QueryExpr.Proofs.RewrittenReading

namespace QueryExpr

/-- In the given classes, what is called by the first name is called by the second
one. -/
def Renaming.ofMember (classes : List String) (m n : String) : Renaming :=
  fun c name => if classes.contains c && name == m then n else name

/-- Where a member has a new name, its bare name is that of the type, and a call of
it without a target has the form of a conversion. -/
def Rewriting.typeNamed (r : Renaming) (type : KnownType) : Rewriting where
  names := r
  name it n :=
    if it.type.nameIn r n.text = n.text then .name n
    else .typeName ⟨⟨it.type.nameIn r n.text, n.span⟩, type⟩
  typeName _ type := .typeName type
  call it n arguments span :=
    if Check.callName r it.type n.text = n.text then .call n arguments span
    else .conversion ⟨⟨Check.callName r it.type n.text, n.span⟩, type⟩ arguments span
  conversion _ type arguments span := .conversion type arguments span

variable {r : Renaming} {type : KnownType} {o o' : Options} {c : Context} {g : Grammar}
  {P : Term → Prop}

/-! ### New names -/

namespace Ty

variable {t : Ty} {n : String}

/-- A new name is one that the renaming gives. -/
theorem nameIn_cases (r : Renaming) (t : Ty) (n : String) :
    t.nameIn r n = n ∨ ∃ c, t.nameIn r n = r c n := by
  unfold nameIn
  split
  · rename_i u _
    cases u with
    | cls c => exact .inr ⟨c, rfl⟩
    | _ => exact .inl rfl
  · exact .inl rfl

theorem nameIn_of_same (h : ∀ c, r c n = n) (t : Ty) : t.nameIn r n = n := by
  rcases nameIn_cases r t n with heq | ⟨c, heq⟩
  · exact heq
  · rw [heq, h]

theorem callName_cases (r : Renaming) (t : Ty) (n : String) :
    Check.callName r t n = n ∨ Check.callName r t n = t.nameIn r n ∧
      (t.methods n).isEmpty = false := by
  unfold Check.callName
  split
  · exact .inl rfl
  · rename_i h
    rw [Bool.or_eq_true, not_or] at h
    exact .inr ⟨rfl, Bool.eq_false_iff.mpr h.2⟩

theorem callName_of_same (h : ∀ c, r c n = n) (t : Ty) : Check.callName r t n = n := by
  rcases callName_cases r t n with heq | ⟨heq, -⟩
  · exact heq
  · rw [heq, nameIn_of_same h]

end Ty

/-! ### Members of `it` under other names -/

namespace Scopes

variable {s : Scopes} {n n' : String} {it : Symbol}

theorem owner?_rename (ho : o'.implicitMembers = o.implicitMembers) :
    (s.rename r).owner? o' = (s.owner? o).map (Symbol.rename r) := by
  unfold owner?
  rw [ho, implicit?_rename]
  split <;> rfl

theorem ownerOfName?_rename (ho : o'.implicitMembers = o.implicitMembers) :
    (s.rename r).ownerOfName? o' n = (s.ownerOfName? o n).map (Symbol.rename r) := by
  unfold ownerOfName?
  rw [lookup?_rename, Option.isSome_map, owner?_rename ho]
  split <;> rfl

theorem ownerOfCall?_rename (ho : o'.implicitMembers = o.implicitMembers) :
    (s.rename r).ownerOfCall? o' n = (s.ownerOfCall? o n).map (Symbol.rename r) := by
  have hparameter : Symbol.isParameter ∘ Symbol.rename r = Symbol.isParameter := rfl
  unfold ownerOfCall?
  rw [lookup?_rename, Option.filter_map, hparameter, Option.isSome_map, owner?_rename ho]
  split <;> rfl

/-- What hides a type hides the type that has its new name. -/
theorem ownerOfType?_rename (ho : o'.implicitMembers = o.implicitMembers)
    (h : ∀ it, s.owner? o = some it → it.type.Takes r n n') :
    (s.rename r).ownerOfType? o' n' = (s.ownerOfType? o n).map (Symbol.rename r) := by
  unfold ownerOfType?
  rw [owner?_rename ho]
  cases hs : s.owner? o with
  | none => rfl
  | some it =>
    have htakes := h it hs
    have hhides : (((it.rename r).type.member? n').isSome ||
        !((it.rename r).type.methods n').isEmpty) =
        ((it.type.member? n).isSome || !(it.type.methods n).isEmpty) := by
      rw [show (it.rename r).type = it.type.rename r from rfl, htakes.member?, htakes.methods,
        Option.isSome_map, List.isEmpty_map]
    rw [Option.map_some, Option.filter_some, Option.filter_some, hhides]
    split <;> rfl

end Scopes

namespace Check

/-- A member that has a new name is one of the type itself. -/
theorem declared_of_member {e t : Term} {n : String} {span : Span} {d : Context}
    (h : member t n span c = (.ok e, d)) (hne : t.type.nameIn r n ≠ n) :
    (t.type.member? n).isSome = true := by
  unfold member at h
  cases hm : t.type.member? n with
  | some u => rfl
  | none =>
    rw [hm] at h
    cases hp : Builtin.property? t.type n with
    | some x => exact absurd (property?_nameIn hp).1 hne
    | none => rw [hp] at h; cases h

end Check

namespace Rewriting

section
variable {it : Symbol} {n : Name} {span : Span} {ms : List (Check Term)} {es : List Expr}
  (ho : o'.implicitMembers = o.implicitMembers) (hn : r.Free n.text)
  (hP : ∀ e, P e → e.type.Coherent r)
include ho hn

/-- What has a new name, and stands by itself, hides the type of that name. -/
theorem ownerOfType?_newName (howner : c.scopes.owner? o = some it)
    (hcoherent : it.type.Coherent r)
    (h : (it.type.member? n.text).isSome || !(it.type.methods n.text).isEmpty) :
    (c.rename r).scopes.ownerOfType? o' (it.type.nameIn r n.text) = some (it.rename r) := by
  have htakes : it.type.Takes r n.text (it.type.nameIn r n.text) := Ty.takes_nameIn hcoherent hn
  have howns : c.scopes.ownerOfType? o n.text = some it := by
    rw [Scopes.ownerOfType?, howner, Option.filter_some, if_pos h]
  have howns' : (c.scopes.rename r).ownerOfType? o' (it.type.nameIn r n.text) =
      (c.scopes.ownerOfType? o n.text).map (Symbol.rename r) :=
    Scopes.ownerOfType?_rename ho fun s hs => by
      cases howner.symm.trans hs
      exact htakes
  rw [howns] at howns'
  exact howns'

include hP

/-- A member of `it` is the same by its new bare name, if the name is new. -/
theorem carries_newName (howner : c.scopes.owner? o = some it)
    (hne : it.type.nameIn r n.text ≠ n.text) :
    Check.CarriesTerm r P c (Check.member (Check.reference it n.span) n.text n.span)
      (Check.expr o' (.typeName ⟨⟨it.type.nameIn r n.text, n.span⟩, type⟩)) := by
  intro e d heq hparts
  have hcoherent := hP _ (Check.reveals_member _ _ _ c e d heq hparts).1
  have howns := ownerOfType?_newName ho hn howner hcoherent
    (Bool.or_eq_true_iff.mpr (.inl (Check.declared_of_member heq hne)))
  have hmember : Check.expr o' (.typeName ⟨⟨it.type.nameIn r n.text, n.span⟩, type⟩) (c.rename r) =
      Check.member (Check.reference (it.rename r) n.span) (it.type.nameIn r n.text) n.span
        (c.rename r) := Check.typeName_of_owner howns
  exact hmember.trans (Check.carries_member hP hn _ n.span e d heq hparts)

/-- So is a method, in the form of a conversion. -/
theorem carries_newCall (howner : c.scopes.owner? o = some it)
    (hr : ∀ c, r c n.text = n.text ∨ Aggregate.ofName? (r c n.text) = none)
    (hne : Check.callName r it.type n.text ≠ n.text)
    (hms : Check.CarriesAll r P (c.inArguments it.type n.text) ms (Check.exprs o' es)) :
    Check.CarriesTerm r P c (Check.method (Check.reference it n.span) n.text ms span)
      (Check.expr o'
        (.conversion ⟨⟨Check.callName r it.type n.text, n.span⟩, type⟩ es span)) := by
  intro e d heq hparts
  have hcoherent := hP _ (Check.reveals_method _ _ _ _ c e d heq hparts).1
  obtain ⟨hname, hmethods⟩ := (Ty.callName_cases r it.type n.text).resolve_left hne
  have howns := ownerOfType?_newName ho hn howner hcoherent
    (Bool.or_eq_true_iff.mpr (.inr (by rw [hmethods]; rfl)))
  rw [← hname] at howns
  have hmethod : Check.expr o'
      (.conversion ⟨⟨Check.callName r it.type n.text, n.span⟩, type⟩ es span) (c.rename r) =
      Check.method (Check.reference (it.rename r) n.span) (Check.callName r it.type n.text)
        (Check.exprs o' es) span (c.rename r) := Check.convertOrCall_of_owner howns
  exact hmethod.trans (Check.carries_method hP hn hr _ span hms e d heq hparts)

/-- A bare name that stays is understood as before. -/
theorem carries_sameName (howner : c.scopes.ownerOfName? o n.text = some it)
    (hsame : it.type.nameIn r n.text = n.text) :
    Check.CarriesTerm r P c (Check.member (Check.reference it n.span) n.text n.span)
      (Check.expr o' (.name n)) := by
  intro e d heq hparts
  have howner' : (c.rename r).scopes.ownerOfName? o' n.text = some (it.rename r) := by
    rw [Context.rename, Scopes.ownerOfName?_rename ho, howner]
    rfl
  have hmember : Check.expr o' (.name n) (c.rename r) =
      Check.member (Check.reference (it.rename r) n.span) n.text n.span (c.rename r) :=
    Check.named_of_owner howner'
  have hcarries := Check.carries_member hP hn (Check.reference it n.span) n.span e d heq hparts
  rw [show (Check.reference it n.span).type.nameIn r n.text = n.text from hsame] at hcarries
  exact hmember.trans hcarries

theorem carries_sameCall (howner : c.scopes.ownerOfCall? o n.text = some it)
    (hr : ∀ c, r c n.text = n.text ∨ Aggregate.ofName? (r c n.text) = none)
    (hsame : Check.callName r it.type n.text = n.text)
    (hms : Check.CarriesAll r P (c.inArguments it.type n.text) ms (Check.exprs o' es)) :
    Check.CarriesTerm r P c (Check.method (Check.reference it n.span) n.text ms span)
      (Check.expr o' (.call n es span)) := by
  intro e d heq hparts
  have howner' : (c.rename r).scopes.ownerOfCall? o' n.text = some (it.rename r) := by
    rw [Context.rename, Scopes.ownerOfCall?_rename ho, howner]
    rfl
  have hmethod : Check.expr o' (.call n es span) (c.rename r) =
      Check.method (Check.reference (it.rename r) n.span) n.text (Check.exprs o' es) span
        (c.rename r) := Check.call_of_owner howner'
  have hcarries :=
    Check.carries_method hP hn hr (Check.reference it n.span) span hms e d heq hparts
  rw [show Check.callName r (Check.reference it n.span).type n.text = n.text from hsame]
    at hcarries
  exact hmethod.trans hcarries

end

section
variable {it : Symbol} {t : TypeName} {span : Span} {ms : List (Check Term)} {es : List Expr}
  (ho : o'.implicitMembers = o.implicitMembers) (hfree : r.Free t.name.text)
  (hsame : ∀ c, r c t.name.text = t.name.text) (hP : ∀ e, P e → e.type.Coherent r)
include ho hfree hsame

theorem ownerOfType?_sameName : (c.rename r).scopes.ownerOfType? o' t.name.text =
    (c.scopes.ownerOfType? o t.name.text).map (Symbol.rename r) :=
  Scopes.ownerOfType?_rename ho fun it _ => Ty.takes_self hfree hsame it.type

include hP

/-- The name of a type stays, and is hidden as before. -/
theorem carries_sameTypeName (howner : c.scopes.ownerOfType? o t.name.text = some it) :
    Check.CarriesTerm r P c
      (Check.member (Check.reference it t.name.span) t.name.text t.name.span)
      (Check.expr o' (.typeName t)) := by
  intro e d heq hparts
  have howner' := ownerOfType?_sameName (c := c) ho hfree hsame
  rw [howner] at howner'
  have hmember : Check.expr o' (.typeName t) (c.rename r) =
      Check.member (Check.reference (it.rename r) t.name.span) t.name.text t.name.span
        (c.rename r) := Check.typeName_of_owner howner'
  have hcarries := Check.carries_member hP hfree (Check.reference it t.name.span) t.name.span
    e d heq hparts
  rw [Ty.nameIn_of_same hsame] at hcarries
  exact hmember.trans hcarries

theorem carries_sameConversion (howner : c.scopes.ownerOfType? o t.name.text = some it)
    (hms : Check.CarriesAll r P (c.inArguments it.type t.name.text) ms (Check.exprs o' es)) :
    Check.CarriesTerm r P c (Check.method (Check.reference it t.name.span) t.name.text ms span)
      (Check.expr o' (.conversion t es span)) := by
  intro e d heq hparts
  have howner' := ownerOfType?_sameName (c := c) ho hfree hsame
  rw [howner] at howner'
  have hmethod : Check.expr o' (.conversion t es span) (c.rename r) =
      Check.method (Check.reference (it.rename r) t.name.span) t.name.text (Check.exprs o' es)
        span (c.rename r) := Check.convertOrCall_of_owner howner'
  have hcarries := Check.carries_method hP hfree (fun c => .inl (hsame c))
    (Check.reference it t.name.span) span hms e d heq hparts
  rw [Ty.callName_of_same hsame] at hcarries
  exact hmethod.trans hcarries

end

/-- **Members with new names are checked like those of old names**, if no name that
is used in the expression becomes another one's, no new name is one of an aggregate,
and the names of types stay. -/
theorem lawful_typeNamed {Q : String → Prop} {T : TypeName → Prop}
    (ho : o'.implicitMembers = o.implicitMembers)
    (hjoins : o'.stringConcatenation = o.stringConcatenation)
    (hfree : ∀ {n}, Q n → r.Free n)
    (haggregate : ∀ {n}, Q n → ∀ c, r c n = n ∨ Aggregate.ofName? (r c n) = none)
    (htypes : ∀ {t}, T t → r.Free t.name.text ∧ ∀ c, r c t.name.text = t.name.text) :
    (typeNamed r type).Lawful o o' Q T fun e => e.type.Throughout (Ty.Coherent r) where
  joins := hjoins
  coherent h := h.here
  free := hfree
  noAggregate := haggregate
  kept := .inr fun _ t _ => ⟨t, rfl⟩
  bare ht hnone := by
    rw [typeNamed, ownerOfType?_sameName ho (htypes ht).1 (htypes ht).2, hnone]
    rfl
  name {_ it n} hn howner := by
    rw [typeNamed]
    dsimp only
    split
    · exact carries_sameName ho (hfree hn) (fun _ h => h.here) howner (by assumption)
    · exact carries_newName ho (hfree hn) (fun _ h => h.here) (Scopes.owner?_of_name howner)
        (by assumption)
  typeName ht howner :=
    carries_sameTypeName ho (htypes ht).1 (htypes ht).2 (fun _ h => h.here) howner
  call hn howner hms := by
    rw [typeNamed]
    dsimp only
    split
    · exact carries_sameCall ho (hfree hn) (fun _ h => h.here) howner (haggregate hn)
        (by assumption) hms
    · exact carries_newCall ho (hfree hn) (fun _ h => h.here) (Scopes.owner?_of_call howner)
        (haggregate hn) (by assumption) hms
  conversion ht howner hms :=
    carries_sameConversion ho (htypes ht).1 (htypes ht).2 (fun _ h => h.here) howner hms

/-- What has a new name is read as the name of a type, if every new name is one. -/
theorem legible_typeNamed (h : ∀ c n, r c n ≠ n →
      TokenKind.identifier.Spells (r c n) ∧ g.typeOf? (r c n) = some type) :
    (typeNamed r type).Legible g := by
  have hne : TokenKind.identifier ≠ .openParen := by decide
  have hnew {t : Ty} {n : String} (hne : t.nameIn r n ≠ n) :
      TokenKind.identifier.Spells (t.nameIn r n) ∧ g.typeOf? (t.nameIn r n) = some type := by
    obtain ⟨c, heq⟩ := (Ty.nameIn_cases r t n).resolve_left hne
    rw [heq] at hne ⊢
    exact h c n hne
  refine
    { named := fun c n hn => ?_
      name := fun it n hn hu => ?_
      typeName := fun _ _ hn hu => ⟨_, hne, .of_primary fun _ => .typeName hn hu⟩
      call := fun it n es span hn hu hes => ?_
      conversion := fun _ _ _ _ hn hu hes => ⟨_, hne, .of_all hes fun _ => .conversion hn hu⟩ }
  · by_cases hsame : r c n = n
    · exact (congrArg Named hsame).mpr hn
    · exact ⟨.identifier, rfl, (h c n hsame).1⟩
  · rw [typeNamed]
    dsimp only
    split
    · exact ⟨_, hne, .of_primary fun _ => .name hn hu⟩
    · rename_i hname
      obtain ⟨hspells, htype⟩ := hnew hname
      exact ⟨_, hne, .of_primary fun _ => .typeName hspells htype⟩
  · rw [typeNamed]
    dsimp only
    split
    · exact ⟨_, hne, .of_all hes fun _ => .call hn hu⟩
    · rename_i hname
      rcases Ty.callName_cases r it.type n.text with heq | ⟨heq, -⟩
      · exact absurd heq hname
      · rw [heq] at hname ⊢
        obtain ⟨hspells, htype⟩ := hnew hname
        exact ⟨_, hne, .of_all hes fun _ => .conversion hspells htype⟩

end Rewriting

/-! ### Names of predefined types -/

namespace KnownType

variable {n : String}

theorem spells_of_ofName? (h : ofName? n = some type) : TokenKind.identifier.Spells n := by
  unfold ofName? at h
  split at h <;> cases h
  all_goals decide +kernel

theorem ofName?_not_aggregate (h : ofName? n = some type) : Aggregate.ofName? n = none := by
  unfold ofName? at h
  split at h <;> cases h
  all_goals decide +kernel

end KnownType

theorem Grammar.ofName?_of_typeOf? {n : String} (h : g.typeOf? n = some type) :
    KnownType.ofName? n = some type := by
  unfold typeOf? at h
  split at h
  · cases h
  · exact h

/-- A name that no parameter has, and that is one of a type, is read as such. -/
theorem typeOf?_of_ofName? {n : String} {table : ParameterTable} {limit : Nat}
    (h : KnownType.ofName? n = some type) (hds : ∀ d ∈ table.parameters, d.name ≠ n) :
    Grammar.typeOf? ⟨limit, table.declares⟩ n = some type := by
  have hnot : table.declares n = false := by
    unfold ParameterTable.declares
    cases hs : table.lookup? n with
    | none => rfl
    | some s =>
      refine Bool.eq_false_iff.mpr fun hparameter => ?_
      obtain ⟨-, i, d, hd, hname, -⟩ := ParameterTable.lookup?_eq hs hparameter
      exact hds d (List.mem_of_getElem? hd) hname
  rw [Grammar.typeOf?]
  exact (if_neg (Bool.eq_false_iff.mp hnot)).trans h

/-! ### One member -/

namespace Renaming

variable {classes : List String} {m n name : String}

theorem ofMember_cases (classes : List String) (m n : String) (c name : String) :
    ofMember classes m n c name = name ∨ name = m ∧ ofMember classes m n c name = n := by
  unfold ofMember
  split
  · rename_i h
    exact .inr ⟨beq_iff_eq.mp (Bool.and_eq_true_iff.mp h).2, rfl⟩
  · exact .inl rfl

theorem ofMember_of_ne (h : name ≠ m) (c : String) : ofMember classes m n c name = name :=
  (ofMember_cases classes m n c name).resolve_right fun ⟨heq, _⟩ => h heq

theorem ofMember_free (h : name ≠ n) : (ofMember classes m n).Free name := by
  intro c name' heq
  rcases ofMember_cases classes m n c name' with hsame | ⟨-, hnew⟩
  · exact hsame.symm.trans heq
  · exact absurd (heq.symm.trans hnew) h

end Renaming

/-- Types are told apart along a chain in which the new name is new, if whichever of
its types has the member has it under one name. -/
theorem Ty.coherent_ofMember {classes : List String} {m n : String} {t : Ty}
    (hnew : ∀ u ∈ t.chain, u.declares n = false)
    (hone : ∀ u ∈ t.chain, ∀ v ∈ t.chain, u.declares m = true → v.declares m = true →
      u.newName (.ofMember classes m n) m = v.newName (.ofMember classes m n) m) :
    t.Coherent (.ofMember classes m n) := by
  have hcases (u : Ty) (a : String) : u.newName (.ofMember classes m n) a = a ∨
      a = m ∧ u.newName (.ofMember classes m n) a = n := by
    cases u with
    | cls c => exact Renaming.ofMember_cases classes m n c a
    | _ => exact .inl rfl
  have hdeclared {u : Ty} (hu : u ∈ t.chain) : u.declares n ≠ true :=
    Bool.eq_false_iff.mp (hnew u hu)
  intro u hu v hv a b ha hb
  rcases hcases u a with hua | ⟨rfl, hua⟩ <;> rcases hcases v b with hvb | ⟨rfl, hvb⟩
  · rw [hua, hvb]
  · refine ⟨fun heq => ?_, fun heq => ?_⟩
    · rw [hua, hvb] at heq
      exact absurd (heq ▸ ha) (hdeclared hu)
    · rw [heq]
      exact hone u hu v hv (heq ▸ ha) hb
  · refine ⟨fun heq => ?_, fun heq => ?_⟩
    · rw [hua, hvb] at heq
      exact absurd (heq ▸ hb) (hdeclared hv)
    · rw [← heq]
      exact hone u hu v hv ha (heq ▸ hb)
  · rw [hua, hvb]
    exact ⟨fun _ => rfl, fun _ => rfl⟩

namespace Lambda

variable {classes : List String} {m n : String} {ds : List Declaration} {implicit : Option Nat}
  {target : Target} {text : String} {records records' : RecordCache} {f : Lambda}
  {table : ParameterTable} {e : Expr}

/-- **A member named like a predefined type is like any other.** In the given
classes, let a member or method have the name of a predefined type instead of one
that is none. If what is declared along every chain of classes is told apart as
before, and no parameter has the name, what is compiled without mentioning it is
compiled to the same with the new name wherever the member is meant, up to places
and under the new name. So it is for every text that spells that expression, up to
places, under whatever limit it can be read; and the rendered expression is such a
text, under every limit that leaves room for the number of its tokens. -/
theorem compile_typeNamed (hn : KnownType.ofName? n = some type) (hm : KnownType.ofName? m = none)
    (hnot : ∀ d ∈ ds, d.name ≠ n)
    (hds : ∀ d ∈ ds, d.type.Throughout (Ty.Coherent (.ofMember classes m n)))
    (hrecords : ∀ record ∈ records.entries,
      record.type.Throughout (Ty.Coherent (.ofMember classes m n)))
    (htable : ParameterTable.make ds implicit = .ok table)
    (hparse : Expr.parse (o.grammar table) text.toList = .ok e)
    (hnames : e.Names (· ≠ n) (·.name.text ≠ n))
    (h : compile o ds implicit target text records = (.ok f, records')) :
    let r := Renaming.ofMember classes m n
    let e' := e.rewrite (.typeNamed r type) o ⟨records, .ofTable table⟩
    (∀ (text' : String) (limit : Nat) (e'' : Expr),
      Expr.parse ⟨limit, table.declares⟩ text'.toList = .ok e'' → e''.bare = e'.bare →
      ∃ f', compile { o with maxDepth := limit } (ds.map (Declaration.rename r)) implicit
        (target.rename r) text' (records.rename r) = (.ok f', records'.rename r) ∧
          f'.bare = (f.rename r).bare) ∧
    Spells e'.rendered e'.words ∧
    ∀ (text' : List Char) (limit : Nat), Spells text' e'.words →
      2 * (tokens text').list.length + 1 ≤ limit →
      ∃ e'', Expr.parse ⟨limit, table.declares⟩ text' = .ok e'' ∧ e''.bare = e'.bare := by
  intro r e'
  obtain ⟨table', e₀, body, htable', hparse', hcheck, hassemble⟩ := compile_ok h
  cases htable.symm.trans htable'
  cases hparse.symm.trans hparse'
  have hparameters : table.parameters = ds := (ParameterTable.make_ok htable).1
  have hnew (c name : String) (hne : r c name ≠ name) :
      TokenKind.identifier.Spells (r c name) ∧
        Grammar.typeOf? (o.grammar table) (r c name) = some type := by
    obtain ⟨-, heq⟩ := (Renaming.ofMember_cases classes m n c name).resolve_left hne
    rw [show r c name = n from heq]
    exact ⟨KnownType.spells_of_ofName? hn, typeOf?_of_ofName? hn (hparameters ▸ hnot)⟩
  refine ⟨fun text' limit e'' hread hbare => ?_,
    Expr.parse_rewrite (Rewriting.legible_typeNamed hnew) hparse o _⟩
  have hlawful : (Rewriting.typeNamed r type).Lawful o { o with maxDepth := limit } (· ≠ n)
      (fun t => t.name.text ≠ n ∧ Grammar.typeOf? (o.grammar table) t.name.text = some t.known)
      fun u => u.type.Throughout (Ty.Coherent r) := by
    refine Rewriting.lawful_typeNamed rfl rfl Renaming.ofMember_free (fun _ c => ?_)
      fun ht => ⟨Renaming.ofMember_free ht.1, Renaming.ofMember_of_ne fun heq => ?_⟩
    · rcases Renaming.ofMember_cases classes m n c _ with hsame | ⟨-, heq⟩
      · exact .inl hsame
      · exact .inr ((congrArg Aggregate.ofName? heq).trans (KnownType.ofName?_not_aggregate hn))
    · have hknown := Grammar.ofName?_of_typeOf? ht.2
      rw [heq, hm] at hknown
      cases hknown
  have hregular : e.Regular fun _ => True :=
    .mono (fun _ _ => trivial) e (Expr.regular_of_parse hparse)
  have hparts := Expr.check_coherent hregular (hparameters ▸ hds) hrecords hcheck
  have hcheck' := Expr.check_rewrite hlawful ((Expr.derives_of_parse hparse).names hnames) hcheck
    hparts
  rw [← ParameterTable.declares_rename (r := r)] at hread
  exact compile_of_bare (ParameterTable.make_rename htable) hread hbare hcheck'
    (assemble_rename hassemble)

set_option maxRecDepth 4000 in
/-- A method and a property by the name of a type: the call has the form of a
conversion, and the name in front of the dot is that of the type. -/
theorem compile_typeNamed_string :
    let t : Ty := .cls "C" [("M", .string)] [("M", [.int32], .string)] [] none none false
    let u : Ty := .cls "C" [("String", .string)] [("String", [.int32], .string)] [] none none false
    let r := Renaming.ofMember ["C"] "M" "String"
    let f : Lambda := ⟨[⟨"", t⟩], .call (.parameter "it" t ⟨0, 1⟩) "M"
      [.intrinsic .stringLength (.member (.parameter "it" t ⟨2, 1⟩) "M" .string ⟨2, 1⟩) [] .int32
        ⟨2, 8⟩] .string ⟨0, 11⟩, .string, .delegate none [""] [t] .string⟩
    t.rename r = u ∧ t.Throughout (Ty.Coherent r) ∧
      compile {} [⟨"", t⟩] (some 0) .inferred "M(M.Length)" .empty = (.ok f, .empty) ∧
      ∃ f', compile {} [⟨"", u⟩] (some 0) .inferred "String(String.Length)" .empty =
        (.ok f', .empty) ∧ f'.bare = (f.rename r).bare := by
  intro t u r f
  have hrename : t.rename r = u := rfl
  have hcoherent : t.Throughout (Ty.Coherent r) := by
    have hprim (p : Prim) : (Ty.prim p).Throughout (Ty.Coherent r) :=
      Discipline.lawful_coherent.admits_prim p
    refine .of_parts (Ty.coherent_ofMember (fun v hv => ?_) fun v hv w hw _ _ => ?_) fun v hv => ?_
    · rw [List.mem_singleton.mp hv]
      with_unfolding_all rfl
    · rw [List.mem_singleton.mp hv, List.mem_singleton.mp hw]
    · rcases List.mem_cons.mp hv with rfl | hv
      · exact hprim _
      rcases List.mem_cons.mp hv with rfl | hv
      · exact hprim _
      rw [List.mem_singleton.mp hv]
      exact hprim _
  have hcompile : compile {} [⟨"", t⟩] (some 0) .inferred "M(M.Length)" .empty =
      (.ok f, .empty) := by with_unfolding_all rfl
  refine ⟨hrename, hcoherent, hcompile, ?_⟩
  have hparse : Expr.parse (Options.grammar {} ⟨[⟨"", t⟩], some 0⟩) "M(M.Length)".toList =
      .ok (.call ⟨"M", ⟨0, 1⟩⟩ [.member (.name ⟨"M", ⟨2, 1⟩⟩) ⟨"Length", ⟨4, 6⟩⟩ ⟨2, 8⟩]
        ⟨0, 11⟩) := by with_unfolding_all rfl
  have hread : Expr.parse ⟨200, ParameterTable.declares ⟨[⟨"", t⟩], some 0⟩⟩
      "String(String.Length)".toList =
      .ok (.conversion ⟨⟨"String", ⟨0, 6⟩⟩, .prim .string⟩
        [.member (.typeName ⟨⟨"String", ⟨7, 6⟩⟩, .prim .string⟩) ⟨"Length", ⟨14, 6⟩⟩ ⟨7, 13⟩]
        ⟨0, 21⟩) := by with_unfolding_all rfl
  have htable : ParameterTable.make [⟨"", t⟩] (some 0) = .ok ⟨[⟨"", t⟩], some 0⟩ := rfl
  have hunnamed : ∀ d ∈ [(⟨"", t⟩ : Declaration)], d.name ≠ "String" := by
    intro d hd
    rw [List.mem_singleton.mp hd]
    decide
  have hdeclared : ∀ d ∈ [(⟨"", t⟩ : Declaration)], d.type.Throughout (Ty.Coherent r) := by
    intro d hd
    rw [List.mem_singleton.mp hd]
    exact hcoherent
  have hne : "M" ≠ "String" := by decide
  have hlength : "Length" ≠ "String" := by decide
  obtain ⟨htexts, -⟩ := compile_typeNamed rfl rfl hunnamed hdeclared (List.forall_mem_nil _)
    htable hparse ⟨hne, ⟨hne, hlength⟩, trivial⟩ hcompile
  have htext := htexts "String(String.Length)" 200 _ hread (by with_unfolding_all rfl)
  rw [List.map_singleton, Declaration.rename, hrename] at htext
  exact htext

set_option maxRecDepth 4000 in
/-- A member gives its name to a property of a record by its bare name, and one that is
named like a type does not: the text with the new name is refused, though it is not
behind `it.`. -/
theorem not_compile_typeNamed_projected :
    let t : Ty := .cls "C" [("M", .int32)] [] [] none none false
    let u : Ty := .cls "C" [("String", .int32)] [] [] none none false
    t.rename (.ofMember ["C"] "M" "String") = u ∧
      (∃ e, Expr.parse (Options.grammar {} ⟨[⟨"", t⟩], some 0⟩) "new \x7bM\x7d".toList = .ok e ∧
        e.Names (· ≠ "String") (·.name.text ≠ "String")) ∧
      (compile {} [⟨"", t⟩] (some 0) .inferred "new \x7bM\x7d" .empty).1.toOption.isSome = true ∧
      compile {} [⟨"", u⟩] (some 0) .inferred "new \x7bString\x7d" .empty =
        (.error ⟨.asClauseMissing, ⟨5, 6⟩⟩, .empty) ∧
      (compile {} [⟨"", u⟩] (some 0) .inferred "new \x7bit.String\x7d" .empty).1.toOption.isSome =
        true := by
  intro t u
  have hparse : Expr.parse (Options.grammar {} ⟨[⟨"", t⟩], some 0⟩) "new \x7bM\x7d".toList =
      .ok (.newRecord [⟨"M", ⟨5, 1⟩⟩] [.name ⟨"M", ⟨5, 1⟩⟩] ⟨0, 7⟩) := by with_unfolding_all rfl
  have hne : "M" ≠ "String" := by decide
  refine ⟨?_, ⟨_, hparse, hne, trivial⟩, ?_, ?_, ?_⟩
  all_goals with_unfolding_all rfl

end Lambda
end QueryExpr
