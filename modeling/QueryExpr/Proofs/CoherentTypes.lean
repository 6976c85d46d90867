/-
# Types that are told apart under other names

A model in which what is declared along each chain of classes is told apart
under other names keeps to that in every type that occurs in an expression, so
that each part of what an expression is checked to is of such a type. What the
rules of typing say of the types that may occur is so put to use: types that may
occur are all that is asked for, and every other thing is left open.

Key definitions: `Discipline.coherent`.
Key theorems: `Discipline.lawful_coherent`, `Term.Typed.everyAdmitted`,
`Expr.check_coherent`.
-/
import QueryExpr.Proofs.CheckTyping
import QueryExpr.Proofs.RenamedTerms
import QueryExpr.Proofs.WellTyped

namespace QueryExpr

variable {r : Renaming}

/-- Where no name becomes another one, all are told apart. -/
theorem Ty.coherent_of_same {t : Ty} (h : ∀ u ∈ t.chain, ∀ n, u.newName r n = n) :
    t.Coherent r := by
  intro u hu v hv n m _ _
  rw [h u hu, h v hv]

/-- So it is in a type that is no class. -/
theorem Ty.coherent_of_alone {t : Ty} (hchain : t.chain = [t]) (h : ∀ n, t.newName r n = n) :
    t.Coherent r := by
  refine coherent_of_same fun u hu => ?_
  rw [hchain, List.mem_singleton] at hu
  rw [hu]
  exact h

namespace Discipline

/-- The discipline of a model in which members are told apart under other names.
It asks for nothing else. -/
def coherent (r : Renaming) : Discipline where
  type := Ty.Coherent r
  value _ := True
  null _ := True
  call _ := True
  cast _ _ := True

theorem lawful_coherent : (coherent r).Lawful where
  prim _ := Ty.coherent_of_alone rfl fun _ => rfl
  nullable _ := Ty.coherent_of_alone rfl fun _ => rfl
  ofNull := Ty.coherent_of_alone rfl fun _ => rfl
  sequence _ := Ty.coherent_of_alone rfl fun _ => rfl
  array _ := Ty.coherent_of_alone rfl fun _ => rfl
  valued _ := trivial
  converted _ _ := trivial
  property _ _ := trivial
  element _ _ := trivial
  indexer _ _ := trivial
  named _ := trivial
  acceptsNull _ := trivial
  convertsNull _ _ _ _ := trivial
  castsNull _ _ := trivial
  castsNullType _ := trivial

/-- A record may occur: its members are no members of a class. -/
theorem agrees_coherent (c : RecordCache) : (coherent r).Agrees c := fun _ _ _ =>
  Ty.coherent_of_alone rfl fun _ => rfl

end Discipline

namespace Term.Typed

variable {D : Discipline} {s : Scopes} {e : Term}

theorem admits_convertTo_of {t : Ty} (he : D.Admits e.type) (ht : D.Admits t) :
    D.Admits (e.convertTo t).type := by
  rw [type_convertTo]
  split
  · exact he
  · exact ht

/-- The proper parts of a term that is made by the rules have types that may
occur, if the types in scope are. -/
theorem everyAdmitted (hD : D.Lawful) (hs : s.Valued D) (h : Typed D s e) :
    e.EveryPart fun u => D.Admits u.type := by
  induction h with
  | constant | parameter => trivial
  | member h _ _ ih => exact ⟨h.admits hD hs, ih hs⟩
  | index h _ has _ _ _ ih ihs | call h _ has _ _ _ ih ihs | method h _ has _ _ _ ih ihs =>
    exact ⟨⟨h.admits hD hs, ih hs⟩, everyPartOfAll_iff.mpr fun a ha =>
      ⟨(has a ha).admits hD hs, ihs a ha hs⟩⟩
  | property h _ _ ih => exact ⟨⟨h.admits hD hs, ih hs⟩, trivial⟩
  | function has _ _ _ ihs | newRecord has _ _ _ ihs | newArray has _ _ _ ihs =>
    exact everyPartOfAll_iff.mpr fun a ha => ⟨(has a ha).admits hD hs, ihs a ha hs⟩
  | aggregate h _ _ _ ih => exact ⟨h.admits hD hs, ih hs⟩
  | aggregateTest h _ he hb _ _ ih ihb | aggregateSelect h _ he hb _ _ _ ih ihb =>
    have hadmits := h.admits hD hs
    have hbody := hs.push (hadmits.element he) (hD.element hadmits.here he)
    exact ⟨⟨hadmits, ih hs⟩, hb.admits hD hbody, ihb hbody⟩
  | aggregateWith h _ _ ha _ _ _ ih iha =>
    exact ⟨⟨h.admits hD hs, ih hs⟩, ha.admits hD hs, iha hs⟩
  | convert h _ _ _ _ ih | negate h _ _ _ ih | not h _ _ _ ih => exact ⟨h.admits hD hs, ih hs⟩
  | arithmetic hl _ hr _ _ _ _ _ ihl ihr | concat hl _ hr _ ihl ihr
  | equality hl _ hr _ _ _ ihl ihr | ordering hl _ hr _ _ _ ihl ihr
  | logic hl _ hr _ _ _ _ ihl ihr | coalesce hl _ hr _ _ _ _ ihl ihr
  | inSequence hl _ hr _ _ _ ihl ihr =>
    exact ⟨⟨hl.admits hD hs, ihl hs⟩, hr.admits hD hs, ihr hs⟩
  | conditional hc _ ha _ hb _ _ _ _ ihc iha ihb =>
    exact ⟨⟨hc.admits hD hs, ihc hs⟩, ⟨ha.admits hD hs, iha hs⟩, hb.admits hD hs, ihb hs⟩
  | @coalesceNull s l r span hl _ hr _ ihl ihr =>
    have hla := hl.admits hD hs
    have hra := hr.admits hD hs
    exact ⟨⟨admits_convertTo_of hla hra, (ihl hs).convertTo hla r.type⟩, hra, ihr hs⟩
  | @inList s e es t span h _ has _ ht _ _ ih ihs =>
    have he := h.admits hD hs
    refine ⟨⟨admits_convertTo_of he ht, (ih hs).convertTo he t⟩,
      everyPartOfAll_iff.mpr fun a ha => ?_⟩
    obtain ⟨b, hb, rfl⟩ := List.mem_map.mp ha
    have hba := (has b hb).admits hD hs
    exact ⟨admits_convertTo_of hba ht, (ihs b hb hs).convertTo hba t⟩
  | invoke h has _ _ _ ih ihs =>
    exact ⟨⟨h.admits hD hs, ih hs⟩, everyPartOfAll_iff.mpr fun a ha =>
      ⟨(has a ha).admits hD hs, ihs a ha hs⟩⟩

end Term.Typed

/-- **Members of all that an expression is checked to are told apart under other
names**, if those of the parameters and of the record types made so far are. -/
theorem Expr.check_coherent {e : Expr} {o : Options} {table : ParameterTable}
    {records records' : RecordCache} {body : Term} (he : e.Regular fun _ => True)
    (hp : ∀ d ∈ table.parameters, d.type.Throughout (Ty.Coherent r))
    (hr : ∀ record ∈ records.entries, record.type.Throughout (Ty.Coherent r))
    (h : e.check o table records = (.ok body, records')) :
    body.EveryPart fun u => u.type.Throughout (Ty.Coherent r) := by
  have hD : (Discipline.coherent r).Lawful := Discipline.lawful_coherent
  have hs : (Scopes.ofTable table).Valued (.coherent r) :=
    ⟨fun d hd => ⟨hp d hd, trivial⟩, List.forall_mem_nil _⟩
  have hbody := check_sound hD (fun _ _ _ _ => trivial) he (e.avoids_none o table records) hs hr
    (Discipline.agrees_coherent _) h
  exact hbody.everyAdmitted hD hs

end QueryExpr
