/-
# What a class takes from its bases

A class that declares nothing of its own has the properties and the methods of
its bases, and converts to what they convert to as classes. What makes a value
indexable or a sequence is not taken over: indexers and the type of the elements
count only where they are declared. So an aggregate over a base is, on the class,
a call of a method of that name, if there is any.

Key definitions: `Ty.Inherits`, `Check.AcceptedAs`, `Check.Use`,
`Check.Use.check`, `Check.Use.IsOwn`.
Key theorems: `Ty.Inherits.member?_eq`, `Ty.Inherits.methods_eq`,
`Check.use_inherited`.
-/
import Mathlib
import QueryExpr.Lambda.Compile
import QueryExpr.Proofs.CarriedCalls
import QueryExpr.Proofs.Steps

namespace QueryExpr

/-! ### Inheriting -/

/-- What stands before another one among the bases of a type has bases itself. -/
theorem Ty.bases_of_before {t u v : Ty} {us vs : List Ty} (h : t.bases = us ++ v :: vs)
    (hu : u ∈ us) : u.bases ≠ [] := by
  induction us generalizing t with
  | nil => cases hu
  | cons w ws ih =>
    have hw : w.bases = ws ++ v :: vs := by
      unfold Ty.bases at h
      split at h
      · rw [← (List.cons.inj h).1]
        exact (List.cons.inj h).2
      · cases h
    rcases List.mem_cons.mp hu with rfl | hu
    · rw [hw]
      simp
    · exact ih hw hu

/-- A class that declares nothing itself and has another one among its bases,
behind the given ones. -/
structure Ty.Inherits (derived base : Ty) (between : List Ty) : Prop where
  declares : ∃ name parent isValue, derived = .cls name [] [] [] none parent isValue
  isClass : ∃ name ps ms is e parent isValue, base = .cls name ps ms is e parent isValue
  bases : derived.bases = between ++ base.chain

namespace Ty.Inherits

variable {derived base : Ty} {between : List Ty} {n : String}

/-- A property is the one of the base, if no class between has one of the name. -/
theorem member?_eq (h : derived.Inherits base between)
    (hclear : ∀ u ∈ between, u.ownProperties.lookup n = none) :
    derived.member? n = base.member? n := by
  obtain ⟨name, parent, isValue, hd⟩ := h.declares
  have hown : derived.ownProperties.lookup n = none := by rw [hd]; rfl
  have hbetween : between.findSome? (fun u => u.ownProperties.lookup n) = none :=
    List.findSome?_eq_none_iff.mpr hclear
  rw [member?, chain, List.findSome?_cons, hown, h.bases, List.findSome?_append, hbetween]
  rfl

/-- The methods of a name are those of the base, if no class between has one of
the name. -/
theorem methods_eq (h : derived.Inherits base between)
    (hclear : ∀ u ∈ between, u.ownMethods n = []) : derived.methods n = base.methods n := by
  obtain ⟨name, parent, isValue, hd⟩ := h.declares
  have hown : derived.ownMethods n = [] := by rw [hd]; rfl
  have hbetween : between.flatMap (ownMethods n) = [] := List.flatMap_eq_nil_iff.mpr hclear
  rw [methods, chain, List.flatMap_cons, hown, h.bases, List.flatMap_append, hbetween]
  rfl

/-- A class is no sequence, and neither is what stands before it among the bases. -/
theorem not_sequence (h : derived.Inherits base between) {u element : Ty}
    (hu : u ∈ between ∨ u = base) : (u == .sequence element) = false := by
  rcases hu with hu | rfl
  · have hbases := bases_of_before h.bases hu
    cases u with
    | sequence f => exact absurd rfl hbases
    | _ => rfl
  · obtain ⟨_, _, _, _, _, _, _, rfl⟩ := h.isClass
    rfl

/-- What is a base of the base is one of the class. -/
theorem isBaseOf (h : derived.Inherits base between) {t : Ty} (ht : t.isBaseOf base = true) :
    t.isBaseOf derived = true := by
  obtain ⟨u, hu, heq⟩ := List.any_eq_true.mp ht
  refine List.any_eq_true.mpr ⟨u, ?_, heq⟩
  rw [h.bases]
  exact List.mem_append_right _ (List.mem_cons_of_mem _ hu)

end Ty.Inherits

/-! ### Checks that are accepted alike -/

namespace Check

variable {α β : Type} {R : α → α → Prop} {S : β → β → Prop} {m m' : Check α}
  {f f' : α → Check β}

/-- Where the first check is accepted the second one is, with what is in the
relation, and leaves the same context. -/
def AcceptedAs (R : α → α → Prop) (m m' : Check α) : Prop :=
  ∀ c x d, m c = (.ok x, d) → ∃ y, m' c = (.ok y, d) ∧ R x y

theorem acceptedAs_pure {x y : α} (h : R x y) : AcceptedAs R (pure x) (pure y) :=
  fun _ _ _ heq => by cases heq; exact ⟨y, rfl, h⟩

theorem acceptedAs_fail (cause : Cause) (span : Span) : AcceptedAs R (fail cause span) m' :=
  fun _ _ _ heq => by cases heq

theorem AcceptedAs.bind (hm : AcceptedAs R m m') (hf : ∀ x y, R x y → AcceptedAs S (f x) (f' y)) :
    AcceptedAs S (m >>= f) (m' >>= f') := by
  intro c z d heq
  rw [Step.bind_apply] at heq
  rcases h : m c with ⟨_ | x, c'⟩ <;> rw [h] at heq
  · cases heq
  · obtain ⟨y, hy, hxy⟩ := hm c x c' h
    rw [Step.bind_apply, hy]
    exact hf x y hxy c' z d heq

theorem acceptedAs_after (hf : ∀ x, AcceptedAs S (f x) (f' x)) :
    AcceptedAs S (m >>= f) (m >>= f') :=
  AcceptedAs.bind (R := Eq) (fun _ x _ heq => ⟨x, heq, rfl⟩) fun x _ hxy => hxy ▸ hf x

/-- The check is never accepted. -/
def Refused (m : Check α) : Prop := ∀ c x d, m c ≠ (.ok x, d)

theorem refused_fail (cause : Cause) (span : Span) : Refused (fail cause span : Check α) :=
  fun _ _ _ heq => by cases heq

theorem refused_after (hf : ∀ x, Refused (f x)) : Refused (m >>= f) := by
  intro c z d heq
  rw [Step.bind_apply] at heq
  rcases h : m c with ⟨_ | x, c'⟩ <;> rw [h] at heq
  · cases heq
  · exact hf x c' z d heq

/-- Whose the candidates are matters only where none of them is chosen. -/
theorem acceptedAs_choose (candidates : List α) (parameters : α → List Ty) (es : List Term)
    (name owner owner' : String) (span : Span) :
    AcceptedAs Eq (choose candidates parameters es name owner span)
      (choose candidates parameters es name owner' span) := by
  unfold choose
  split
  · split
    · exact acceptedAs_pure rfl
    · exact acceptedAs_fail _ _
  · exact acceptedAs_fail _ _
  · exact acceptedAs_fail _ _

/-! ### The uses of a target -/

/-- What may be done with a value. -/
inductive Use
  | member (name : String)
  /-- A call, which may be an aggregate. -/
  | method (name : String) (arguments : List (Check Term))
  | index (arguments : List (Check Term))
  /-- The source of `in`. -/
  | source (operand : Check Term)
  /-- The value passed where a sequence is expected. -/
  | passed (element : Ty)

namespace Use

/-- Checks a use of a target. -/
def check (use : Use) (target : Term) (span : Span) : Check Term :=
  match use with
  | member name => Check.member target name span
  | method name arguments => Check.method target name arguments span
  | index arguments => Check.index target arguments span
  | source operand => inSource operand (pure target) span
  | passed element => converted target (.sequence element)

/-- A class declares nothing that has to do with the use. -/
def Clear (use : Use) (u : Ty) : Prop :=
  match use with
  | member name => u.ownProperties.lookup name = none
  | method name _ => u.ownMethods name = []
  | _ => True

/-- Whether the use depends on what the class itself declares: on its indexers, or
on the type of its elements. -/
def IsOwn (use : Use) (u : Ty) : Prop :=
  match use with
  | member _ => False
  | method name _ => isAggregate u name = true
  | index _ | source _ => True
  | passed element => (Ty.sequence element).isBaseOf u = false

end Use

/-- No value has a built-in method with the name of an aggregate. -/
theorem anyMethods_of_aggregate {n : String} (h : (Aggregate.ofName? n).isSome = true) :
    Builtin.anyMethods n = [] := by
  obtain ⟨op, hop⟩ := Option.isSome_iff_exists.mp h
  unfold Aggregate.ofName? at hop
  have hname : (op.name == n) = true := by simpa using List.find?_some hop
  rw [← beq_iff_eq.mp hname]
  cases op <;> rfl

/-- Choosing leaves the context as it is. -/
theorem choose_leaves {candidates : List α} {parameters : α → List Ty} {es : List Term}
    {name owner : String} {span : Span} {x : α} {c d : Context}
    (h : choose candidates parameters es name owner span c = (.ok x, d)) : d = c := by
  have hleaves := (settled_choose candidates parameters es name owner span c rfl).1
  rwa [h] at hleaves

section

variable {derived base : Ty} {between : List Ty} {e e' : Term} {n : String} {span : Span}
  {c d : Context} {r : Term}

/-! ### What is inherited -/

theorem member_inherited (h : derived.Inherits base between) (he : e.type = base)
    (he' : e'.type = derived) (hclear : ∀ u ∈ between, u.ownProperties.lookup n = none) :
    AcceptedAs (fun r r' => r'.type = r.type) (member e n span) (member e' n span) := by
  have hmember : e'.type.member? n = e.type.member? n := by
    rw [he, he']
    exact h.member?_eq hclear
  unfold member
  rw [hmember]
  split
  · exact acceptedAs_pure rfl
  · -- a class has no built-in property
    obtain ⟨_, _, _, _, _, _, _, hb⟩ := h.isClass
    rw [he, hb]
    exact acceptedAs_fail _ _

theorem not_isAggregate (h : derived.Inherits base between) : isAggregate derived n = false := by
  obtain ⟨_, _, _, hd⟩ := h.declares
  rw [hd]
  rfl

/-- A call that is no aggregate is accepted as one of the same method. -/
theorem method_inherited (h : derived.Inherits base between) (he : e.type = base)
    (he' : e'.type = derived) (hclear : ∀ u ∈ between, u.ownMethods n = [])
    (hnot : isAggregate base n = false) (arguments : List (Check Term)) :
    AcceptedAs (fun r r' => r'.type = r.type) (method e n arguments span)
      (method e' n arguments span) := by
  have hbuiltin : Builtin.methods derived n = Builtin.methods base n := by
    obtain ⟨_, _, _, hd⟩ := h.declares
    obtain ⟨_, _, _, _, _, _, _, hb⟩ := h.isClass
    rw [hd, hb]
    rfl
  rw [method_of_not (he ▸ hnot), method_of_not (he' ▸ not_isAggregate h), he, he',
    h.methods_eq hclear, hbuiltin]
  refine acceptedAs_after fun es => ?_
  split
  · exact (acceptedAs_choose _ _ _ _ _ _ _).bind fun b _ hb => hb ▸ acceptedAs_pure rfl
  · exact (acceptedAs_choose _ _ _ _ _ _ _).bind fun s _ hs => hs ▸ acceptedAs_pure rfl

/-- A value of the class may be passed where a base is expected. -/
theorem passed_inherited (h : derived.Inherits base between) (he : e.type = base)
    (he' : e'.type = derived) {element : Ty}
    (hbase : (Ty.sequence element).isBaseOf base = true) :
    AcceptedAs (fun r r' => r'.type = r.type) (converted e (.sequence element))
      (converted e' (.sequence element)) := by
  obtain ⟨_, _, _, hd⟩ := h.declares
  obtain ⟨_, _, _, _, _, _, _, hb⟩ := h.isClass
  have hconverts : e'.type.converts (.sequence element) = true := by
    have hderived := h.isBaseOf hbase
    rw [he']
    rw [hd] at hderived ⊢
    exact Bool.or_eq_true_iff.mpr (.inr hderived)
  have htype : (e.convertTo (.sequence element)).type = .sequence element := by
    rw [Term.type_convertTo, he, hb]
    rfl
  have htype' : (e'.convertTo (.sequence element)).type = .sequence element := by
    rw [Term.type_convertTo, he', hd]
    rfl
  unfold converted Term.coerce?
  rw [if_pos (Term.isAssignable_of_converts hconverts)]
  split
  · rename_i x hx
    obtain ⟨-, hx⟩ := Option.ite_none_right_eq_some.mp hx
    cases hx
    exact acceptedAs_pure (htype'.trans htype.symm)
  · exact acceptedAs_fail _ _

/-! ### What is not inherited -/

/-- The name of an aggregate is accepted as that of a method. -/
theorem method_ok_of_aggregate (h : derived.Inherits base between) (he' : e'.type = derived)
    (hclear : ∀ u ∈ between, u.ownMethods n = []) (hagg : isAggregate base n = true)
    {arguments : List (Check Term)} (hr : method e' n arguments span c = (.ok r, d)) :
    ∃ es s, values arguments c = (.ok es, d) ∧ s ∈ base.methods n ∧
      r = .call e' n (convertArguments es s.parameters) s.returns span := by
  have hbuiltin : Builtin.methods derived n = [] := by
    obtain ⟨_, _, _, hd⟩ := h.declares
    rw [Builtin.methods, anyMethods_of_aggregate (Bool.and_eq_true_iff.mp hagg).2, hd]
    rfl
  rw [method_of_not (he' ▸ not_isAggregate h), he', h.methods_eq hclear, hbuiltin,
    Step.bind_apply] at hr
  rcases hes : values arguments c with ⟨_ | es, c'⟩ <;> rw [hes] at hr
  · cases hr
  dsimp only at hr
  split at hr
  · cases hr
  rw [Step.bind_apply] at hr
  rcases hs : choose (base.methods n) (·.parameters) es n derived.display span c' with
    ⟨_ | s, c''⟩ <;> rw [hs] at hr
  · cases hr
  · cases hr
    obtain rfl := choose_leaves hs
    exact ⟨es, s, rfl, (choose_ok hs).1, rfl⟩

theorem index_refused (h : derived.Inherits base between) (he' : e'.type = derived)
    (arguments : List (Check Term)) : Refused (index e' arguments span) := by
  obtain ⟨_, _, _, hd⟩ := h.declares
  unfold index
  rw [he', hd]
  exact refused_after fun es => refused_fail _ _

theorem source_refused (h : derived.Inherits base between) (he' : e'.type = derived)
    (operand : Check Term) : Refused (inSource operand (pure e') span) := by
  obtain ⟨_, _, _, hd⟩ := h.declares
  unfold inSource
  refine refused_after fun x => ?_
  have hvalue : value (pure e') = pure e' := by
    unfold value
    rw [pure_bind, he', hd]
    rfl
  rw [hvalue, pure_bind, he', hd]
  exact refused_fail _ _

/-- A class without elements passes for no sequence that is not among its bases. -/
theorem passed_refused (h : derived.Inherits base between) (he' : e'.type = derived)
    {element : Ty} (hbase : (Ty.sequence element).isBaseOf base = false) :
    Refused (converted e' (.sequence element) : Check Term) := by
  have hnot : e'.isAssignable (.sequence element) = false := by
    have hderived : (Ty.sequence element).isBaseOf derived = false := by
      rw [Ty.isBaseOf, h.bases, Ty.chain, List.any_append, List.any_cons,
        List.any_eq_false.mpr fun u hu => by rw [h.not_sequence (.inl hu)]; simp,
        h.not_sequence (.inr rfl)]
      exact hbase
    obtain ⟨_, _, _, hd⟩ := h.declares
    have hconverts : e'.type.converts (.sequence element) = false := by
      rw [he']
      rw [hd] at hderived ⊢
      exact hderived
    have hfits : e'.fits (.sequence element) = false := by
      unfold Term.fits
      split
      · rename_i hprim
        cases hprim
      · rfl
    rw [← Bool.not_eq_true, Term.isAssignable_iff, hconverts, hfits]
    simp
  unfold converted Term.coerce?
  rw [hnot]
  exact refused_fail _ _

/-- **What a class takes from its bases.** What is done with a value of the base,
and does not depend on what the base itself declares, is done alike with a value of
the class; but what depends on it is no use of the class, unless it is a call and
the base has a method of the name of the aggregate. -/
theorem use_inherited (h : derived.Inherits base between) (he : e.type = base)
    (he' : e'.type = derived) (use : Use) (hclear : ∀ u ∈ between, use.Clear u) (span : Span) :
    (¬ use.IsOwn base →
      AcceptedAs (fun r r' => r'.type = r.type) (use.check e span) (use.check e' span)) ∧
    (use.IsOwn base → ∀ c r d, use.check e' span c = (.ok r, d) →
      ∃ n arguments es s, use = .method n arguments ∧ values arguments c = (.ok es, d) ∧
        s ∈ base.methods n ∧
          r = .call e' n (convertArguments es s.parameters) s.returns span) := by
  cases use with
  | member n =>
    exact ⟨fun _ => member_inherited h he he' hclear, fun hown => hown.elim⟩
  | method n arguments =>
    refine ⟨fun hown => ?_, fun hown c r d hr => ?_⟩
    · exact method_inherited h he he' hclear (by simpa [Use.IsOwn] using hown) arguments
    obtain ⟨es, s, hes, hs, hcall⟩ := method_ok_of_aggregate h he' hclear hown hr
    exact ⟨n, arguments, es, s, rfl, hes, hs, hcall⟩
  | index arguments =>
    refine ⟨fun hown => (hown trivial).elim, fun _ c r d hr => ?_⟩
    exact (index_refused h he' arguments c r d hr).elim
  | source operand =>
    refine ⟨fun hown => (hown trivial).elim, fun _ c r d hr => ?_⟩
    exact (source_refused h he' operand c r d hr).elim
  | passed element =>
    refine ⟨fun hown => passed_inherited h he he' (by simpa [Use.IsOwn] using hown),
      fun hown c r d hr => ?_⟩
    exact (passed_refused h he' hown c r d hr).elim

end

/-- A property is read through a class that declares something else, and an indexer
is not found behind it. -/
theorem use_inherited_age :
    let being : Ty := .cls "Being" [("Age", .int32)] [] [([.int32], .string)] none none false
    let animal : Ty := .cls "Animal" [("Legs", .int32)] [] [] none (some being) false
    let cat : Ty := .cls "Cat" [] [] [] none (some animal) false
    let c : Context := ⟨.empty, .ofTable ⟨[], none⟩⟩
    cat.Inherits being [animal] ∧
      (∃ r, member (.parameter "it" cat ⟨0, 2⟩) "Age" ⟨0, 6⟩ c = (.ok r, c) ∧ r.type = .int32) ∧
      ∀ es r d, index (.parameter "it" cat ⟨0, 2⟩) es ⟨0, 6⟩ c ≠ (.ok r, d) := by
  intro being animal cat c
  have h : cat.Inherits being [animal] :=
    ⟨⟨_, _, _, rfl⟩, ⟨_, _, _, _, _, _, _, rfl⟩, rfl⟩
  have he : (Term.parameter "it" being ⟨0, 2⟩).type = being := rfl
  have he' : (Term.parameter "it" cat ⟨0, 2⟩).type = cat := rfl
  have hclear : ∀ u ∈ [animal], (Use.member "Age").Clear u := by
    intro u hu
    rw [List.mem_singleton.mp hu]
    rfl
  have hage : member (.parameter "it" being ⟨0, 2⟩) "Age" ⟨0, 6⟩ c =
      (.ok (.member (.parameter "it" being ⟨0, 2⟩) "Age" .int32 ⟨0, 6⟩), c) := rfl
  refine ⟨h, (use_inherited h he he' (.member "Age") hclear ⟨0, 6⟩).1 id c _ _ hage, ?_⟩
  intro es r d hr
  have hnone : ∀ u ∈ [animal], (Use.index es).Clear u := fun _ _ => trivial
  obtain ⟨_, _, _, _, huse, -⟩ :=
    (use_inherited h he he' (.index es) hnone ⟨0, 6⟩).2 trivial c r d hr
  cases huse

end Check

set_option maxRecDepth 2000 in
/-- What a class is indexed by, and that it has elements, is not taken over by a class
that extends it and declares nothing. -/
theorem Lambda.compile_not_inherited :
    let base : Ty := .cls "B" [] [] [([.int32], .string)] (some .int32) none false
    let derived : Ty := .cls "D" [] [] [] none (some base) false
    derived.Inherits base [] ∧
      (∃ f, compile {} [⟨"b", base⟩] none .inferred "b[0]" .empty = (.ok f, .empty)) ∧
      (∃ f, compile {} [⟨"b", base⟩] none .inferred "b.Any()" .empty = (.ok f, .empty)) ∧
      compile {} [⟨"d", derived⟩] none .inferred "d[0]" .empty =
        (.error ⟨.noIndexer "D", ⟨0, 4⟩⟩, .empty) ∧
      compile {} [⟨"d", derived⟩] none .inferred "d.Any()" .empty =
        (.error ⟨.noMethod "Any" "D", ⟨0, 7⟩⟩, .empty) := by
  intro base derived
  have hindex : compile {} [⟨"b", base⟩] none .inferred "b[0]" .empty =
      (.ok ⟨[⟨"b", base⟩], .index (.parameter "b" base ⟨0, 1⟩) [.constant (.int32 0) .int32 ⟨2, 1⟩]
        .string ⟨0, 4⟩, .string, .ofDelegate none [⟨"b", base⟩] .string⟩, .empty) := by
    with_unfolding_all rfl
  have hany : compile {} [⟨"b", base⟩] none .inferred "b.Any()" .empty =
      (.ok ⟨[⟨"b", base⟩], .aggregate .any (.parameter "b" base ⟨0, 1⟩) .boolean ⟨0, 7⟩, .boolean,
        .ofDelegate none [⟨"b", base⟩] .boolean⟩, .empty) := by with_unfolding_all rfl
  have hinherits : derived.Inherits base [] :=
    ⟨⟨_, _, _, rfl⟩, ⟨_, _, _, _, _, _, _, rfl⟩, rfl⟩
  exact ⟨hinherits, ⟨_, hindex⟩, ⟨_, hany⟩, by with_unfolding_all rfl, by with_unfolding_all rfl⟩

end QueryExpr
