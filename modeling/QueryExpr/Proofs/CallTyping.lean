/-
# Members and calls keep the rules of typing

Every routine of the checker, given checks of the parts that are sound, is
sound itself: what it yields is made by the rules of typing. Here are those
for values and bodies, for aggregates, and for members, calls and indexing,
whose arguments are converted to the parameters of the chosen candidate.

Key definitions: `Term.Checked`, `Check.Sound`.
Key theorems: `selectOverload_found`, `Check.yields_aggregate`,
`Check.yields_index`, `Check.yields_method`, `Check.yields_invoke`.
-/
import QueryExpr.Proofs.CheckOutcomes

namespace QueryExpr

/-! ### Overloads -/

theorem totalCost?_isAssignable : ∀ (ts : List Ty) (es : List Term) (cost : Nat → Ty → Option Nat)
    (i n : Nat), (∀ k t, cost (i + k) t = es[k]?.bind (·.assignmentCost? t)) →
    ts.length = es.length → totalCost? cost i ts = some n →
    List.Forall₂ (fun e t => e.isAssignable t = true) es ts
  | [], [], _, _, _, _, _, _ => .nil
  | t :: ts, e :: es, cost, i, n, hc, hl, h => by
    have he : cost i t = e.assignmentCost? t := hc 0 t
    have hes : ∀ k u, cost (i + 1 + k) u = es[k]?.bind (·.assignmentCost? u) := fun k u => by
      rw [Nat.add_assoc, Nat.add_comm 1 k]
      exact hc (k + 1) u
    simp only [totalCost?] at h
    split at h
    · rename_i m m' hm hm'
      rw [he] at hm
      refine .cons (by simp [Term.isAssignable, hm]) ?_
      exact totalCost?_isAssignable ts es cost (i + 1) m' hes (by simpa using hl) hm'
    · cases h

/-- **The chosen candidate is one that every argument can be passed to.** -/
theorem selectOverload_found {candidates : List (List Ty)} {es : List Term} {i : Nat}
    (h : selectOverload candidates es = .found i) :
    ∃ ts, candidates[i]? = some ts ∧
      List.Forall₂ (fun e t => e.isAssignable t = true) es ts := by
  unfold selectOverload resolveOverload at h
  dsimp only at h
  split at h
  · cases h
  split at h
  · rename_i index n hf
    cases h
    have hm : (i, n) ∈ applicable (fun i t => es[i]?.bind (·.assignmentCost? t)) es.length
        candidates := List.mem_of_mem_filter (hf ▸ List.mem_singleton_self _)
    obtain ⟨⟨ts, j⟩, hj, hm⟩ := List.mem_filterMap.mp hm
    dsimp only at hm
    split at hm
    · rename_i hl
      obtain ⟨m, hc, he⟩ := Option.map_eq_some_iff.mp hm
      cases he
      refine ⟨ts, by simpa using List.mem_zipIdx_iff_getElem?.mp hj, ?_⟩
      exact totalCost?_isAssignable ts es _ 0 _ (fun k t => by simp) (by simpa using hl) hc
    · cases hm
  · cases h

/-! ### Terms as they are yielded -/

/-- The term is made by the rules, and if it is the constant null, it is so of
its own type or of a predefined one. -/
def Term.Checked (D : Discipline) (s : Scopes) (e : Term) : Prop :=
  Typed D s e ∧ (e.isNullConstant = true → e.type = .null ∨ ∃ p, e.type = .prim p)

namespace Check

/-- The check yields what the rules of typing make, in all scopes. -/
structure Sound (D : Discipline) (m : Check Term) : Prop where
  composed : Composed m
  yields (s : Scopes) : s.Valued D → Yields D s m (Term.Checked D s)

variable {α : Type} {D : Discipline} (hD : D.Lawful) {s : Scopes} (hs : s.Valued D) {m : Check Term}
  {ms : List (Check Term)}

/-- A term that is not the constant null only has to be made by the rules. -/
theorem checked {e : Term} (h : Term.Typed D s e) (hn : e.isNullConstant = false) :
    Term.Checked D s e := ⟨h, fun h' => by rw [hn] at h'; cases h'⟩

include hD

theorem yields_valueOf {Q : Term → Prop} (h : Yields D s m Q) (hk : Composed m) :
    Yields D s (value m) fun e => Q e ∧ D.value e.type := by
  refine h.settle hk fun e => ?_
  dsimp only
  split
  · exact settled_fail _ _
  · rename_i hv
    exact settled_pure fun he => ⟨he, hD.valued (by simpa using hv)⟩

include hs

theorem yields_value (h : Sound D m) :
    Yields D s (value m) fun e => Term.Checked D s e ∧ D.value e.type :=
  yields_valueOf hD (h.yields s hs) h.composed

theorem yields_values (h : ∀ m ∈ ms, Sound D m) :
    Yields D s (values ms) fun es =>
      es.length = ms.length ∧ ∀ e ∈ es, Term.Typed D s e ∧ D.value e.type := by
  induction ms with
  | nil => exact (settled_pure ⟨rfl, fun e he => by cases he⟩).yields
  | cons m ms ih =>
    have hm := h m List.mem_cons_self
    have hms : ∀ m ∈ ms, Sound D m := fun m hm => h m (List.mem_cons_of_mem _ hm)
    have hk : Composed (values ms) := composed_values fun m hm => (hms m hm).composed
    refine (yields_value hD hs hm).bind (composed_value hm.composed)
      (fun e => hk.bind fun es => Built.pure _) fun e he => ?_
    refine (ih hms).settle hk fun es => settled_pure fun hes => ⟨by simp [hes.1], fun a ha => ?_⟩
    rcases List.mem_cons.mp ha with rfl | ha
    · exact ⟨he.1.1, he.2⟩
    · exact hes.2 a ha

theorem settled_converted (e : Term) {t : Ty} (ht : D.Admits t) :
    Settled s (converted e t) fun e' => Term.Typed D s e → D.value e.type →
      Term.Typed D s e' ∧ D.value e'.type ∧ (e'.type == t) = true := by
  unfold converted Term.coerce?
  by_cases ha : e.isAssignable t = true
  · rw [if_pos ha]
    exact settled_pure fun h hv => ⟨h.convertTo hD hs hv ht ha, Term.Typed.value_convertTo hD hv ha,
      e.type_convertTo_beq t⟩
  · rw [if_neg ha]
    exact settled_fail _ _

/-! ### Bodies and aggregates -/

theorem yields_body {t : Ty} (ht : D.Admits t) (hv : D.value t) (h : Sound D m) :
    Yields D s (body t m) fun e => Term.Typed D (s.push t) e ∧ D.value e.type :=
  yields_withElement ((yields_value hD (hs.push ht hv) h).mono fun _ he => ⟨he.1.1, he.2⟩)

theorem yields_predicate {t : Ty} (ht : D.Admits t) (hv : D.value t) (h : Sound D m) :
    Yields D s (predicate t m) fun e => Term.Typed D (s.push t) e ∧ e.type = .boolean := by
  refine (yields_body hD hs ht hv h).settle (composed_body t h.composed) fun e => ?_
  dsimp only
  split
  · exact settled_fail _ _
  · rename_i hb
    have hb : (e.type == Ty.boolean) = true := by simpa using hb
    exact settled_pure fun he => ⟨he.1, Ty.beq_prim hb⟩

theorem typed_brought (op : Aggregate) {e : Term} (h : Term.Typed D s e) (hv : D.value e.type) :
    Term.Typed D s (op.brought e) ∧ D.value (op.brought e).type := by
  unfold Aggregate.brought
  split
  · rename_i u hu
    obtain ⟨-, hc, q, rfl⟩ := Aggregate.input?_cases hu
    have ha := Term.isAssignable_of_converts hc
    exact ⟨h.convertTo hD hs hv (hD.admits_lift q _) ha, Term.Typed.value_convertTo hD hv ha⟩
  · exact ⟨h, hv⟩

theorem yields_aggregate {source : Term} {t : Ty} (hsource : Term.Typed D s source)
    (hv : D.value source.type) (ht : source.type.element? = some t) (op : Aggregate) (span : Span)
    (h : ∀ m ∈ ms, Sound D m) :
    Yields D s (aggregate source t op ms span) (Term.Checked D s) := by
  have hst := hsource.admits hD hs
  have hta : D.Admits t := hst.element ht
  have htv : D.value t := hD.element hst.here ht
  rcases aggregate_cases source t op ms span with
    ⟨cause, h'⟩ | ⟨u, -, hu, h'⟩ | ⟨m, u, rfl, hu, h'⟩ | ⟨m, rfl, h'⟩ | ⟨m, u, v, rfl, hu, h'⟩
  all_goals rw [h']
  · exact (settled_fail _ _).yields
  · exact (settled_pure (checked (.aggregate hsource hv ht hu) rfl)).yields
  · have hm := h m List.mem_cons_self
    refine (yields_predicate hD hs hta htv hm).settle (composed_predicate t hm.composed) fun e => ?_
    exact settled_pure fun he => checked (.aggregateTest hsource hv ht he.1 he.2 hu) rfl
  · have hm := h m List.mem_cons_self
    refine (yields_body hD hs hta htv hm).settle (composed_body t hm.composed) fun e => ?_
    split
    · rename_i u hu
      obtain ⟨hb, hi⟩ := Aggregate.selected?_brought hu
      refine settled_pure fun he => checked ?_ rfl
      obtain ⟨h1, h2⟩ := typed_brought hD (hs.push hta htv) op he.1 he.2
      exact .aggregateSelect hsource hv ht h1 h2 hb hi
    · exact settled_fail _ _
  · have hm := h m List.mem_cons_self
    obtain ⟨hua, -, -⟩ := hD.admits_taken? hta htv hu
    refine (yields_value hD hs hm).settle (composed_value hm.composed) fun e => ?_
    refine (settled_converted hD hs e hua).bind fun e' he' => settled_pure fun he => ?_
    obtain ⟨h1, h2, h3⟩ := he' he.1.1 he.2
    exact checked (.aggregateWith hsource hv ht h1 h2 hu h3) rfl

/-! ### Members, calls and indexing -/

theorem settled_member {target : Term} (h : Term.Typed D s target) (hv : D.value target.type)
    (name : String) (span : Span) :
    Settled s (member target name span) fun e => Term.Checked D s e ∧ D.value e.type := by
  unfold member
  split
  · rename_i t ht
    exact settled_pure ⟨checked (.member h hv ht) rfl, hD.value_member (h.admits hD hs) ht⟩
  · split
    · rename_i op t hp
      obtain ⟨p, rfl⟩ := Builtin.property?_prim hp
      exact settled_pure ⟨checked (.property h hv hp) rfl, hD.valued rfl⟩
    · exact settled_fail _ _

/-- The arguments of a chosen candidate, each converted to the type of its
parameter. -/
theorem typed_convertArguments {es : List Term} {ts : List Ty}
    (ha : List.Forall₂ (fun e t => e.isAssignable t = true) es ts)
    (hes : ∀ e ∈ es, Term.Typed D s e ∧ D.value e.type) (hts : ∀ t ∈ ts, D.Admits t) :
    (∀ e ∈ convertArguments es ts, Term.Typed D s e) ∧
      (∀ e ∈ convertArguments es ts, D.value e.type) ∧
      Term.HaveTypes (convertArguments es ts) ts := by
  induction ha with
  | nil => exact ⟨List.forall_mem_nil _, List.forall_mem_nil _, .nil⟩
  | @cons e t es ts ha has ih =>
    obtain ⟨h, hv⟩ := hes e List.mem_cons_self
    obtain ⟨ih1, ih2, ih3⟩ := ih (fun e he => hes e (List.mem_cons_of_mem _ he))
      fun t ht => hts t (List.mem_cons_of_mem _ ht)
    have ht := h.convertTo hD hs hv (hts t List.mem_cons_self) ha
    have htv := Term.Typed.value_convertTo hD hv ha
    refine ⟨fun a h => ?_, fun a h => ?_, .cons (e.type_convertTo_beq t) ih3⟩
    · rcases List.mem_cons.mp h with rfl | h
      · exact ht
      · exact ih1 a h
    · rcases List.mem_cons.mp h with rfl | h
      · exact htv
      · exact ih2 a h

omit hD hs in
theorem settled_choose (candidates : List α) (parameters : α → List Ty) (es : List Term)
    (name owner : String) (span : Span) :
    Settled s (choose candidates parameters es name owner span) fun x => x ∈ candidates ∧
      List.Forall₂ (fun e t => e.isAssignable t = true) es (parameters x) := by
  unfold choose
  split
  · rename_i i hi
    obtain ⟨ts, hts, hes⟩ := selectOverload_found hi
    split
    · rename_i x hx
      rw [List.getElem?_map, hx] at hts
      cases hts
      exact settled_pure ⟨List.mem_of_getElem? hx, hes⟩
    · exact settled_fail _ _
  · exact settled_fail _ _
  · exact settled_fail _ _

theorem yields_index {target : Term} (h : Term.Typed D s target) (hv : D.value target.type)
    (span : Span) (hms : ∀ m ∈ ms, Sound D m) :
    Yields D s (index target ms span) (Term.Checked D s) := by
  refine (yields_values hD hs hms).settle (composed_values fun m hm => (hms m hm).composed) fun es => ?_
  dsimp only
  split
  · rename_i i hi
    obtain ⟨ts, hts, ha⟩ := selectOverload_found hi
    split
    · rename_i sig hsig
      rw [List.getElem?_map, hsig] at hts
      cases hts
      have hm := List.mem_of_getElem? hsig
      have hp := (hD.admits_indexer (h.admits hD hs) hm).1.2
      refine settled_pure fun hes => checked ?_ rfl
      obtain ⟨h1, h2, h3⟩ := typed_convertArguments hD hs ha hes.2 hp
      exact .index h hv h1 h2 hm h3
    · exact settled_fail _ _
  · exact settled_fail _ _
  · exact settled_fail _ _

theorem yields_method {target : Term} (h : Term.Typed D s target) (hv : D.value target.type)
    (name : String) (span : Span) (hms : ∀ m ∈ ms, Sound D m) :
    Yields D s (method target name ms span) (Term.Checked D s) := by
  unfold method
  split
  · rename_i t op ht hop
    exact yields_aggregate hD hs h hv ht op span hms
  · refine (yields_values hD hs hms).settle (composed_values fun m hm => (hms m hm).composed) fun es => ?_
    dsimp only
    split
    · refine (settled_choose _ _ _ _ _ _).bind fun b hb => settled_pure fun hes => checked ?_ rfl
      have hp := (Builtin.isPrimitive_methods hb.1).2
      obtain ⟨h1, h2, h3⟩ := typed_convertArguments hD hs hb.2 hes.2 fun t ht => by
        obtain ⟨p, rfl⟩ := hp t ht
        exact hD.admits_prim p
      exact .method h hv h1 h2 hb.1 h3
    · refine (settled_choose _ _ _ _ _ _).bind fun m hm => settled_pure fun hes => checked ?_ rfl
      have hp := ((h.admits hD hs).methods hm.1).2
      obtain ⟨h1, h2, h3⟩ := typed_convertArguments hD hs hm.2 hes.2 hp
      exact .call h hv h1 h2 hm.1 h3

theorem yields_invokeArguments : ∀ (ms : List (Check Term)) (ts : List Ty),
    ms.length = ts.length → (∀ t ∈ ts, D.Admits t) → (∀ m ∈ ms, Sound D m) →
    Yields D s (invokeArguments ms ts) fun es => (∀ e ∈ es, Term.Typed D s e) ∧
      (∀ e ∈ es, D.value e.type) ∧ Term.HaveTypes es ts
  | [], [], _, _, _ =>
    (settled_pure ⟨List.forall_mem_nil _, List.forall_mem_nil _, .nil⟩).yields
  | m :: ms, t :: ts, hl, hts, hms => by
    have hm := hms m List.mem_cons_self
    have hms' : ∀ m ∈ ms, Sound D m := fun m hm => hms m (List.mem_cons_of_mem _ hm)
    have hk : Composed (invokeArguments ms ts) := composed_invokeArguments ms ts fun m hm => (hms' m hm).composed
    refine (yields_value hD hs hm).bind (composed_value hm.composed) (fun x =>
      (composed_converted x t).bind fun e => hk.bind fun es => Built.pure _) fun x hx => ?_
    refine (settled_converted hD hs x (hts t List.mem_cons_self)).bind_yields fun e he => ?_
    obtain ⟨h1, h2, h3⟩ := he hx.1.1 hx.2
    refine (yields_invokeArguments ms ts (by simpa using hl)
      (fun t ht => hts t (List.mem_cons_of_mem _ ht)) hms').settle hk fun es => ?_
    refine settled_pure fun ⟨h4, h5, h6⟩ => ⟨fun a h => ?_, fun a h => ?_, .cons h3 h6⟩
    · rcases List.mem_cons.mp h with rfl | h
      · exact h1
      · exact h4 a h
    · rcases List.mem_cons.mp h with rfl | h
      · exact h2
      · exact h5 a h

theorem yields_invoke {delegate : Term} (h : Term.Typed D s delegate) (name : String) (span : Span)
    (hms : ∀ m ∈ ms, Sound D m) :
    Yields D s (invoke delegate name ms span) (Term.Checked D s) := by
  unfold invoke
  split
  · rename_i n ns ts t ht
    dsimp only
    split
    · exact (settled_fail _ _).bind_yields (Q := fun _ => False) fun _ h => h.elim
    · rename_i hl
      have hl : ms.length = ts.length := by simpa using hl
      have hta : ∀ u ∈ ts, D.Admits u := fun u hu => by
        have := h.admits hD hs
        rw [ht] at this
        exact this.part (List.mem_cons_of_mem _ hu)
      refine (yields_invokeArguments hD hs ms ts hl hta hms).settle
        (composed_invokeArguments ms ts fun m hm => (hms m hm).composed) fun es => ?_
      exact settled_pure fun ⟨h1, h2, h3⟩ => checked (.invoke h h1 h2 ht h3) rfl
  · exact (settled_fail _ _).yields

theorem yields_function (owner : KnownType) (name : Name) (span : Span)
    (hms : ∀ m ∈ ms, Sound D m) :
    Yields D s (function owner name ms span) (Term.Checked D s) := by
  unfold function
  dsimp only
  split
  · exact (settled_fail _ _).bind_yields (Q := fun _ => False) fun _ h => h.elim
  · refine (yields_values hD hs hms).settle (composed_values fun m hm => (hms m hm).composed) fun es => ?_
    refine (settled_choose _ _ _ _ _ _).bind fun b hb => settled_pure fun hes => checked ?_ rfl
    have hp := (Builtin.isPrimitive_functions hb.1).2
    obtain ⟨h1, h2, h3⟩ := typed_convertArguments hD hs hb.2 hes.2 fun t ht => by
      obtain ⟨p, rfl⟩ := hp t ht
      exact hD.admits_prim p
    exact .function h1 h2 hb.1 h3

end Check
end QueryExpr
