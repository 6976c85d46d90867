/-
# Ordering by clauses and by aggregates

The clauses of an ordering are compared one after the other in a single sort. The
same order comes of sorting once for each clause, by an aggregate that has the key
of the clause as its body, the last clause first: what the later sort does not tell
apart stays as the earlier one has left it.

The aggregates evaluate the keys anew, for lists that have other numbers and with
other names bound. That makes no difference for keys that have no parts, if the host
ignores the numbers of lists.

Key definitions: `Term.orderedBy`, `Clause.IsSelector`, `Steady`.
Key theorems: `isSelector_of_compile`, `steady_of_ok`, `orderedBy_elements`,
`sort_eq_orderedBy`.
-/
import QueryExpr.Ordering.Clause
import QueryExpr.Proofs.AlikeEval
import QueryExpr.Proofs.BalancedStacks
import QueryExpr.Proofs.OrderedElements

namespace QueryExpr

/-- The aggregate that orders in a direction. -/
def Ordering.Direction.aggregate : Ordering.Direction → Aggregate
  | .ascending => .orderBy
  | .descending => .orderByDescending

/-- The elements of the source ordered by an aggregate for each clause, the last one
first. -/
def Term.orderedBy (source : Term) (type : Ty) (span : Span) : List Ordering.Clause → Term
  | [] => source
  | k :: ks =>
    .aggregateBy k.direction.aggregate (source.orderedBy type span ks) k.key.body type span

namespace Ordering

open Eval (withElement)

variable {host : Host} {n : Nat}

/-! ### Keys as bodies -/

/-- The key is a function of an element that is `it`, and it has a value. -/
structure Clause.IsSelector (k : Clause) : Prop where
  parameters : k.key.parameters.map Declaration.boundName = [implicitName]
  returns : k.key.returns.isVoid = false

/-- The key of a selector is its body, evaluated with the element. -/
theorem Clause.IsSelector.invoke {k : Clause} (hk : k.IsSelector) (v : Value) (c : EvalContext) :
    k.key.invoke host [v] c = withElement v (Eval.term host k.key.body) c := by
  have hlength : k.key.parameters.length = 1 := by
    simpa using congrArg List.length hk.parameters
  unfold Lambda.invoke
  rw [hk.parameters, hlength, hk.returns]
  show (Eval.withBindings [(implicitName, v)] (Eval.term host k.key.body) >>= pure) c = _
  rw [bind_pure, Eval.withBindings_singleton (Eval.same_term host k.key.body)]

theorem isSelector_of_compileSegment {o : Options} {element : Ty} {table : ParameterTable}
    {text : List Char} {s : Segment} {records d : RecordCache} {k : Clause}
    (h : compileSegment o element table text s records = (.ok k, d)) : k.IsSelector := by
  unfold compileSegment at h
  split at h
  · cases h
  split at h
  · cases h
  split at h
  · cases h
  rename_i body _ _ hvoid
  cases h
  exact ⟨rfl, by simpa using hvoid⟩

/-- The clauses of a compiled ordering are selectors. -/
theorem isSelector_of_compile {o : Options} {element : Ty} {text : String}
    {records d : RecordCache} {clauses : List Clause}
    (h : compile o element text records = (.ok clauses, d)) : ∀ k ∈ clauses, k.IsSelector := by
  have hsegments : ∀ (table : ParameterTable) (ss : List Segment) (records : RecordCache)
      (clauses : List Clause) (d : RecordCache),
      compileSegments o element table text.toList ss records = (.ok clauses, d) →
        ∀ k ∈ clauses, k.IsSelector := by
    intro table ss
    induction ss with
    | nil =>
      intro records clauses d h
      cases h
      exact List.forall_mem_nil _
    | cons s ss ih =>
      intro records clauses d h
      unfold compileSegments at h
      split at h
      · cases h
      rename_i k records' hk
      split at h
      · cases h
      rename_i ks records'' hks
      cases h
      exact List.forall_mem_cons.mpr ⟨isSelector_of_compileSegment hk, ih _ _ _ hks⟩
  unfold compile at h
  split at h
  · cases h
  split at h
  · cases h
  exact hsegments _ _ _ _ _ h

/-! ### Keys come to the same everywhere -/

/-- Wherever lists are numbered from `n` on, the evaluation comes to `x`, and lists
are numbered from `n` on afterwards. -/
def Steady {α : Type} (n : Nat) (m : Eval α) (x : α) : Prop :=
  ∀ c, n ≤ c.nextList → ∃ d, m c = (.ok x, d) ∧ n ≤ d.nextList

theorem Steady.bind {α β : Type} {m : Eval α} {f : α → Eval β} {x : α} {y : β}
    (hm : Steady n m x) (hf : Steady n (f x) y) : Steady n (m >>= f) y := by
  intro c hc
  obtain ⟨d, hd, hn⟩ := hm c hc
  obtain ⟨e, he, hn'⟩ := hf d hn
  exact ⟨e, by rw [Step.bind_apply, hd]; exact he, hn'⟩

theorem steady_pure {α : Type} (x : α) : Steady n (pure x : Eval α) x := fun c hc => ⟨c, rfl, hc⟩

/-- Numbers below `n` are related to themselves, and those from `i` on to those from
`j` on. -/
def Renumbered (n i j : Nat) (a b : Nat) : Prop := a = b ∧ a < n ∨ ∃ k, a = i + k ∧ b = j + k

theorem biUnique_renumbered {i j : Nat} (hi : n ≤ i) (hj : n ≤ j) :
    Relator.BiUnique (Renumbered n i j) := by
  constructor
  · rintro a b c (⟨rfl, ha⟩ | ⟨k, rfl, rfl⟩) (⟨rfl, hb⟩ | ⟨l, rfl, h⟩) <;> omega
  · rintro a b c (⟨rfl, ha⟩ | ⟨k, rfl, rfl⟩) (⟨rfl, hb⟩ | ⟨l, h, rfl⟩) <;> omega

/-- What a body comes to for an element, without any other name bound, it comes to
everywhere, if it has no parts. -/
theorem steady_of_ok (hh : host.IgnoresNumbers n) {v x : Value} (hv : v.IsBelow n) {body : Term}
    {c d : EvalContext} (hc : c.environment = []) (hn : n ≤ c.nextList)
    (h : withElement v (Eval.term host body) c = (.ok x, d)) (hx : ∃ s, x = .scalar s) :
    Steady n (withElement v (Eval.term host body)) x ∧ d.environment = [] ∧ n ≤ d.nextList := by
  have hmirror {c' : EvalContext} (hn' : n ≤ c'.nextList) :
      ∃ y d', withElement v (Eval.term host body) c' = (.ok y, d') ∧ y = x ∧
        Eval.Abreast c c' d d' := by
    have hR := biUnique_renumbered hn hn'
    have hself : ∀ i < n, Renumbered n c.nextList c'.nextList i i := fun i hi => .inl ⟨rfl, hi⟩
    have hbeside : Eval.Beside (Renumbered n c.nextList c'.nextList) c c' :=
      { covers := fun name w hw => by rw [hc] at hw; cases hw
        lists := fun k => .inr ⟨k, rfl, rfl⟩ }
    obtain ⟨y, d', hy, hxy, habreast⟩ :=
      (Eval.mirrors_term (hh _ hR hself) hR body).withElement (hv.alike hself) c c' hbeside x d h
    obtain ⟨s, rfl⟩ := hx
    exact ⟨y, d', hy, hxy, habreast⟩
  refine ⟨fun c' hn' => ?_, ?_⟩
  · obtain ⟨y, d', hy, rfl, habreast⟩ := hmirror hn'
    obtain ⟨made, -, hd'⟩ := habreast.lists
    exact ⟨d', hy, by omega⟩
  · obtain ⟨_, _, _, _, habreast⟩ := hmirror hn
    obtain ⟨made, hd, -⟩ := habreast.lists
    exact ⟨habreast.left.trans hc, by omega⟩

section Runs

variable {clauses : List Clause} {elements : List Value} {c d : EvalContext}
  (hh : host.IgnoresNumbers n) (hsel : ∀ k ∈ clauses, k.IsSelector)
include hh hsel

/-- Keys of an element that are evaluated in a row come to the same everywhere. -/
theorem steady_row {v : Value} (hv : v.IsBelow n) {row : Fin clauses.length → Value}
    (hrow : ∀ k, ∃ s, row k = .scalar s) (hc : c.environment = []) (hn : n ≤ c.nextList)
    (h : Runs (clauses.map fun k => k.key.invoke host [v]) c (List.ofFn row) d) :
    (∀ k, Steady n (withElement v (Eval.term host clauses[k].key.body)) (row k)) ∧
      d.environment = [] ∧ n ≤ d.nextList := by
  induction clauses generalizing c with
  | nil =>
    cases h
    exact ⟨fun k => k.elim0, hc, hn⟩
  | cons k ks ih =>
    rw [List.ofFn_succ, List.map_cons] at h
    cases h with
    | cons head tail =>
      rw [(hsel k List.mem_cons_self).invoke] at head
      obtain ⟨hsteady, hc', hn'⟩ := steady_of_ok hh hv hc hn head (hrow 0)
      obtain ⟨hrest, hd⟩ := ih (fun k hk => hsel k (List.mem_cons_of_mem _ hk))
        (fun k => hrow k.succ) hc' hn' tail
      exact ⟨Fin.cases hsteady hrest, hd⟩

/-- Keys of all elements that are evaluated in a row come to the same everywhere. -/
theorem steady_keys (helements : ∀ v ∈ elements, v.IsBelow n)
    {keys : Fin elements.length → Fin clauses.length → Value}
    (hkeys : ∀ i k, ∃ s, keys i k = .scalar s) (hc : c.environment = []) (hn : n ≤ c.nextList)
    (h : Runs (keyEvaluations host clauses elements) c
      (List.ofFn fun i => List.ofFn (keys i)).flatten d) (i : Fin elements.length)
    (k : Fin clauses.length) :
    Steady n (withElement elements[i] (Eval.term host clauses[k].key.body)) (keys i k) := by
  induction elements generalizing c with
  | nil => exact i.elim0
  | cons v elements ih =>
    rw [List.ofFn_succ, List.flatten_cons] at h
    obtain ⟨us, ws, c', heq, hrow, hrest⟩ := runs_append h
    have hus : us.length = (List.ofFn (keys 0)).length := by
      rw [hrow.length_eq, List.length_map, List.length_ofFn]
    obtain ⟨rfl, rfl⟩ := List.append_inj heq hus.symm
    obtain ⟨hfirst, hc', hn'⟩ :=
      steady_row hh hsel (helements v List.mem_cons_self) (hkeys 0) hc hn hrow
    revert i
    refine Fin.cases (hfirst k) fun i => ?_
    exact ih (fun w hw => helements w (List.mem_cons_of_mem _ hw)) (fun i => hkeys i.succ) hc' hn'
      hrest i

end Runs

/-! ### Sorting clause by clause -/

theorem KeyKind.Holds.scalar {kind : KeyKind} {v : Value} (h : kind.Holds v) :
    ∃ s, v = .scalar s := by
  cases h with
  | null | text | truth => exact ⟨_, rfl⟩
  | number h =>
    cases v with
    | scalar s => exact ⟨s, rfl⟩
    | _ => cases h

theorem KeyKind.Holds.compareKeys_swap {kind : KeyKind} {v w : Value} (hv : kind.Holds v)
    (hw : kind.Holds w) : (v.compareKeys w).swap = w.compareKeys v := by
  rw [hv.compareKeys_eq hw, hw.compareKeys_eq hv]
  have hswap : kind.compare w v = (kind.compare v w).swap := Std.OrientedCmp.eq_swap
  exact hswap.symm

section Chain

variable {ι : Type} {element : ι → Value}

/-- The keys of elements are selected, if they come to the same everywhere. -/
theorem steady_select {body : Eval Value} {key : ι → Value}
    (h : ∀ i, Steady n (withElement (element i) body) (key i)) (order : List ι) :
    Steady n (Eval.select (some body) (order.map element)) (order.map key) := by
  induction order with
  | nil => exact steady_pure _
  | cons i order ih => exact (h i).bind (ih.bind (steady_pure _))

/-- Labelled elements are sorted by sorting the labels. -/
theorem sortedBy_map (compare : Value → Value → Ordering) (key : ι → Value) (order : List ι) :
    Eval.sortedBy compare (order.map key) (order.map element) =
      (stableSort (fun i j => compare (key i) (key j)) order).map element := by
  unfold Eval.sortedBy
  rw [List.zip_map', stableSort_map, List.map_map]
  rfl

/-- One aggregate sorts elements by one clause. -/
theorem aggregate_elements (host : Host) (d : Direction) {body : Eval Value} {key : ι → Value}
    (h : ∀ i, Steady n (withElement (element i) body) (key i)) {kind : KeyKind}
    (hkind : ∀ i, kind.Holds (key i)) (order : List ι) (type : Ty) {c : EvalContext}
    (hc : n ≤ c.nextList) :
    ∃ w e, Eval.aggregate d.aggregate (order.map element) (some body) none type c = (.ok w, e) ∧
      n ≤ e.nextList ∧ w.elements host =
        .ok ((stableSort (fun i j => d.compare (key i) (key j)) order).map element) := by
  obtain ⟨e, he, hn⟩ := steady_select h order c hc
  have hsorted : Eval.aggregate d.aggregate (order.map element) (some body) none type c =
      Eval.newList (Eval.sortedBy d.compare (order.map key) (order.map element)) e := by
    cases d with
    | ascending =>
      show (Eval.select _ _ >>= fun _ => Eval.newList _) c = _
      rw [Step.bind_apply, he]
      rfl
    | descending =>
      show (Eval.select _ _ >>= fun _ => Eval.newList _) c = _
      rw [Step.bind_apply, he, sortedBy_map]
      dsimp only
      rw [sortedBy_map]
      simp only [fun i j => (hkind i).compareKeys_swap (hkind j)]
      rfl
  rw [hsorted, sortedBy_map]
  exact ⟨_, _, rfl, Nat.le_succ_of_le hn, rfl⟩

/-- **Sorting by an aggregate for each clause**, the last one first, puts elements in
the order of all clauses. -/
theorem orderedBy_elements {source : Term} (type : Ty) (span : Span) {c d : EvalContext} {v : Value}
    {all : List ι} (hsource : Eval.term host source c = (.ok v, d))
    (hv : v.elements host = .ok (all.map element)) (hn : n ≤ d.nextList) :
    ∀ (clauses : List Clause) (keys : ι → Fin clauses.length → Value),
      (∀ i k, Steady n (withElement (element i) (Eval.term host clauses[k].key.body)) (keys i k)) →
      (∀ k, ∃ kind : KeyKind, ∀ i, kind.Holds (keys i k)) →
      ∃ w e, Eval.term host (source.orderedBy type span clauses) c = (.ok w, e) ∧
        n ≤ e.nextList ∧ w.elements host = .ok ((stableSort
          (fun i j => compareRows (fun k => clauses[k].direction) (keys i) (keys j)) all).map
            element)
  | [], keys, _, _ => by
    refine ⟨v, d, hsource, hn, ?_⟩
    rw [hv, stableSort_of_eq fun _ _ => by simp [compareRows, compareKeyLists]]
  | k :: ks, keys, hkeys, hkinds => by
    choose kinds hkinds using hkinds
    have htail := transCmp_compareRows (fun k => ks[k].direction)
      (fun i (k : Fin ks.length) => keys i k.succ) fun i k => hkinds k.succ i
    have hhead := k.direction.transCmp_compare (hkinds 0)
    obtain ⟨w, e, hw, hn', hwe⟩ := orderedBy_elements type span hsource hv hn ks
      (fun i k => keys i k.succ) (fun i k => hkeys i k.succ) fun k => ⟨_, hkinds k.succ⟩
    obtain ⟨w', e', hw', hn'', hwe'⟩ :=
      aggregate_elements host k.direction (fun i => hkeys i 0) (hkinds 0) _ type hn'
    refine ⟨w', e', ?_, hn'', ?_⟩
    · show (Eval.term host (source.orderedBy type span ks) >>= fun w =>
        Eval.ofExcept (w.elements host) >>= fun items => Eval.aggregate k.direction.aggregate items
          (some (Eval.term host k.key.body)) none type) c = _
      rw [Step.bind_apply, hw]
      dsimp only
      rw [hwe]
      exact hw'
    · rw [hwe', stableSort_stableSort]
      congr 3
      funext i j
      rw [compareRows_succ]
      rfl

end Chain

/-- **Ordering by clauses is ordering by aggregates.** When all keys are evaluated, and
those of each clause are null or of one kind, sorting the elements by the clauses comes
to the same list as the aggregates that sort the elements of a source by the bodies of
the clauses, the last one first. The clauses are evaluated where no name is bound, the
aggregates anywhere; the lists among the elements and those that the host tells apart
were made before either. -/
theorem sort_eq_orderedBy (hhost : host.IgnoresNumbers n) {elements : List Value}
    (helements : ∀ v ∈ elements, v.IsBelow n) {clauses : List Clause}
    (hclauses : ∀ k ∈ clauses, k.IsSelector) {c d : EvalContext} (hc : c.environment = [])
    (hn : n ≤ c.nextList) {keys : Fin elements.length → Fin clauses.length → Value}
    (hruns : Runs (keyEvaluations host clauses elements) c
      (List.ofFn fun i => List.ofFn (keys i)).flatten d)
    (hkinds : ∀ k, ∃ kind : KeyKind, ∀ i, kind.Holds (keys i k)) {source : Term}
    {c' d' : EvalContext} {v : Value} (hsource : Eval.term host source c' = (.ok v, d'))
    (hv : v.elements host = .ok elements) (hn' : n ≤ d'.nextList) (type : Ty) (span : Span) :
    ∃ sorted w e, sort host clauses elements c = (.ok sorted, d) ∧
      Eval.term host (source.orderedBy type span clauses) c' = (.ok w, e) ∧
        w.elements host = .ok sorted := by
  have hscalar (i) (k) : ∃ s, keys i k = .scalar s :=
    have ⟨_, hkind⟩ := hkinds k
    (hkind i).scalar
  have hall : elements = (List.finRange elements.length).map (elements[·]) :=
    List.ext_getElem (by simp) (by simp)
  obtain ⟨w, e, hw, -, hwe⟩ := orderedBy_elements type span hsource (hv.trans (congrArg _ hall))
    hn' clauses keys (steady_keys hhost hclauses helements hscalar hc hn hruns) hkinds
  exact ⟨_, w, e, sort_of_keyLists (keyLists_of_runs (by simp) (by simp) hruns), hw, hwe⟩

/-- Texts by their length, descending, and those of one length by themselves. -/
theorem sort_eq_orderedBy_texts :
    let host := Script.empty.host
    let it : Term := .parameter "it" .string ⟨0, 2⟩
    let clauses : List Clause :=
      [⟨⟨[⟨"", .string⟩], .intrinsic .stringLength it [] .int32 ⟨0, 9⟩, .int32, .int32⟩,
        .descending⟩, ⟨⟨[⟨"", .string⟩], it, .string, .string⟩, .ascending⟩]
    let elements : List Value := [.string "b", .string "a", .string "cc"]
    let lengths : List Value := [.int32 1, .int32 1, .int32 2]
    let keys : Fin 3 → Fin 2 → Value := fun
      | i, 0 => lengths[i]
      | i, 1 => elements[i]
    let scope : EvalContext := ⟨[("xs", .list 0 elements)], 1, []⟩
    host.IgnoresNumbers 0 ∧ (∀ v ∈ elements, v.IsBelow 0) ∧ (∀ k ∈ clauses, k.IsSelector) ∧
      Runs (keyEvaluations host clauses elements) (.start 0)
        (List.ofFn fun i => List.ofFn (keys i)).flatten (.start 0) ∧
      (∀ k, ∃ kind : KeyKind, ∀ i, kind.Holds (keys i k)) ∧
      ∃ sorted w e, sort host clauses elements (.start 0) = (.ok sorted, .start 0) ∧
        Eval.term host ((Term.parameter "xs" .string ⟨0, 2⟩).orderedBy .string ⟨0, 2⟩ clauses)
          scope = (.ok w, e) ∧ w.elements host = .ok sorted := by
  intro host it clauses elements lengths keys scope
  have hhost : host.IgnoresNumbers 0 :=
    Script.ignoresNumbers ⟨List.forall_mem_nil _, List.forall_mem_nil _⟩
  have helements : ∀ v ∈ elements, v.IsBelow 0 := by
    simp only [elements, List.forall_mem_cons]
    exact ⟨Value.alike_scalar _, Value.alike_scalar _, Value.alike_scalar _, List.forall_mem_nil _⟩
  have hclauses : ∀ k ∈ clauses, k.IsSelector := by
    simp only [clauses, List.forall_mem_cons]
    exact ⟨⟨rfl, rfl⟩, ⟨rfl, rfl⟩, List.forall_mem_nil _⟩
  have hruns : Runs (keyEvaluations host clauses elements) (.start 0)
      (List.ofFn fun i => List.ofFn (keys i)).flatten (.start 0) := by
    have hlength (s : String) : clauses[0].key.invoke host [.string s] (.start 0) =
        (.ok (.int32 s.length), .start 0) := rfl
    have hself (s : String) : clauses[1].key.invoke host [.string s] (.start 0) =
        (.ok (.string s), .start 0) := rfl
    exact .cons (hlength "b") (.cons (hself "b") (.cons (hlength "a") (.cons (hself "a")
      (.cons (hlength "cc") (.cons (hself "cc") (.nil _))))))
  have hkinds : ∀ k, ∃ kind : KeyKind, ∀ i, kind.Holds (keys i k) := fun
    | 0 => ⟨.number, fun
      | 0 | 1 | 2 => .number rfl⟩
    | 1 => ⟨.text, fun
      | 0 => .text "b"
      | 1 => .text "a"
      | 2 => .text "cc"⟩
  have hsource : Eval.term host (.parameter "xs" .string ⟨0, 2⟩) scope =
      (.ok (.list 0 elements), scope) := rfl
  exact ⟨hhost, helements, hclauses, hruns, hkinds,
    sort_eq_orderedBy hhost helements hclauses rfl (Nat.le_refl _) hruns hkinds hsource rfl
      (Nat.zero_le _) _ _⟩

end Ordering
end QueryExpr
