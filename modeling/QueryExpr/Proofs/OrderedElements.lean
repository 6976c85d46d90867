/-
# Ordered elements

All keys of all elements are evaluated in a row, element after element. If one
of them fails, that is what the ordering comes to. If none does, and the keys of
each clause are of one kind, the elements stand in the order of their keys, and
elements that no clause tells apart keep their order.

Key definitions: `Runs`, `FailsFirst`, `keyEvaluations`, `Precedes`.
Key theorems: `keyLists_of_runs`, `keyLists_of_failsFirst`, `sort_of_keyLists`,
`sort_stable_order`.
-/
import QueryExpr.Proofs.KeyOrder
import QueryExpr.Proofs.StableOrder
import QueryExpr.Proofs.Steps

namespace QueryExpr.Ordering

/-! ### Evaluating the keys -/

/-- Evaluations that succeed one after the other. -/
inductive Runs : List (Eval Value) → EvalContext → List Value → EvalContext → Prop
  | nil (c : EvalContext) : Runs [] c [] c
  | cons {e : Eval Value} {es : List (Eval Value)} {v : Value} {vs : List Value}
      {c c' d : EvalContext} (head : e c = (.ok v, c')) (tail : Runs es c' vs d) :
      Runs (e :: es) c (v :: vs) d

/-- Evaluations of which the first that fails, when those before it have
succeeded, does so with an error. -/
inductive FailsFirst : List (Eval Value) → EvalContext → EvalError → EvalContext → Prop
  | here {e : Eval Value} {es : List (Eval Value)} {c d : EvalContext} {error : EvalError}
      (head : e c = (.error error, d)) : FailsFirst (e :: es) c error d
  | later {e : Eval Value} {es : List (Eval Value)} {v : Value} {c c' d : EvalContext}
      {error : EvalError} (head : e c = (.ok v, c')) (tail : FailsFirst es c' error d) :
      FailsFirst (e :: es) c error d

section Evaluation

variable {es fs : List (Eval Value)} {vs : List Value} {c d : EvalContext} {error : EvalError}

theorem Runs.length_eq (h : Runs es c vs d) : vs.length = es.length := by
  induction h with
  | nil => rfl
  | cons _ _ ih => rw [List.length_cons, ih, List.length_cons]

theorem runs_or_failsFirst : ∀ (es : List (Eval Value)) (c : EvalContext),
    (∃ vs d, Runs es c vs d) ∨ ∃ error d, FailsFirst es c error d
  | [], c => .inl ⟨[], c, .nil c⟩
  | e :: es, c => by
    rcases he : e c with ⟨error | v, c'⟩
    · exact .inr ⟨error, c', .here he⟩
    · rcases runs_or_failsFirst es c' with ⟨vs, d, h⟩ | ⟨error, d, h⟩
      · exact .inl ⟨v :: vs, d, .cons he h⟩
      · exact .inr ⟨error, d, .later he h⟩

theorem runs_append (h : Runs (es ++ fs) c vs d) :
    ∃ us ws c', vs = us ++ ws ∧ Runs es c us c' ∧ Runs fs c' ws d := by
  induction es generalizing c vs with
  | nil => exact ⟨[], vs, c, rfl, .nil c, h⟩
  | cons e es ih =>
    cases h with
    | cons head tail =>
      obtain ⟨us, ws, c', rfl, hes, hfs⟩ := ih tail
      exact ⟨_ :: us, ws, c', rfl, .cons head hes, hfs⟩

theorem failsFirst_append (h : FailsFirst (es ++ fs) c error d) :
    FailsFirst es c error d ∨ ∃ us c', Runs es c us c' ∧ FailsFirst fs c' error d := by
  induction es generalizing c with
  | nil => exact .inr ⟨[], c, .nil c, h⟩
  | cons e es ih =>
    cases h with
    | here head => exact .inl (.here head)
    | later head tail =>
      rcases ih tail with h | ⟨us, c', hes, hfs⟩
      · exact .inl (.later head h)
      · exact .inr ⟨_, c', .cons head hes, hfs⟩

theorem values_of_runs (h : Runs es c vs d) : Eval.values es c = (.ok vs, d) := by
  induction h with
  | nil => rfl
  | cons head _ ih =>
    rw [Eval.values, Step.bind_apply, head]
    dsimp only
    rw [Step.bind_apply, ih]
    rfl

theorem values_of_failsFirst (h : FailsFirst es c error d) :
    Eval.values es c = (.error error, d) := by
  induction h with
  | here head => rw [Eval.values, Step.bind_apply, head]
  | later head _ ih =>
    rw [Eval.values, Step.bind_apply, head]
    dsimp only
    rw [Step.bind_apply, ih]

end Evaluation

/-- The keys of all elements, in the order they are evaluated in. -/
def keyEvaluations (host : Host) (clauses : List Clause) (elements : List Value) :
    List (Eval Value) :=
  elements.flatMap fun v => clauses.map fun k => k.key.invoke host [v]

section Keys

variable {host : Host} {clauses : List Clause} {elements : List Value} {rows : List (List Value)}
  {c d : EvalContext} {error : EvalError}

theorem keyLists_of_runs (hshape : ∀ row ∈ rows, row.length = clauses.length)
    (hlength : rows.length = elements.length)
    (h : Runs (keyEvaluations host clauses elements) c rows.flatten d) :
    keyLists host clauses elements c = (.ok rows, d) := by
  induction elements generalizing rows c with
  | nil =>
    obtain rfl := List.length_eq_zero_iff.mp hlength
    cases h
    rfl
  | cons v elements ih =>
    obtain ⟨row, rows, rfl⟩ := List.exists_cons_of_length_eq_add_one hlength
    obtain ⟨us, ws, c', heq, hrow, hrest⟩ := runs_append h
    have hus : us.length = row.length := by
      rw [hrow.length_eq, List.length_map, hshape row (.head _)]
    obtain ⟨rfl, rfl⟩ := List.append_inj heq hus.symm
    rw [keyLists, Step.bind_apply, keyList, values_of_runs hrow]
    dsimp only
    rw [Step.bind_apply, ih (fun r hr => hshape r (.tail _ hr)) (Nat.succ.inj hlength) hrest]
    rfl

theorem keyLists_of_failsFirst (h : FailsFirst (keyEvaluations host clauses elements) c error d) :
    keyLists host clauses elements c = (.error error, d) := by
  induction elements generalizing c with
  | nil => cases h
  | cons v elements ih =>
    rw [keyLists, Step.bind_apply, keyList]
    rcases failsFirst_append h with hrow | ⟨us, c', hrow, hrest⟩
    · rw [values_of_failsFirst hrow]
    · rw [values_of_runs hrow]
      dsimp only
      rw [Step.bind_apply, ih hrest]

/-- Keys that are evaluated come in rows, one for each element. -/
theorem rows_of_runs {vs : List Value} (h : Runs (keyEvaluations host clauses elements) c vs d) :
    ∃ keys : Fin elements.length → Fin clauses.length → Value,
      vs = (List.ofFn fun i => List.ofFn (keys i)).flatten := by
  induction elements generalizing vs c with
  | nil =>
    cases h
    exact ⟨fun i => i.elim0, rfl⟩
  | cons v elements ih =>
    obtain ⟨us, ws, c', rfl, hrow, hrest⟩ := runs_append h
    obtain ⟨keys, rfl⟩ := ih hrest
    have hus : us.length = clauses.length := by rw [hrow.length_eq, List.length_map]
    refine ⟨Fin.cons (fun k => us[k]) keys, ?_⟩
    have hrow : (List.ofFn fun k : Fin clauses.length => us[k]) = us :=
      List.ext_getElem (by simp [hus]) (by simp)
    simp only [List.length_cons, List.ofFn_succ, Fin.cons_zero, Fin.cons_succ, List.flatten_cons,
      hrow]

end Keys

/-! ### The sorted elements -/

section Sorting

variable {host : Host} {clauses : List Clause} {elements : List Value} {c d : EvalContext}
  {error : EvalError}

/-- An element goes before another one: by its keys, or, if no clause tells them
apart, by its place. -/
def Precedes (clauses : List Clause) {n : Nat} (keys : Fin n → Fin clauses.length → Value)
    (i j : Fin n) : Prop :=
  RowBefore (fun k => clauses[k].direction) (keys i) (keys j) ∨
    (∀ k, (keys i k).Ties (keys j k)) ∧ i < j

theorem sort_of_keyLists {keys : Fin elements.length → Fin clauses.length → Value}
    (h : keyLists host clauses elements c = (.ok (List.ofFn fun i => List.ofFn (keys i)), d)) :
    sort host clauses elements c =
      (.ok ((stableSort (fun i j => compareRows (fun k => clauses[k].direction) (keys i) (keys j))
        (List.finRange elements.length)).map (elements[·])), d) := by
  have hdirections : clauses.map (·.direction) = List.ofFn fun k => clauses[k].direction :=
    List.ext_getElem (by simp) (by simp)
  have hzip : (List.ofFn fun i => List.ofFn (keys i)).zip elements =
      (List.finRange elements.length).map fun i => (List.ofFn (keys i), elements[i]) :=
    List.ext_getElem (by simp) (by simp)
  rw [sort, Step.bind_apply, h]
  show (Except.ok (List.map _ (stableSort _ _)), d) = _
  rw [hzip, stableSort_map, List.map_map, hdirections]
  rfl

/-- **Ordering is a stable sort by several keys.** When all keys are evaluated,
and those of each clause are null or of one kind, the elements are rearranged so
that each goes before those behind it: by the first clause that tells the two
apart, in the direction of that clause, and by their places if none does. When a
key fails, the first that does, element after element, settles what the ordering
comes to. One of the two is always the case. -/
theorem sort_stable_order (host : Host) (clauses : List Clause) (elements : List Value)
    (c : EvalContext) :
    (∀ (keys : Fin elements.length → Fin clauses.length → Value) (d : EvalContext),
      Runs (keyEvaluations host clauses elements) c
          (List.ofFn fun i => List.ofFn (keys i)).flatten d →
        (∀ k, ∃ kind : KeyKind, ∀ i, kind.Holds (keys i k)) →
          ∃ order : List (Fin elements.length),
            order.Perm (List.finRange elements.length) ∧ order.Pairwise (Precedes clauses keys) ∧
              sort host clauses elements c = (.ok (order.map (elements[·])), d)) ∧
    (∀ error d, FailsFirst (keyEvaluations host clauses elements) c error d →
      sort host clauses elements c = (.error error, d)) ∧
    ((∃ (keys : Fin elements.length → Fin clauses.length → Value) (d : EvalContext),
        Runs (keyEvaluations host clauses elements) c
          (List.ofFn fun i => List.ofFn (keys i)).flatten d) ∨
      ∃ error d, FailsFirst (keyEvaluations host clauses elements) c error d) := by
  refine ⟨fun keys d hruns hkinds => ?_, fun error d hfails => ?_, ?_⟩
  · choose kinds hkinds using hkinds
    have hkeys : ∀ i k, (kinds k).Holds (keys i k) := fun i k => hkinds k i
    have hcmp := transCmp_compareRows (fun k => clauses[k].direction) keys hkeys
    refine ⟨_, stableSort_perm _ _, ?_, sort_of_keyLists (keyLists_of_runs ?_ ?_ hruns)⟩
    · refine (stableSort_pairwise (List.pairwise_lt_finRange _)).imp fun {i j} h => ?_
      exact h.imp (compareRows_lt_iff (hkeys i) (hkeys j)).mp
        (And.imp_left (compareRows_eq_iff (hkeys i) (hkeys j)).mp)
    · simp
    · simp
  · rw [sort, Step.bind_apply, keyLists_of_failsFirst hfails]
  · rcases runs_or_failsFirst (keyEvaluations host clauses elements) c with ⟨vs, d, h⟩ | h
    · obtain ⟨keys, rfl⟩ := rows_of_runs h
      exact .inl ⟨keys, d, h⟩
    · exact .inr h

/-- Truth values and null by themselves, descending; and by a name that nothing
is bound to. -/
theorem sort_stable_order_flags :
    let host : Host := ⟨fun _ _ _ => none, fun _ _ _ _ => .error .divideByZero,
      fun _ _ _ => .error .divideByZero, fun _ _ => none, fun _ _ => .error .divideByZero⟩
    let clausesBy (n : String) : List Clause :=
      [⟨⟨[⟨"", .boolean⟩], .parameter n .boolean ⟨0, 2⟩, .boolean, .boolean⟩, .descending⟩]
    let elements : List Value := [.null, .boolean false, .boolean true]
    let keys : Fin 3 → Fin 1 → Value := fun i _ => elements[i]
    Runs (keyEvaluations host (clausesBy "it") elements) (.start 0)
        (List.ofFn fun i => List.ofFn (keys i)).flatten (.start 0) ∧
      (∀ k, ∃ kind : KeyKind, ∀ i, kind.Holds (keys i k)) ∧
      (∃ order : List (Fin 3), order.Perm (List.finRange 3) ∧
        order.Pairwise (Precedes (clausesBy "it") keys) ∧
          sort host (clausesBy "it") elements (.start 0) =
            (.ok (order.map (elements[·])), .start 0)) ∧
      ∃ error,
        FailsFirst (keyEvaluations host (clausesBy "xs") elements) (.start 0) error (.start 0) ∧
        sort host (clausesBy "xs") elements (.start 0) = (.error error, .start 0) := by
  intro host clausesBy elements keys
  have hruns : Runs (keyEvaluations host (clausesBy "it") elements) (.start 0)
      (List.ofFn fun i => List.ofFn (keys i)).flatten (.start 0) :=
    .cons rfl (.cons rfl (.cons rfl (.nil _)))
  have hkinds : ∀ k, ∃ kind : KeyKind, ∀ i, kind.Holds (keys i k) := fun _ =>
    ⟨.truth, fun
      | 0 => .null _
      | 1 => .truth false
      | 2 => .truth true⟩
  have hfails : FailsFirst (keyEvaluations host (clausesBy "xs") elements) (.start 0)
      (.unboundParameter "xs") (.start 0) := .here rfl
  exact ⟨hruns, hkinds,
    (sort_stable_order host (clausesBy "it") elements (.start 0)).1 keys _ hruns hkinds, _, hfails,
    (sort_stable_order host (clausesBy "xs") elements (.start 0)).2.1 _ _ hfails⟩

end Sorting

end QueryExpr.Ordering
