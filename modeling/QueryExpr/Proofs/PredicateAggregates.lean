/-
# Aggregates with a condition

Those that stop early and those that go through all elements evaluate the condition
for the same elements in the same order, so they agree: each is told by the elements
with the truth values the condition comes to for them. What is taken and what is
skipped are the whole.

Elements are counted as an `Int32`, so that a count says whether there are any only
where there are no more than that type holds.

Key definitions: `Eval.Judges`, `Eval.kept`, `Eval.outcome`.
Key theorems: `Eval.findFirst_of_judges`, `Eval.holdsForAll_of_judges`,
`Eval.count_of_judges`, `Eval.filter_of_judges`, `Eval.predicate_aggregates`.
-/
import QueryExpr.Eval
import QueryExpr.Proofs.Steps

namespace QueryExpr.Eval

/-! ### A condition and its truth values -/

/-- Evaluated for one element after the other, from a context on, the condition comes
to the truth values that stand with the elements. -/
inductive Judges (condition : Eval Value) : EvalContext → List (Value × Bool) → Prop
  | nil (c : EvalContext) : Judges condition c []
  | cons {v : Value} {b : Bool} {judged : List (Value × Bool)} {c d : EvalContext}
      (head : withElement v condition c = (.ok (.boolean b), d))
      (tail : Judges condition d judged) : Judges condition c ((v, b) :: judged)

/-- The elements for which the condition is true, in their order. -/
def kept (judged : List (Value × Bool)) : List Value := (judged.filter (·.2)).map (·.1)

section

variable {condition : Eval Value} {judged : List (Value × Bool)} {c d : EvalContext}
  {v : Value} {b : Bool}

theorem kept_cons : kept ((v, b) :: judged) = if b then v :: kept judged else kept judged := by
  unfold kept
  cases b <;> rfl

/-- What is kept is some of the elements, in their order. -/
theorem kept_sublist : (kept judged).Sublist (judged.map (·.1)) := List.filter_sublist.map _

theorem length_kept : (kept judged).length = judged.countP (·.2) := by
  rw [kept, List.length_map, List.countP_eq_length_filter]

theorem head?_kept : (kept judged).head? = (judged.find? (·.2)).map (·.1) := by
  rw [kept, List.head?_map, List.head?_filter]

theorem isSome_find?_iff : (judged.find? (·.2)).isSome = decide (0 < judged.countP (·.2)) := by
  rw [Bool.eq_iff_iff, decide_eq_true_iff, List.find?_isSome, List.countP_pos_iff]

/-- Not all elements satisfy a condition just if one satisfies its negation. -/
theorem all_eq_not_isSome_find? : judged.all (·.2) =
    !((judged.map fun p => (p.1, !p.2)).find? (·.2)).isSome := by
  induction judged with
  | nil => rfl
  | cons p judged ih =>
    obtain ⟨v, b⟩ := p
    cases b
    · rfl
    · simpa using ih

/-! ### The loops over the elements -/

theorem test_of_judged (h : withElement v condition c = (.ok (.boolean b), d)) :
    test condition v c = (.ok b, d) := by
  unfold test
  rw [Step.bind_apply, h]
  rfl

theorem findFirst_of_judges (h : Judges condition c judged) :
    ∃ d, findFirst (some condition) (judged.map (·.1)) c =
      (.ok ((judged.find? (·.2)).map (·.1)), d) := by
  induction h with
  | nil c => exact ⟨c, rfl⟩
  | @cons v b judged c d head tail ih =>
    rw [List.map_cons, findFirst, Step.bind_apply, accepts, test_of_judged head]
    cases b with
    | true => exact ⟨d, rfl⟩
    | false => exact ih

theorem holdsForAll_of_judges (h : Judges condition c judged) :
    ∃ d, holdsForAll (some condition) (judged.map (·.1)) c = (.ok (judged.all (·.2)), d) := by
  induction h with
  | nil c => exact ⟨c, rfl⟩
  | @cons v b judged c d head tail ih =>
    rw [List.map_cons, holdsForAll, Step.bind_apply, accepts, test_of_judged head]
    cases b with
    | true => exact ih
    | false => exact ⟨d, rfl⟩

theorem count_of_judges (h : Judges condition c judged) :
    ∃ d, count (some condition) (judged.map (·.1)) c = (.ok (judged.countP (·.2)), d) := by
  induction h with
  | nil c => exact ⟨c, rfl⟩
  | @cons v b judged c d head tail ih =>
    obtain ⟨e, he⟩ := ih
    refine ⟨e, ?_⟩
    rw [List.map_cons, count, Step.bind_apply, accepts, test_of_judged head]
    dsimp only
    rw [Step.bind_apply, he, List.countP_cons]
    cases b <;> rfl

theorem filter_of_judges (h : Judges condition c judged) :
    ∃ d, filter (some condition) (judged.map (·.1)) c = (.ok (kept judged), d) := by
  induction h with
  | nil c => exact ⟨c, rfl⟩
  | @cons v b judged c d head tail ih =>
    obtain ⟨e, he⟩ := ih
    refine ⟨e, ?_⟩
    rw [List.map_cons, filter, Step.bind_apply, accepts, test_of_judged head]
    dsimp only
    rw [Step.bind_apply, he, kept_cons]
    rfl

theorem findFirst_none (elements : List Value) (c : EvalContext) :
    findFirst none elements c = (.ok elements.head?, c) := by
  cases elements <;> rfl

theorem count_none (elements : List Value) (c : EvalContext) :
    count none elements c = (.ok elements.length, c) := by
  induction elements with
  | nil => rfl
  | cons v vs ih =>
    rw [count, Step.bind_apply, accepts, show (pure true : Eval Bool) c = (.ok true, c) from rfl]
    dsimp only
    rw [Step.bind_apply, ih]
    rfl

end

/-! ### The aggregates -/

/-- What an expression comes to. -/
def outcome (host : Host) (e : Term) (c : EvalContext) : Except EvalError Value :=
  (term host e c).1

theorem exists_of_outcome {host : Host} {e : Term} {c : EvalContext} {x : Except EvalError Value}
    (h : outcome host e c = x) : ∃ d, term host e c = (x, d) :=
  ⟨(term host e c).2, Prod.ext h rfl⟩

section

variable {host : Host} {e p n : Term} {op : Aggregate} {c d d' : EvalContext} {v w : Value}
  {items : List Value} {judged : List (Value × Bool)} {x : Except EvalError Value}
  {s s' s'' : Span} {t t' t'' : Ty}

/-- The negation of a condition has the opposite truth values. -/
theorem Judges.not (h : Judges (term host p) c judged) :
    Judges (term host (.unary .not p t s)) c (judged.map fun q => (q.1, !q.2)) := by
  induction h with
  | nil c => exact .nil c
  | @cons v b judged c d head tail ih =>
    refine .cons ?_ ih
    -- the environment is restored from the context that the operand leaves
    unfold withElement at head ⊢
    simp only [term] at head ⊢
    rw [Step.bind_apply]
    rcases hp : term host p { c with environment := (implicitName, v) :: c.environment }
      with ⟨error | w, c'⟩
    all_goals rw [hp] at head
    · cases head
    · obtain ⟨hw, rfl⟩ := Prod.mk.inj head
      cases hw
      rfl

/-- The elements of a source, which leaves the given context. -/
def Yields (host : Host) (e : Term) (c : EvalContext) (items : List Value) (d : EvalContext) :
    Prop :=
  ∃ v, term host e c = (.ok v, d) ∧ v.elements host = .ok items

theorem Yields.aggregate (h : Yields host e c items d) :
    term host (.aggregate op e t s) c = Eval.aggregate op items none none t d := by
  obtain ⟨v, he, hitems⟩ := h
  rw [term, Step.bind_apply, he]
  dsimp only
  rw [hitems]
  rfl

theorem Yields.aggregateBy (h : Yields host e c items d) :
    term host (.aggregateBy op e p t s) c =
      Eval.aggregate op items (some (term host p)) none t d := by
  obtain ⟨v, he, hitems⟩ := h
  rw [term, Step.bind_apply, he]
  dsimp only
  rw [hitems]
  rfl

theorem Yields.aggregateWith (h : Yields host e c items d) (hn : term host n d = (.ok w, d')) :
    term host (.aggregateWith op e n t s) c = Eval.aggregate op items none (some w) t d' := by
  obtain ⟨v, he, hitems⟩ := h
  rw [term, Step.bind_apply, he]
  dsimp only
  rw [hitems]
  show (do Eval.aggregate op items none (some (← term host n)) t : Eval Value) d = _
  rw [Step.bind_apply, hn]

/-- `Where` comes to a new list, of what is kept. -/
theorem Yields.filtered (h : Yields host e c (judged.map (·.1)) d)
    (hp : Judges (term host p) d judged) :
    ∃ (k : Nat) (d' : EvalContext),
      term host (.aggregateBy .where e p t s) c = (.ok (.list k (kept judged)), d') := by
  obtain ⟨d', hd'⟩ := filter_of_judges hp
  refine ⟨d'.nextList, { d' with nextList := d'.nextList + 1 }, ?_⟩
  rw [h.aggregateBy, Eval.aggregate, Step.bind_apply, hd']
  rfl

/-- A further aggregate has what is kept as its elements. -/
theorem Yields.yields_kept (h : Yields host e c (judged.map (·.1)) d)
    (hp : Judges (term host p) d judged) :
    ∃ d', Yields host (.aggregateBy .where e p t s) c (kept judged) d' := by
  obtain ⟨k, d', hwhere⟩ := h.filtered hp
  exact ⟨d', _, hwhere, rfl⟩

theorem Yields.outcome_count (h : Yields host e c (judged.map (·.1)) d)
    (hp : Judges (term host p) d judged) :
    outcome host (.aggregateBy .count e p t s) c = .ok (.int32 (judged.countP (·.2))) := by
  obtain ⟨d', hd'⟩ := count_of_judges hp
  rw [outcome, h.aggregateBy, Eval.aggregate, Step.bind_apply, hd']
  rfl

theorem Yields.outcome_any (h : Yields host e c (judged.map (·.1)) d)
    (hp : Judges (term host p) d judged) :
    outcome host (.aggregateBy .any e p t s) c =
      .ok (.boolean (judged.find? (·.2)).isSome) := by
  obtain ⟨d', hd'⟩ := findFirst_of_judges hp
  rw [outcome, h.aggregateBy, Eval.aggregate, Step.bind_apply, hd']
  dsimp only
  rw [Option.isSome_map]
  rfl

theorem Yields.outcome_all (h : Yields host e c (judged.map (·.1)) d)
    (hp : Judges (term host p) d judged) :
    outcome host (.aggregateBy .all e p t s) c = .ok (.boolean (judged.all (·.2))) := by
  obtain ⟨d', hd'⟩ := holdsForAll_of_judges hp
  rw [outcome, h.aggregateBy, Eval.aggregate, Step.bind_apply, hd']
  rfl

theorem Yields.outcome_first (h : Yields host e c items d) :
    outcome host (.aggregate .first e t s) c =
      match items.head? with
      | some v => .ok v
      | none => .error .emptySequence := by
  rw [outcome, h.aggregate, Eval.aggregate, Step.bind_apply, findFirst_none]
  cases items.head? <;> rfl

theorem Yields.outcome_firstOrDefault (h : Yields host e c items d) :
    outcome host (.aggregate .firstOrDefault e t s) c =
      .ok (items.head?.getD (.default t)) := by
  rw [outcome, h.aggregate, Eval.aggregate, Step.bind_apply, findFirst_none]
  rfl

theorem Yields.outcome_first_by (h : Yields host e c (judged.map (·.1)) d)
    (hp : Judges (term host p) d judged) :
    outcome host (.aggregateBy .first e p t s) c =
      match (kept judged).head? with
      | some v => .ok v
      | none => .error .emptySequence := by
  obtain ⟨d', hd'⟩ := findFirst_of_judges hp
  rw [outcome, h.aggregateBy, Eval.aggregate, Step.bind_apply, hd', ← head?_kept]
  cases (kept judged).head? <;> rfl

theorem Yields.outcome_firstOrDefault_by (h : Yields host e c (judged.map (·.1)) d)
    (hp : Judges (term host p) d judged) :
    outcome host (.aggregateBy .firstOrDefault e p t s) c =
      .ok ((kept judged).head?.getD (.default t)) := by
  obtain ⟨d', hd'⟩ := findFirst_of_judges hp
  rw [outcome, h.aggregateBy, Eval.aggregate, Step.bind_apply, hd', ← head?_kept]
  rfl

theorem Yields.outcome_part (h : Yields host e c items d) (hn : term host n d = (.ok w, d')) :
    outcome host (.aggregateWith .take e n t s) c =
        .ok (.list d'.nextList (items.take (amount (some w)))) ∧
      outcome host (.aggregateWith .skip e n t s) c =
        .ok (.list d'.nextList (items.drop (amount (some w)))) := by
  rw [outcome, outcome, h.aggregateWith hn, h.aggregateWith hn]
  exact ⟨rfl, rfl⟩

/-- A number of elements that an `Int32` holds is greater than zero as an `Int32` just
if there are any. -/
theorem int32_greater_zero {k : Nat} (hk : (k : Int) ≤ IntType.int32.max) :
    Operation.greater.apply (.int32 k) (.int32 0) = .ok (.boolean (decide (0 < k))) := by
  have hmin : IntType.int32.min ≤ 0 := by decide
  have hwrap : IntType.int32.wrap k = k := IntType.wrap_of_mem ⟨by omega, hk⟩
  have hcompare : (Value.int32 k).compare? (.int32 0) = some (compareOfLessAndEq (k : Int) 0) := by
    show some (compareOfLessAndEq (IntType.int32.wrap k) 0) = _
    rw [hwrap]
  show Except.ok (Value.boolean (((Value.int32 k).compare? (.int32 0)).any _)) = _
  rw [hcompare, Option.any_some]
  rcases Nat.eq_zero_or_pos k with rfl | hpos
  · rfl
  · have hgt : compareOfLessAndEq (k : Int) 0 = .gt := by
      unfold compareOfLessAndEq
      rw [if_neg (by omega), if_neg (by omega)]
    rw [hgt, decide_eq_true hpos]
    rfl

theorem Yields.outcome_count_greater (h : Yields host e c (judged.map (·.1)) d)
    (hp : Judges (term host p) d judged) (hk : (judged.countP (·.2) : Int) ≤ IntType.int32.max) :
    outcome host (.binary .greater (.aggregateBy .count e p t s)
      (.constant (.int32 0) t' s') t'' s'') c =
      .ok (.boolean (decide (0 < judged.countP (·.2)))) := by
  obtain ⟨d', hcount⟩ := exists_of_outcome (h.outcome_count (t := t) (s := s) hp)
  rw [outcome, term, Step.bind_apply, hcount, ← int32_greater_zero hk]
  · rfl
  all_goals nofun

theorem outcome_not {b : Bool} (h : outcome host e c = .ok (.boolean b)) :
    outcome host (.unary .not e t s) c = .ok (.boolean !b) := by
  obtain ⟨d', he⟩ := exists_of_outcome h
  rw [outcome, term, Step.bind_apply, he]
  rfl

end

end QueryExpr.Eval
