/-
# Evaluations that come to the same

Two evaluations come to the same, the one in an environment and the other in
another, if they yield the same, number the same lists, ask the same of the
host, whatever either has asked before, and leave their environments in place.
What does not look at the environment is still: it comes to the same in any
two. What is put together from evaluations of the same comes to the same,
aggregates included, whose bodies are evaluated with the current element as
the innermost binding.

Key definitions: `Eval.Same`, `Eval.Still`.
Key theorems: `Eval.Same.bind`, `Eval.Same.withElement`,
`Eval.same_aggregate`.
-/
import Mathlib.Data.List.Forall2
import QueryExpr.Eval
import QueryExpr.Proofs.Steps

namespace QueryExpr.Eval

variable {α β : Type} {env env' : Environment} {m m' : Eval α} {f f' : α → Eval β}

/-- The first does in the first environment what the second does in the second
one, whatever they have asked before, and both leave their environments as they
are. -/
def Same (env env' : Environment) (m m' : Eval α) : Prop :=
  ∀ (n : Nat) (past past' : List Event),
    ∃ (r : Except EvalError α) (next : Nat) (asked : List Event),
      m ⟨env, n, past⟩ = (r, ⟨env, next, past ++ asked⟩) ∧
        m' ⟨env', n, past'⟩ = (r, ⟨env', next, past' ++ asked⟩)

/-- The evaluation does not look at the environment. -/
def Still (m : Eval α) : Prop := ∀ env env', Same env env' m m

/-- Evaluations that leave the whole context as it is. -/
theorem same_of_unmoved {r : Except EvalError α}
    (h : ∀ n past, m ⟨env, n, past⟩ = (r, ⟨env, n, past⟩))
    (h' : ∀ n past, m' ⟨env', n, past⟩ = (r, ⟨env', n, past⟩)) : Same env env' m m' := by
  intro n past past'
  refine ⟨r, n, [], ?_, ?_⟩
  · rw [List.append_nil, h]
  · rw [List.append_nil, h']

theorem still_pure (x : α) : Still (pure x : Eval α) :=
  fun _ _ => same_of_unmoved (fun _ _ => rfl) fun _ _ => rfl

theorem still_throw (e : EvalError) : Still (throw e : Eval α) :=
  fun _ _ => same_of_unmoved (fun _ _ => rfl) fun _ _ => rfl

theorem still_ofExcept (x : Except EvalError α) : Still (ofExcept x) := by
  cases x with
  | ok x => exact still_pure x
  | error e => exact still_throw e

theorem still_newList (items : List Value) : Still (newList items) :=
  fun _ _ n past past' => ⟨.ok (.list n items), n + 1, [], by rw [List.append_nil]; rfl,
    by rw [List.append_nil]; rfl⟩

theorem still_ask (event : Event) (answer : Except EvalError Value) : Still (ask event answer) :=
  fun _ _ n _ _ => ⟨answer, n, [event], rfl, rfl⟩

/-- What a name is bound to. -/
theorem lookup_apply (name : String) (c : EvalContext) :
    lookup name c = (match c.environment.lookup name with
      | some v => .ok v
      | none => .error (.unboundParameter name), c) := by
  unfold lookup
  rw [Step.bind_apply]
  show (match c.environment.lookup name with
    | some v => pure v
    | none => throw (.unboundParameter name) : Eval Value) c = _
  cases c.environment.lookup name <;> rfl

theorem same_lookup (name : String) (env : Environment) :
    Same env env (lookup name) (lookup name) := by
  have h (n : Nat) (past : List Event) : lookup name ⟨env, n, past⟩ =
      (match env.lookup name with
        | some v => .ok v
        | none => .error (.unboundParameter name), ⟨env, n, past⟩) := lookup_apply name _
  exact same_of_unmoved h h

theorem Same.bind (hm : Same env env' m m') (hf : ∀ x, Same env env' (f x) (f' x)) :
    Same env env' (m >>= f) (m' >>= f') := by
  intro n past past'
  obtain ⟨r, next, asked, h, h'⟩ := hm n past past'
  rw [Step.bind_apply, Step.bind_apply, h, h']
  cases r with
  | error e => exact ⟨.error e, next, asked, rfl, rfl⟩
  | ok x =>
    obtain ⟨r, last, more, h, h'⟩ := hf x next (past ++ asked) (past' ++ asked)
    refine ⟨r, last, asked ++ more, ?_, ?_⟩
    · rw [← List.append_assoc]
      exact h
    · rw [← List.append_assoc]
      exact h'

/-- What follows may settle what an evaluation comes to. -/
theorem Same.then (hm : Same env env' m m') (hf : ∀ x, Still (f x)) :
    Same env env' (m >>= f) (m' >>= f) := hm.bind fun x => hf x env env'

theorem Same.ite {p : Prop} [Decidable p] {n n' : Eval α} (h : Same env env' m m')
    (h' : Same env env' n n') : Same env env' (if p then m else n) (if p then m' else n') := by
  split
  · exact h
  · exact h'

/-- What comes to the same in every environment is the same. -/
theorem Same.eq (h : ∀ env, Same env env m m') : m = m' := by
  funext c
  obtain ⟨r, next, asked, h, h'⟩ := h c.environment c.nextList c.events c.events
  exact h.trans h'.symm

/-- What comes to the same in its own environment leaves it as it is. -/
theorem Same.environment (h : ∀ env, Same env env m m) (c : EvalContext) :
    (m c).2.environment = c.environment := by
  obtain ⟨r, next, asked, hm, -⟩ := h c.environment c.nextList c.events []
  rw [show m c = _ from hm]

/-- Further bindings are taken out again. -/
theorem Same.withBindings_left {bindings : Environment}
    (h : Same (bindings.reverse ++ env) env' m m') :
    Same env env' (withBindings bindings m) m' := by
  intro n past past'
  obtain ⟨r, next, asked, h, h'⟩ := h n past past'
  refine ⟨r, next, asked, ?_, h'⟩
  simp [withBindings, h]

theorem Same.withBindings_right {bindings : Environment}
    (h : Same env (bindings.reverse ++ env') m m') :
    Same env env' m (withBindings bindings m') := by
  intro n past past'
  obtain ⟨r, next, asked, h, h'⟩ := h n past past'
  refine ⟨r, next, asked, h, ?_⟩
  simp [withBindings, h']

theorem Same.withElement {v : Value}
    (h : Same ((implicitName, v) :: env) ((implicitName, v) :: env') m m') :
    Same env env' (withElement v m) (withElement v m') := by
  intro n past past'
  obtain ⟨r, next, asked, h, h'⟩ := h n past past'
  exact ⟨r, next, asked, by simp [Eval.withElement, h], by simp [Eval.withElement, h']⟩

/-- To bind an element is to bind a single name. -/
theorem withBindings_singleton (h : ∀ env, Same env env m m) (v : Value) :
    withBindings [(implicitName, v)] m = withElement v m := by
  refine Same.eq fun env => Same.withBindings_left ?_
  intro n past past'
  obtain ⟨r, next, asked, hm, hm'⟩ := h ((implicitName, v) :: env) n past past'
  exact ⟨r, next, asked, hm, by simp [withElement, hm']⟩

/-! ### Access -/

theorem still_index (host : Host) (v : Value) (vs : List Value) : Still (index host v vs) := by
  unfold index
  split
  · exact still_ofExcept _
  · exact still_ofExcept _
  · exact still_ask _ _
  · split <;> exact still_throw _

theorem still_call (host : Host) (v : Value) (n : String) (vs : List Value) :
    Still (call host v n vs) := by
  unfold call
  split
  · exact still_ask _ _
  · split <;> exact still_throw _

theorem still_invoke (host : Host) (v : Value) (vs : List Value) : Still (invoke host v vs) := by
  unfold invoke
  split
  · exact still_ask _ _
  · split <;> exact still_throw _

/-! ### The order of evaluation -/

theorem same_values {ms ms' : List (Eval Value)} (h : List.Forall₂ (Same env env') ms ms') :
    Same env env' (values ms) (values ms') := by
  induction h with
  | nil => exact still_pure _ _ _
  | cons hm _ ih => exact hm.bind fun v => ih.then fun vs => still_pure _

/-- Bindings that are made for several evaluations in a row might as well be made for
each of them. -/
theorem withBindings_values {bindings : Environment} {ms : List (Eval Value)}
    {g : List Value → Eval β} (hms : ∀ m ∈ ms, ∀ env, Same env env m m) (hg : ∀ vs, Still (g vs)) :
    withBindings bindings (values ms >>= g) =
      values (ms.map (withBindings bindings)) >>= g := by
  refine Same.eq fun env => Same.withBindings_left ?_
  refine (same_values ?_).then hg
  refine List.forall₂_map_right_iff.mpr (List.forall₂_same.mpr fun m hm => ?_)
  exact Same.withBindings_right (hms m hm _)

theorem same_conjunction {l l' r r' : Eval Value} (hl : Same env env' l l')
    (hr : Same env env' r r') :
    Same env env' (conjunction l r) (conjunction l' r') := by
  refine hl.bind fun v => ?_
  split
  · exact still_pure _ _ _
  · refine hr.then fun w => ?_
    split
    · exact still_pure _
    · split <;> exact still_pure _

theorem same_disjunction {l l' r r' : Eval Value} (hl : Same env env' l l')
    (hr : Same env env' r r') :
    Same env env' (disjunction l r) (disjunction l' r') := by
  refine hl.bind fun v => ?_
  split
  · exact still_pure _ _ _
  · refine hr.then fun w => ?_
    split
    · exact still_pure _
    · split <;> exact still_pure _

theorem same_conditional {c c' a a' b b' : Eval Value} (hc : Same env env' c c')
    (ha : Same env env' a a') (hb : Same env env' b b') :
    Same env env' (conditional c a b) (conditional c' a' b') := by
  refine hc.bind fun v => ?_
  split
  · exact ha
  · exact hb
  · split <;> exact still_throw _ _ _

theorem same_coalesce {l l' r r' : Eval Value} (hl : Same env env' l l') (hr : Same env env' r r') :
    Same env env' (coalesce l r) (coalesce l' r') :=
  hl.bind fun _ => hr.ite (still_pure _ _ _)

theorem same_isAmong (v : Value) {ms ms' : List (Eval Value)}
    (h : List.Forall₂ (Same env env') ms ms') : Same env env' (isAmong v ms) (isAmong v ms') := by
  induction h with
  | nil => exact still_pure _ _ _
  | cons hm _ ih =>
    refine hm.bind fun w => ?_
    split
    · exact still_pure _ _ _
    · exact ih

/-! ### Aggregates -/

/-- The bodies of two aggregates come to the same for every element. -/
def SameBody (env env' : Environment) (body body' : Option (Eval Value)) : Prop :=
  match body, body' with
  | none, none => True
  | some m, some m' =>
    ∀ v, Same ((implicitName, v) :: env) ((implicitName, v) :: env') m m'
  | _, _ => False

theorem sameBody_none : SameBody env env' none none := trivial

theorem sameBody_some {m m' : Eval Value}
    (h : ∀ v, Same ((implicitName, v) :: env) ((implicitName, v) :: env') m m') :
    SameBody env env' (some m) (some m') := h

variable {body body' : Option (Eval Value)}

theorem same_accepts (h : SameBody env env' body body') (v : Value) :
    Same env env' (accepts body v) (accepts body' v) := by
  unfold SameBody at h
  split at h
  · exact still_pure _ _ _
  · refine (h v).withElement.then fun w => ?_
    split
    · exact still_pure _
    · exact still_throw _
  · exact h.elim

theorem same_findFirst (h : SameBody env env' body body') : ∀ vs : List Value,
    Same env env' (findFirst body vs) (findFirst body' vs)
  | [] => still_pure _ _ _
  | v :: vs => (same_accepts h v).bind fun b => by
    split
    · exact still_pure _ _ _
    · exact same_findFirst h vs

theorem same_holdsForAll (h : SameBody env env' body body') : ∀ vs : List Value,
    Same env env' (holdsForAll body vs) (holdsForAll body' vs)
  | [] => still_pure _ _ _
  | v :: vs => (same_accepts h v).bind fun _ =>
    (same_holdsForAll h vs).ite (still_pure _ _ _)

theorem same_count (h : SameBody env env' body body') : ∀ vs : List Value,
    Same env env' (count body vs) (count body' vs)
  | [] => still_pure _ _ _
  | v :: vs => (same_accepts h v).bind fun _ => (same_count h vs).then fun _ => still_pure _

theorem same_filter (h : SameBody env env' body body') : ∀ vs : List Value,
    Same env env' (filter body vs) (filter body' vs)
  | [] => still_pure _ _ _
  | v :: vs => (same_accepts h v).bind fun _ => (same_filter h vs).then fun _ => still_pure _

theorem same_select (h : SameBody env env' body body') (vs : List Value) :
    Same env env' (select body vs) (select body' vs) := by
  unfold SameBody at h
  split at h
  · cases vs <;> exact still_pure _ _ _
  · rename_i m m'
    induction vs with
    | nil => exact still_pure _ _ _
    | cons v vs ih => exact (h v).withElement.bind fun w => ih.then fun ws => still_pure _
  · exact h.elim

/-- **Aggregates come to the same if their bodies do.** -/
theorem same_aggregate (h : SameBody env env' body body') (op : Aggregate) (vs : List Value)
    (argument : Option Value) (type : Ty) :
    Same env env' (aggregate op vs body argument type) (aggregate op vs body' argument type) := by
  cases op with
  | any => exact (same_findFirst h vs).then fun _ => still_pure _
  | all => exact (same_holdsForAll h vs).then fun _ => still_pure _
  | count => exact (same_count h vs).then fun _ => still_pure _
  | sum | average | min | max => exact (same_select h vs).then fun _ => still_ofExcept _
  | «where» => exact (same_filter h vs).then fun _ => still_newList _
  | select | orderBy | orderByDescending => exact (same_select h vs).then fun _ => still_newList _
  | first =>
    refine (same_findFirst h vs).then fun v? => ?_
    split
    · exact still_pure _
    · exact still_throw _
  | firstOrDefault => exact (same_findFirst h vs).then fun _ => still_pure _
  | take | skip => exact still_newList _ _ _
  | contains => exact still_pure _ _ _

end QueryExpr.Eval

/-- A lambda with something to return comes to what its body comes to. -/
theorem QueryExpr.Lambda.invoke_eq_body {host : Host} {f : Lambda} {arguments : List Value}
    (hlen : f.parameters.length = arguments.length) (hvoid : f.returns.isVoid = false) :
    f.invoke host arguments =
      Eval.withBindings ((f.parameters.map Declaration.boundName).zip arguments)
        (Eval.term host f.body) := by
  have hne : (f.parameters.length != arguments.length) = false := by simpa using hlen
  unfold invoke
  rw [hne, hvoid]
  exact bind_pure _
