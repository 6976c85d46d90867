/-
# Safe evaluations

An evaluation is safe if it yields what is wanted or fails with an error that
may be expected, or with one that the host gave as its answer to something it
was asked on the way. It leaves the environment in place. What is put
together from safe evaluations is safe.

Key definitions: `Host.Refuses`, `Eval.Tolerated`, `Eval.Safe`.
Key theorems: `Eval.Safe.bind`, `Eval.Safe.withElement`, `Eval.safe_ask`.
-/
import QueryExpr.Proofs.OperationOutcomes
import QueryExpr.Proofs.SameEval

namespace QueryExpr

/-- The host answers what it is asked with the error. -/
def Host.Refuses (host : Host) (e : EvalError) : Event → Prop
  | .call id method vs => ∃ name, host.call id name method vs = .error e
  | .index id vs => ∃ name, host.index id name vs = .error e
  | .invoke id vs => host.invoke id vs = .error e

namespace Eval

variable {α β : Type} {host : Host} {env : Environment} {Q : α → Prop} {R : β → Prop}
  {m m' : Eval α} {f : α → Eval β}

/-- The error may be expected, or is an answer of the host to something that it
was asked. -/
def Tolerated (host : Host) (asked : List Event) (e : EvalError) : Prop :=
  e.isExpected = true ∨ ∃ event ∈ asked, host.Refuses e event

/-- In the environment the evaluation yields what is wanted, or fails with an
error that is tolerated, and leaves the environment as it is. -/
def Safe (host : Host) (env : Environment) (Q : α → Prop) (m : Eval α) : Prop :=
  ∀ c, c.environment = env → (m c).2.environment = env ∧
    ∃ asked, (m c).2.events = c.events ++ asked ∧
      (∀ x, (m c).1 = .ok x → Q x) ∧ ∀ e, (m c).1 = .error e → Tolerated host asked e

theorem safe_pure {x : α} (h : Q x) : Safe host env Q (pure x) := by
  intro c hc
  refine ⟨hc, [], (List.append_nil _).symm, fun y hy => ?_, fun e he => ?_⟩
  · cases hy
    exact h
  · cases he

theorem safe_throw {e : EvalError} (h : e.isExpected = true) :
    Safe host env Q (throw e : Eval α) := by
  intro c hc
  refine ⟨hc, [], (List.append_nil _).symm, fun y hy => ?_, fun e' he => ?_⟩
  · cases hy
  · cases he
    exact .inl h

theorem safe_ofExcept {x : Except EvalError α} (h : Fine Q x) : Safe host env Q (ofExcept x) := by
  cases x with
  | ok x => exact safe_pure h
  | error e => exact safe_throw h

theorem Safe.bind (hm : Safe host env Q m) (hf : ∀ x, Q x → Safe host env R (f x)) :
    Safe host env R (m >>= f) := by
  intro c hc
  obtain ⟨henv, asked, hev, hok, herr⟩ := hm c hc
  rw [Step.bind_apply]
  rcases h : m c with ⟨e | x, d⟩ <;> rw [h] at henv hev hok herr
  · refine ⟨henv, asked, hev, fun y hy => ?_, fun e' he => ?_⟩
    · cases hy
    · cases he
      exact herr e rfl
  · obtain ⟨henv', asked', hev', hok', herr'⟩ := hf x (hok x rfl) d henv
    have hev : d.events = c.events ++ asked := hev
    refine ⟨henv', asked ++ asked', ?_, hok', fun e he => ?_⟩
    · rw [hev', hev, List.append_assoc]
    · rcases herr' e he with he | ⟨event, hm, he⟩
      · exact .inl he
      · exact .inr ⟨event, List.mem_append_right _ hm, he⟩

theorem Safe.mono {R : α → Prop} (h : Safe host env Q m) (hR : ∀ x, Q x → R x) :
    Safe host env R m := by
  intro c hc
  obtain ⟨henv, asked, hev, hok, herr⟩ := h c hc
  exact ⟨henv, asked, hev, fun x hx => hR x (hok x hx), herr⟩

theorem Safe.ite {p : Prop} [Decidable p] (h : Safe host env Q m) (h' : Safe host env Q m') :
    Safe host env Q (if p then m else m') := by
  split
  · exact h
  · exact h'

theorem Safe.withBindings {bindings : Environment}
    (h : Safe host (bindings.reverse ++ env) Q m) :
    Safe host env Q (withBindings bindings m) := by
  intro c hc
  obtain ⟨henv, asked, hev, hok, herr⟩ :=
    h { c with environment := bindings.reverse ++ c.environment } (by rw [hc])
  refine ⟨?_, asked, hev, hok, herr⟩
  unfold Eval.withBindings
  dsimp only
  rw [henv, hc]
  simp

/-- A body is evaluated with its element as the innermost binding. -/
theorem Safe.withElement {v : Value} (h : Safe host ((implicitName, v) :: env) Q m) :
    Safe host env Q (withElement v m) := by
  intro c hc
  obtain ⟨henv, asked, hev, hok, herr⟩ :=
    h { c with environment := (implicitName, v) :: c.environment } (by rw [hc])
  exact ⟨congrArg List.tail henv, asked, hev, hok, herr⟩

theorem safe_newList {Q : Value → Prop} {items : List Value} (h : ∀ id, Q (.list id items)) :
    Safe host env Q (newList items) := by
  intro c hc
  refine ⟨hc, [], (List.append_nil _).symm, fun y hy => ?_, fun e he => ?_⟩
  · cases hy
    exact h c.nextList
  · cases he

/-- An error in the host's answer is the host's. -/
theorem safe_ask {Q : Value → Prop} {event : Event} {answer : Except EvalError Value}
    (h : ∀ v, answer = .ok v → Q v) (he : ∀ e, answer = .error e → host.Refuses e event) :
    Safe host env Q (ask event answer) := by
  intro c hc
  exact ⟨hc, [event], rfl, h, fun e hr => .inr ⟨event, List.mem_singleton_self _, he e hr⟩⟩

/-- A name that is bound is found. -/
theorem safe_lookup {Q : Value → Prop} {name : String} {v : Value}
    (h : env.lookup name = some v) (hv : Q v) : Safe host env Q (lookup name) := by
  intro c hc
  subst hc
  rw [lookup_apply, h]
  refine ⟨rfl, [], (List.append_nil _).symm, fun y hy => ?_, fun e he => ?_⟩
  · cases hy
    exact hv
  · cases he

/-! ### The order of evaluation -/

theorem safe_values {ts : List Ty} {ms : List (Eval Value)}
    (h : List.Forall₂ (fun t m => Safe host env (Conforms host t) m) ts ms) :
    Safe host env (ConformsAll host ts) (values ms) := by
  induction h with
  | nil => exact safe_pure rfl
  | cons hm _ ih => exact hm.bind fun v hv => ih.bind fun vs hvs => safe_pure ⟨v, vs, rfl, hv, hvs⟩

section Logic

variable {n : Bool} {l r : Eval Value}
  (hl : Safe host env (Conforms host (.lift .boolean n)) l)
  (hr : Safe host env (Conforms host (.lift .boolean n)) r)
include hl hr

theorem safe_conjunction : Safe host env (Conforms host (.lift .boolean n)) (conjunction l r) := by
  refine hl.bind fun v hv => ?_
  rcases conforms_lift.mp hv with ⟨hn, rfl⟩ | ⟨b, rfl⟩
  · have hnull : Conforms host (.lift .boolean n) .null := conforms_lift.mpr (.inl ⟨hn, rfl⟩)
    exact hr.bind fun w hw => Safe.ite (safe_pure hw) (safe_pure hnull)
  · cases b with
    | false => exact safe_pure hv
    | true => exact hr.bind fun w hw => Safe.ite (safe_pure hw) (safe_pure hw)

theorem safe_disjunction : Safe host env (Conforms host (.lift .boolean n)) (disjunction l r) := by
  refine hl.bind fun v hv => ?_
  rcases conforms_lift.mp hv with ⟨hn, rfl⟩ | ⟨b, rfl⟩
  · have hnull : Conforms host (.lift .boolean n) .null := conforms_lift.mpr (.inl ⟨hn, rfl⟩)
    exact hr.bind fun w hw => Safe.ite (safe_pure hw) (safe_pure hnull)
  · cases b with
    | true => exact safe_pure hv
    | false => exact hr.bind fun w hw => Safe.ite (safe_pure hw) (safe_pure hw)

end Logic

theorem safe_conditional {c a b : Eval Value} {Q : Value → Prop}
    (hc : Safe host env (Conforms host .boolean) c) (ha : Safe host env Q a)
    (hb : Safe host env Q b) : Safe host env Q (conditional c a b) := by
  refine hc.bind fun v hv => ?_
  obtain ⟨p, rfl⟩ := hv
  cases p
  · exact hb
  · exact ha

theorem safe_coalesce {l r : Eval Value} {P Q : Value → Prop} (hl : Safe host env P l)
    (hP : ∀ v, P v → v.isNull = false → Q v) (hr : Safe host env Q r) :
    Safe host env Q (coalesce l r) := by
  refine hl.bind fun v hv => ?_
  split
  · exact hr
  · rename_i hn
    exact safe_pure (hP v hv (by simpa using hn))

theorem safe_isAmong (v : Value) {ms : List (Eval Value)}
    (h : ∀ m ∈ ms, Safe host env (fun _ => True) m) :
    Safe host env (fun _ => True) (isAmong v ms) := by
  induction ms with
  | nil => exact safe_pure trivial
  | cons m ms ih =>
    refine (h m List.mem_cons_self).bind fun w _ => Safe.ite (safe_pure trivial) ?_
    exact ih fun a ha => h a (List.mem_cons_of_mem _ ha)

end Eval
end QueryExpr
