/-
# Steps that go on or fail

Checking, reading and evaluating are all steps on a state that yield something
or fail, and leave a state either way. What follows a step starts where the
step ended; a failure ends it there.

What a step comes to is told by a condition on the state before it and one on
what it yields and the state it leaves: if it goes on, or with the assurance
that it does.

Key definitions: `Step.Ensures`, `Step.Achieves`.
Key theorems: `Step.bind_apply`, `Step.bind_ok_iff`, `Step.Ensures.bind`,
`Step.Ensures.andThen`, `Step.Achieves.bind`.
-/

namespace QueryExpr.Step

variable {ε σ α β : Type}

theorem bind_apply (m : ExceptT ε (StateM σ) α) (f : α → ExceptT ε (StateM σ) β) (s : σ) :
    (m >>= f) s = match m s with
      | (.ok x, s) => f x s
      | (.error e, s) => (.error e, s) := by
  show StateT.bind (m := Id) m (ExceptT.bindCont f) s = _
  unfold StateT.bind
  rcases m s with ⟨_ | _, _⟩ <;> rfl

/-- Two steps in a row go on if the first goes on and the second does from there. -/
theorem bind_ok_iff {m : ExceptT ε (StateM σ) α} {f : α → ExceptT ε (StateM σ) β} {s d : σ}
    {y : β} : (m >>= f) s = (.ok y, d) ↔ ∃ x s', m s = (.ok x, s') ∧ f x s' = (.ok y, d) := by
  rw [bind_apply]
  constructor
  · intro h
    rcases hm : m s with ⟨e | x, s'⟩ <;> rw [hm] at h
    · cases h
    · exact ⟨x, s', rfl, h⟩
  · rintro ⟨x, s', hm, hf⟩
    rw [hm]
    exact hf

/-- From a state as given the step either fails, or what it yields and the
state it leaves are as given. -/
def Ensures (P : σ → Prop) (m : ExceptT ε (StateM σ) α) (Q : α → σ → Prop) : Prop :=
  ∀ s, P s → ∀ x d, m s = (.ok x, d) → Q x d

variable {P P' : σ → Prop} {m : ExceptT ε (StateM σ) α} {f : α → ExceptT ε (StateM σ) β}
  {Q Q' : α → σ → Prop} {R : β → σ → Prop}

theorem ensures_pure {x : α} (h : ∀ s, P s → Q x s) : Ensures (ε := ε) P (pure x) Q :=
  fun s hs y d heq => by cases heq; exact h s hs

theorem ensures_throw (e : ε) : Ensures (ε := ε) P (throw e) Q :=
  fun _ _ _ _ heq => by cases heq

theorem Ensures.mono (hm : Ensures P m Q) (h : ∀ x d, Q x d → Q' x d) : Ensures P m Q' :=
  fun s hs x d heq => h x d (hm s hs x d heq)

theorem Ensures.from (hm : Ensures P m Q) (h : ∀ s, P' s → P s) : Ensures P' m Q :=
  fun s hs => hm s (h s hs)

theorem Ensures.bind (hm : Ensures P m Q) (hf : ∀ x, Ensures (Q x) (f x) R) :
    Ensures P (m >>= f) R := by
  intro s hs y d heq
  rw [bind_apply] at heq
  rcases h : m s with ⟨e | x, s'⟩ <;> rw [h] at heq
  · cases heq
  · exact hf x s' (hm s hs x s' h) y d heq

/-- A step that settles something about what it yields, apart from the state. -/
theorem Ensures.andThen {q : α → Prop} (hm : Ensures P m fun x d => q x ∧ P' d)
    (hf : ∀ x, q x → Ensures P' (f x) R) : Ensures P (m >>= f) R :=
  hm.bind fun x s hs => hf x hs.1 s hs.2

/-- From a state as given the step goes on, and what it yields and the state it
leaves are as given. -/
def Achieves (P : σ → Prop) (m : ExceptT ε (StateM σ) α) (Q : α → σ → Prop) : Prop :=
  ∀ s, P s → ∃ x d, m s = (.ok x, d) ∧ Q x d

theorem achieves_pure {x : α} (h : ∀ s, P s → Q x s) : Achieves (ε := ε) P (pure x) Q :=
  fun s hs => ⟨x, s, rfl, h s hs⟩

theorem Achieves.mono (hm : Achieves P m Q) (h : ∀ x d, Q x d → Q' x d) : Achieves P m Q' := by
  intro s hs
  obtain ⟨x, d, heq, hq⟩ := hm s hs
  exact ⟨x, d, heq, h x d hq⟩

theorem Achieves.bind (hm : Achieves P m Q) (hf : ∀ x, Achieves (Q x) (f x) R) :
    Achieves P (m >>= f) R := by
  intro s hs
  obtain ⟨x, d, heq, hq⟩ := hm s hs
  rw [bind_apply, heq]
  exact hf x d hq

/-- A step that settles something about what it yields, apart from the state. -/
theorem Achieves.andThen {q : α → Prop} (hm : Achieves P m fun x d => q x ∧ P' d)
    (hf : ∀ x, q x → Achieves P' (f x) R) : Achieves P (m >>= f) R :=
  hm.bind fun x s hs => hf x hs.1 s hs.2

end QueryExpr.Step
