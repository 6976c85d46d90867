/-
# What checks yield

A check is sound for a discipline if what it yields is made by the rules of
typing, given that the record types made so far may occur. A record type that
is made on the way has to be one that may occur too; whether it is can only
be told from the record types at the end, so that what is asked of those is
asked beforehand (`Agrees`), and holds at every step on the way because no
record type is lost.

Most of the checker decides without touching the context (`Settled`).

Key definitions: `Discipline.Covers`, `Discipline.Agrees`, `Check.Yields`,
`Check.Settled`.
Key theorems: `Check.Yields.bind`, `Check.Yields.settle`,
`Check.yields_withElement`, `Check.yields_request`.
-/
import QueryExpr.Proofs.CheckSteps
import QueryExpr.Proofs.TermTyping

namespace QueryExpr

namespace Discipline

/-- The record types made so far may occur. -/
def Covers (D : Discipline) (c : RecordCache) : Prop :=
  ∀ r ∈ c.entries, D.Admits r.type

/-- Of the record types made so far, those of properties that have values may
occur. -/
def Agrees (D : Discipline) (c : RecordCache) : Prop :=
  ∀ r ∈ c.entries, (∀ p ∈ r.properties, D.value p.2) → D.type r.type

theorem Agrees.of_grows {D : Discipline} {c d : RecordCache} (h : D.Agrees d) (hg : c.Grows d) :
    D.Agrees c := fun r hr => h r (hg.mem hr)

end Discipline

namespace Check

variable {α β : Type} {D : Discipline} {s : Scopes} {m : Check α} {f : α → Check β}
  {Q : α → Prop} {R : β → Prop}

/-- In the given scopes, the check keeps to record types that may occur, and
what it yields has the given property. -/
def Yields (D : Discipline) (s : Scopes) (m : Check α) (Q : α → Prop) : Prop :=
  ∀ c, c.scopes = s → D.Covers c.records → D.Agrees (m c).2.records →
    D.Covers (m c).2.records ∧ ∀ x, (m c).1 = .ok x → Q x

/-- In the given scopes, the check leaves the context as it is, and what it
yields has the given property. -/
def Settled (s : Scopes) (m : Check α) (Q : α → Prop) : Prop :=
  ∀ c, c.scopes = s → (m c).2 = c ∧ ∀ x, (m c).1 = .ok x → Q x

/-! ### Settled checks -/

theorem settled_pure {x : α} (h : Q x) : Settled s (pure x) Q :=
  fun _ _ => ⟨rfl, fun _ hx => by cases hx; exact h⟩

theorem settled_fail (cause : Cause) (span : Span) : Settled s (fail cause span : Check α) Q :=
  fun _ _ => ⟨rfl, fun _ hx => by cases hx⟩

theorem settled_scopes : Settled s scopes (· = s) :=
  fun c hc => ⟨rfl, fun x hx => by cases hx; exact hc⟩

theorem settled_ofExcept {x : Except Failure α} (h : ∀ y, x = .ok y → Q y) :
    Settled s (ofExcept x) Q := by
  intro c _
  rw [ofExcept_apply]
  exact ⟨rfl, h⟩

theorem Settled.bind (hm : Settled s m Q) (hf : ∀ x, Q x → Settled s (f x) R) :
    Settled s (m >>= f) R := by
  intro c hc
  obtain ⟨h1, h2⟩ := hm c hc
  rw [Step.bind_apply]
  rcases hd : m c with ⟨e | x, d⟩ <;> rw [hd] at h1 h2
  · exact ⟨h1, fun x hx => by cases hx⟩
  · obtain rfl : d = c := h1
    exact hf x (h2 x rfl) d hc

theorem Settled.mono {Q' : α → Prop} (h : Settled s m Q) (hQ : ∀ x, Q x → Q' x) :
    Settled s m Q' :=
  fun c hc => ⟨(h c hc).1, fun x hx => hQ x ((h c hc).2 x hx)⟩

theorem Settled.yields (h : Settled s m Q) : Yields D s m Q := by
  intro c hc hcov _
  obtain ⟨h1, h2⟩ := h c hc
  rw [h1]
  exact ⟨hcov, h2⟩

/-! ### Composition -/

theorem Yields.mono {Q' : α → Prop} (h : Yields D s m Q) (hQ : ∀ x, Q x → Q' x) :
    Yields D s m Q' :=
  fun c hc hcov ha => ⟨(h c hc hcov ha).1, fun x hx => hQ x ((h c hc hcov ha).2 x hx)⟩

/-- Two checks in a row. What is asked of the record types at the end holds of
those in between, since the second check loses none. -/
theorem Yields.bind (hm : Yields D s m Q) (hkm : Composed m) (hk : ∀ x, Composed (f x))
    (hf : ∀ x, Q x → Yields D s (f x) R) : Yields D s (m >>= f) R := by
  intro c hc hcov ha
  have h1 := hm c hc hcov
  have h2 := hkm.keeps c
  rw [Step.bind_apply] at ha ⊢
  rcases hd : m c with ⟨e | x, d⟩ <;> rw [hd] at h1 h2 ha
  · exact ⟨(h1 ha).1, fun x hx => by cases hx⟩
  · obtain ⟨hcov', hx⟩ := h1 (ha.of_grows ((hk x).keeps d).2)
    exact hf x (hx x rfl) d (h2.1.trans hc) hcov' ha

/-- A check, and a decision about what it yields. -/
theorem Yields.settle (hm : Yields D s m Q) (hkm : Composed m)
    (hf : ∀ x, Settled s (f x) fun y => Q x → R y) : Yields D s (m >>= f) R := by
  intro c hc hcov ha
  have h1 := hm c hc hcov
  have h2 := hkm.keeps c
  rw [Step.bind_apply] at ha ⊢
  rcases hd : m c with ⟨e | x, d⟩ <;> rw [hd] at h1 h2 ha
  · exact ⟨(h1 ha).1, fun x hx => by cases hx⟩
  · obtain ⟨h3, h4⟩ := hf x d (h2.1.trans hc)
    dsimp only at ha ⊢
    rw [h3] at ha ⊢
    obtain ⟨hcov', hx⟩ := h1 ha
    exact ⟨hcov', fun y hy => h4 y hy (hx x rfl)⟩

/-- A decision, and a check that depends on it. -/
theorem Settled.bind_yields (hm : Settled s m Q) (hf : ∀ x, Q x → Yields D s (f x) R) :
    Yields D s (m >>= f) R := by
  intro c hc hcov ha
  obtain ⟨h1, h2⟩ := hm c hc
  rw [Step.bind_apply] at ha ⊢
  rcases hd : m c with ⟨e | x, d⟩ <;> rw [hd] at h1 h2 ha
  · obtain rfl : d = c := h1
    exact ⟨hcov, fun x hx => by cases hx⟩
  · obtain rfl : d = c := h1
    exact hf x (h2 x rfl) d hc hcov ha

theorem yields_withElement {t : Ty} (h : Yields D (s.push t) m Q) :
    Yields D s (withElement t m) Q := by
  intro c hc hcov ha
  exact h { c with scopes := c.scopes.push t } (by rw [hc]) hcov ha

/-- A request for properties that have values yields a record type of the same
names and types, which may occur. -/
theorem yields_request {ps : Properties} {span : Span}
    (h : ∀ p ∈ ps, D.Admits p.2 ∧ D.value p.2) :
    Yields D s (request ps span) fun r => ps.same r.properties = true ∧ D.Admits r.type := by
  intro c hc hcov ha
  have hc' : (request ps span c).2.records = (c.records.request ps).2 := by
    unfold request
    split <;> rename_i h <;> rw [h]
  rw [hc'] at ha ⊢
  have hcov' : D.Covers (c.records.request ps).2 := by
    rcases c.records.request_cases ps with h' | h' <;> rw [h'] at ha ⊢
    · exact hcov
    · intro r hr
      rcases List.mem_cons.mp hr with rfl | hr
      · refine .of_parts (ha _ List.mem_cons_self fun p hp => (h p hp).2) fun u hu => ?_
        obtain ⟨p, hp, rfl⟩ := List.mem_map.mp hu
        exact (h p hp).1
      · exact hcov r hr
  refine ⟨hcov', fun r hr => ?_⟩
  unfold request at hr
  split at hr
  · rename_i r' d hd
    cases hr
    obtain ⟨hs, hm⟩ := RecordCache.request_ok hd
    rw [hd] at hcov'
    exact ⟨hs, hcov' r hm⟩
  · cases hr

end Check
end QueryExpr
