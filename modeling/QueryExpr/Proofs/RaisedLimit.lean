/-
# Steps under two limits

A step of reading is taken twice from one cursor, under a limit and under one
that is no lower. The two come to the same, unless the first one finds the
nesting too deep; and it does so only if the limit is less than the depth at
the start, two levels for each token ahead, and a slack.

A step that passes `k` tokens gives back two levels for each. A link of a chain
passes a token and charges one level for it, so that it leaves one.

Key definitions: `Reader.Raised`, `Reader.Lifts`, `Reader.LiftsAt`.
Key theorems: `Reader.Raised.bind`, `Reader.Lifts.within`, `Reader.LiftsAt.link`,
`Reader.Lifts.charging`.
-/
import QueryExpr.Proofs.SharedReading

namespace QueryExpr

/-- The cause is that the nesting passes a limit. -/
def Cause.isLimit : Cause → Bool
  | .nestedTooDeeply _ => true
  | _ => false

theorem Cause.isLimit_iff {cause : Cause} : cause.isLimit = true ↔ cause.code = 2009 := by
  cases cause <;> simp [isLimit, code]

namespace Reader

open Cursor (Moves)

variable {α β : Type} {limit limit' s s' k j : Nat} {b c d : Cursor} {t : Token}
  {m m' : Reader α} {f f' : α → Reader β}

/-- What a reader comes to from a cursor under a limit, and under one no lower:
the nesting is too deep for the first one, or both fail alike for another cause,
or both yield the same at the same place. -/
inductive Raised (limit s k : Nat) (c : Cursor) :
    Except Failure α × Cursor → Except Failure α × Cursor → Prop
  | tooDeep {span : Span} {d : Cursor} {r : Except Failure α × Cursor}
      (h : limit < c.depth + 2 * c.ahead.length + s) :
      Raised limit s k c (.error ⟨.nestedTooDeeply limit, span⟩, d) r
  | error {e : Failure} {d : Cursor} (h : e.cause.isLimit = false ∨ c.ending = .error e) :
      Raised limit s k c (.error e, d) (.error e, d)
  | ok {x : α} {d : Cursor} (ending : d.ending = c.ending) (moves : Moves k c d) :
      Raised limit s k c (.ok x, d) (.ok x, d)

/-- The two readers come to the same from any cursor, as far as the limit of the
first one goes. -/
def Lifts (limit s k : Nat) (m m' : Reader α) : Prop := ∀ c, Raised limit s k c (m c) (m' c)

/-- The readers come to the same where the current token is the given one. -/
def LiftsAt (limit s k : Nat) (t : Token) (m m' : Reader α) : Prop :=
  ∀ c, c.current = t → Raised limit s k c (m c) (m' c)

/-! ### One step after the other -/

namespace Raised

variable {r r' : Except Failure α × Cursor}

theorem weaken (h : Raised limit s k c r r') (hs : s ≤ s') (hk : j ≤ k) :
    Raised limit s' j c r r' := by
  cases h with
  | tooDeep h => exact .tooDeep (by omega)
  | error h => exact .error h
  | ok hending hm => exact .ok hending (hm.weaken hk)

/-- Past `k` tokens two levels for each are won. -/
theorem bind (h : Raised limit s k c (m b) (m' b)) (hf : ∀ x d, d.ending = c.ending →
      Moves k c d → Raised limit (s + 2 * k) 0 d (f x d) (f' x d)) :
    Raised limit s k c ((m >>= f) b) ((m' >>= f') b) := by
  rw [Step.bind_apply, Step.bind_apply]
  generalize m b = r at h
  generalize m' b = r' at h
  cases h with
  | tooDeep h => exact .tooDeep h
  | error h => exact .error h
  | @ok x d hending hm =>
    have h := hf x d hending hm
    show Raised limit s k c (f x d) (f' x d)
    generalize f x d = r at h
    generalize f' x d = r' at h
    cases h with
    | tooDeep h =>
      have hdepth := hm.depth
      have hspent := hm.spent
      exact .tooDeep (by omega)
    | error h => exact .error (hending ▸ h)
    | ok hending' hm' => exact .ok (hending'.trans hending) (hm.trans hm')

/-- Past a token that is charged for there is one level more than before. -/
theorem of_link (ht : c.current.kind ≠ .endOfText)
    (h : Raised limit (s + 1) 0 c.moved.linked r r') : Raised limit s 0 c r r' := by
  obtain ⟨ts, ha⟩ := Cursor.ahead_of_kind ht
  have hc : c.ahead.length = ts.length + 1 := by rw [ha, List.length_cons]
  have hmoved : c.moved.linked.ahead.length = ts.length := by
    show c.ahead.tail.length = _
    rw [ha, List.tail_cons]
  cases h with
  | tooDeep h =>
    have h : limit < c.depth + 1 + 2 * c.moved.linked.ahead.length + (s + 1) := h
    exact .tooDeep (by omega)
  | error h => exact .error h
  | ok hending hm =>
    have hdepth : _ + (c.charged + 1) = c.depth + 1 + _ := hm.depth
    have hcharged : c.charged + 1 ≤ _ := hm.charged
    have hspent : _ ≤ c.charged + 1 + 2 * c.moved.linked.ahead.length := hm.spent
    refine .ok hending ⟨hm.suffix.trans (List.tail_suffix _), ?_, ?_, ?_⟩ <;> omega

end Raised

theorem Lifts.at (h : Lifts limit s k m m') (t : Token) : LiftsAt limit s k t m m' :=
  fun c _ => h c

theorem Lifts.weaken (h : Lifts limit s k m m') (hs : s ≤ s') (hk : j ≤ k) :
    Lifts limit s' j m m' := fun c => (h c).weaken hs hk

theorem Lifts.bind (h : Lifts limit s k m m') (hf : ∀ x, Lifts limit (s + 2 * k) 0 (f x) (f' x)) :
    Lifts limit s k (m >>= f) (m' >>= f') :=
  fun c => (h c).bind fun x d _ _ => hf x d

theorem LiftsAt.bind (h : LiftsAt limit s k t m m')
    (hf : ∀ x, Lifts limit (s + 2 * k) 0 (f x) (f' x)) :
    LiftsAt limit s k t (m >>= f) (m' >>= f') :=
  fun c ht => (h c ht).bind fun x d _ _ => hf x d

theorem lifts_pure (x : α) : Lifts limit s 0 (pure x) (pure x) := fun c => .ok rfl (.refl c)

theorem lifts_fail {cause : Cause} (span : Span) (h : cause.isLimit = false) :
    Lifts limit s k (fail cause span : Reader α) (fail cause span) := fun _ => .error (.inl h)

theorem lifts_fail_bind {cause : Cause} (span : Span) (h : cause.isLimit = false) :
    Lifts limit s k (fail cause span >>= f) (fail cause span >>= f') := fun _ => .error (.inl h)

/-! ### Looking -/

theorem lifts_current {f f' : Token → Reader β} (h : ∀ t, LiftsAt limit s k t (f t) (f' t)) :
    Lifts limit s k (current >>= f) (current >>= f') := fun c => h c.current c rfl

theorem LiftsAt.current {f f' : Token → Reader β} (h : LiftsAt limit s k t (f t) (f' t)) :
    LiftsAt limit s k t (current >>= f) (current >>= f') := by
  rintro c rfl
  exact h c rfl

theorem lifts_kind {f f' : TokenKind → Reader β}
    (h : ∀ t, LiftsAt limit s k t (f t.kind) (f' t.kind)) :
    Lifts limit s k (kind >>= f) (kind >>= f') := fun c => h c.current c rfl

theorem LiftsAt.name {f f' : Name → Reader β}
    (h : LiftsAt limit s k t (f ⟨t.value, t.span⟩) (f' ⟨t.value, t.span⟩)) :
    LiftsAt limit s k t (name >>= f) (name >>= f') := by
  rintro c rfl
  exact h c rfl

theorem LiftsAt.get {f f' : Cursor → Reader β} (h : ∀ d, LiftsAt limit s k t (f d) (f' d)) :
    LiftsAt limit s k t (MonadState.get >>= f) (MonadState.get >>= f') := fun c ht => h c c ht

theorem lifts_spanFrom (start : Nat) : Lifts limit s 0 (spanFrom start) (spanFrom start) :=
  fun c => .ok rfl (.refl c)

/-! ### Moving on -/

theorem raised_meetFault (hending : d.ending = c.ending) (hm : Moves k c d) :
    Raised limit s k c (meetFault d) (meetFault d) := by
  rw [meetFault_apply]
  cases hf : d.fault? with
  | none => exact .ok hending hm
  | some e =>
    have he : d.ending = .error e := by
      unfold Cursor.fault? at hf
      split at hf
      · rename_i herror
        cases hf
        exact herror
      · cases hf
    exact .error (.inr (hending ▸ he))

theorem lifts_advance : Lifts limit s 0 advance advance := by
  intro c
  refine raised_meetFault (d := c.moved) rfl ⟨List.tail_suffix _, rfl, Nat.le_refl _, ?_⟩
  have hlen : c.moved.ahead.length ≤ c.ahead.length := (List.tail_suffix _).length_le
  show c.charged + 2 * c.moved.ahead.length ≤ _
  omega

theorem liftsAt_advance (ht : t.kind ≠ .endOfText) : LiftsAt limit s 1 t advance advance := by
  rintro c rfl
  exact raised_meetFault (d := c.moved) rfl (Cursor.moves_moved ht)

theorem lifts_unexpected : Lifts limit s k (unexpected : Reader α) unexpected := by
  refine lifts_current fun t => ?_
  split <;> exact (lifts_fail _ rfl).at t

theorem lifts_expect (kind : TokenKind) : Lifts limit s 0 (expect kind) (expect kind) := by
  refine lifts_current fun t => ?_
  split
  · exact lifts_advance.at t
  · exact (lifts_fail _ rfl).at t

/-! ### Going deeper -/

theorem Lifts.within (hl : limit ≤ limit') (h : Lifts limit s k m m') :
    Lifts limit (s + 1) k (within limit m) (within limit' m') := by
  intro c
  unfold Reader.within
  rw [Step.bind_apply, Step.bind_apply, enter_apply]
  by_cases hd : limit < c.depth + 1
  · rw [if_pos hd]
    exact .tooDeep (by omega)
  · rw [if_neg hd, enter_eq (by omega)]
    show Raised limit (s + 1) k c (andFinally m _ _) (andFinally m' _ _)
    unfold andFinally
    have h := h { c with depth := c.depth + 1 }
    generalize m { c with depth := c.depth + 1 } = r at h
    generalize m' { c with depth := c.depth + 1 } = r' at h
    cases h with
    | tooDeep h =>
      have h : limit < c.depth + 1 + 2 * c.ahead.length + s := h
      exact .tooDeep (by omega)
    | error h => exact .error h
    | ok hending hm => exact .ok hending hm.of_enter

theorem charge_apply (limit : Nat) (c : Cursor) : charge limit c =
    (if limit < c.depth + 1 then .error ⟨.nestedTooDeeply limit, c.current.span⟩ else .ok (),
      c.linked) := by
  unfold charge
  rw [Step.bind_apply]
  exact enter_apply limit { c with charged := c.charged + 1 }

/-- A link of a chain may be charged for before its token is passed. -/
theorem LiftsAt.link {f f' : Reader α} {r r' : α → Reader β} (hl : limit ≤ limit')
    (ht : t.kind ≠ .endOfText) (hm : ∀ c, c.current = t → m c = (advance >>= fun _ => f) c)
    (hm' : ∀ c, c.current = t → m' c = (advance >>= fun _ => f') c)
    (hf : Lifts limit (s + 1) 0 f f') (hr : ∀ x, Lifts limit (s + 1) 0 (r x) (r' x)) :
    LiftsAt limit s 0 t (charge limit >>= fun _ => m >>= r)
      (charge limit' >>= fun _ => m' >>= r') := by
  rintro c rfl
  obtain ⟨ts, ha⟩ := Cursor.ahead_of_kind ht
  have hlen : c.ahead.length = ts.length + 1 := by rw [ha, List.length_cons]
  rw [Step.bind_apply, Step.bind_apply, charge_apply]
  by_cases hd : limit < c.depth + 1
  · rw [if_pos hd]
    exact .tooDeep (by omega)
  · rw [if_neg hd, charge_eq (by omega)]
    have hpassed : Lifts limit (s + 1) 0 (meetFault >>= fun _ => f) (meetFault >>= fun _ => f') :=
      Lifts.bind (fun c => raised_meetFault rfl (.refl c)) fun _ => hf
    have hfirst : Raised limit (s + 1) 0 c.moved.linked (m c.linked) (m' c.linked) := by
      rw [hm c.linked rfl, hm' c.linked rfl]
      exact hpassed c.moved.linked
    exact .of_link ht (hfirst.bind fun x d _ _ => hr x d)

/-- A link of a chain may be charged for behind its token. -/
theorem LiftsAt.link_behind (hl : limit ≤ limit') (ht : t.kind ≠ .endOfText)
    (h : Lifts limit (s + 1) 0 m m') :
    LiftsAt limit s 0 t (advance >>= fun _ => charge limit >>= fun _ => m)
      (advance >>= fun _ => charge limit' >>= fun _ => m') := by
  rintro c rfl
  obtain ⟨ts, ha⟩ := Cursor.ahead_of_kind ht
  have hlen : c.ahead.length = ts.length + 1 := by rw [ha, List.length_cons]
  have hpassed : Raised limit s 1 c (advance c) (advance c) := liftsAt_advance ht c rfl
  have hadvance : advance c = (c.moved.fault?.elim (.ok ()) .error, c.moved) :=
    meetFault_apply c.moved
  rw [hadvance] at hpassed
  rw [Step.bind_apply, Step.bind_apply, hadvance]
  cases hf : c.moved.fault? with
  | some e =>
    rw [hf] at hpassed
    cases hpassed with
    | tooDeep h => exact .tooDeep h
    | error h => exact .error h
  | none =>
    show Raised limit s 0 c ((charge limit >>= fun _ => m) c.moved)
      ((charge limit' >>= fun _ => m') c.moved)
    rw [Step.bind_apply, Step.bind_apply, charge_apply]
    have hdepth : c.moved.depth = c.depth := rfl
    by_cases hd : limit < c.moved.depth + 1
    · rw [if_pos hd]
      exact .tooDeep (by omega)
    · rw [if_neg hd, charge_eq (by omega)]
      exact .of_link ht (h c.moved.linked)

theorem Lifts.charging (h : Lifts limit s k m m') : Lifts limit s k (charging m) (charging m') := by
  intro c
  unfold Reader.charging andFinally
  dsimp only
  have h := h { c with charged := 0 }
  generalize m { c with charged := 0 } = r at h
  generalize m' { c with charged := 0 } = r' at h
  cases h with
  | tooDeep h => exact .tooDeep h
  | error h => exact .error h
  | ok hending hm => exact .ok hending hm.of_charging

end Reader
end QueryExpr
