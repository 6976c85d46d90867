/-
# Readers side by side

Two readers agree if from any two cursors at the same place, with room enough
below the limit, they come to the same place with the same result, or fail
with the same failure. How deep the nesting is, and what a chain has charged,
may differ between the two.

Room is counted in tokens: a token that is passed may be charged for twice.
So from a place with room for the tokens ahead the limit is never met.

Key definitions: `Cursor.Same`, `Cursor.Moves`, `Cursor.Abreast`,
`Reader.Alike`, `Reader.Agree`, `Reader.AgreeAt`.
Key theorems: `Cursor.Abreast.moves`, `Reader.Alike.bind`,
`Reader.Alike.charging_left`, `Reader.AgreeAt.charge`.
-/
import QueryExpr.Proofs.ReadingSteps

namespace QueryExpr

namespace Cursor

/-- The cursors are at the same place. -/
structure Same (c d : Cursor) : Prop where
  ahead : d.ahead = c.ahead
  ending : d.ending = c.ending
  lastStop : d.lastStop = c.lastStop

/-- A step leads from the first cursor to the second one, past `k` tokens at
least. What it has charged and not taken back is in the depth as well, and is
no more than two for each token passed. -/
structure Moves (k : Nat) (c d : Cursor) : Prop where
  suffix : d.ahead <:+ c.ahead
  depth : d.depth + c.charged = c.depth + d.charged
  charged : c.charged ≤ d.charged
  spent : d.charged + 2 * (d.ahead.length + k) ≤ c.charged + 2 * c.ahead.length

/-- The cursors are at the same place, with at most `n` tokens ahead, none of
which is `in`, and with room for two levels a token. The slack is what there
is beyond that. -/
structure Abreast (limit n slack : Nat) (c d : Cursor) : Prop where
  same : c.Same d
  plain : ∀ t ∈ c.ahead, t.kind ≠ .inWord
  few : 2 * c.ahead.length + slack ≤ 2 * n
  room : c.depth + 2 * c.ahead.length + slack ≤ limit
  room' : d.depth + 2 * c.ahead.length + slack ≤ limit

variable {limit n s k j : Nat} {c c' d d' e : Cursor}

namespace Same

theorem current (h : c.Same d) : d.current = c.current := by
  unfold Cursor.current
  rw [h.ahead, h.ending]

theorem next? (h : c.Same d) : d.next? = c.next? := by
  unfold Cursor.next?
  rw [h.ahead, h.ending]

theorem fault? (h : c.Same d) : d.fault? = c.fault? := by
  unfold Cursor.fault?
  rw [h.ahead, h.ending]

theorem moved (h : c.Same d) : c.moved.Same d.moved := by
  refine ⟨?_, h.ending, ?_⟩
  · show d.ahead.tail = c.ahead.tail
    rw [h.ahead]
  · show d.current.stop = c.current.stop
    rw [h.current]

end Same

namespace Moves

theorem refl (c : Cursor) : Moves 0 c c := ⟨List.suffix_rfl, rfl, Nat.le_refl _, Nat.le_refl _⟩

theorem trans (h : Moves k c d) (h' : Moves j d e) : Moves k c e := by
  have h1 := h.depth
  have h2 := h'.depth
  have h3 := h.charged
  have h4 := h'.charged
  have h5 := h.spent
  have h6 := h'.spent
  refine ⟨h'.suffix.trans h.suffix, ?_, ?_, ?_⟩ <;> omega

theorem weaken (h : Moves k c d) (hj : j ≤ k) : Moves j c d := by
  have h1 := h.spent
  exact ⟨h.suffix, h.depth, h.charged, by omega⟩

theorem length_le (h : Moves k c d) : d.ahead.length + k ≤ c.ahead.length := by
  have h1 := h.spent
  have h2 := h.charged
  omega

/-- The level that was entered is left. -/
theorem of_enter (h : Moves k { c with depth := c.depth + 1 } d) :
    Moves k c { d with depth := d.depth - 1 } := by
  have h1 := h.depth
  have h2 := h.charged
  refine ⟨h.suffix, ?_, h.charged, h.spent⟩
  simp only at h1 h2 ⊢
  omega

/-- A link that is charged for passes a token. -/
theorem of_charge (h : Moves (k + 1) c.linked d) :
    Moves k c d := by
  have h1 := h.depth
  have h2 := h.charged
  have h3 := h.spent
  simp only [linked] at h1 h2 h3
  refine ⟨h.suffix, ?_, ?_, ?_⟩ <;> omega

/-- What a chain has charged is taken back at its end. -/
theorem of_charging (h : Moves k { c with charged := 0 } d) :
    Moves k c { d with depth := d.depth - d.charged, charged := c.charged } := by
  have h1 := h.depth
  have h2 := h.spent
  simp only at h1 h2
  refine ⟨h.suffix, ?_, Nat.le_refl _, ?_⟩ <;> simp only <;> omega

end Moves

theorem moves_moved (h : c.current.kind ≠ .endOfText) : Moves 1 c c.moved := by
  obtain ⟨ts, ha⟩ := ahead_of_kind h
  refine ⟨List.tail_suffix _, rfl, Nat.le_refl _, ?_⟩
  show c.charged + 2 * (c.ahead.tail.length + 1) ≤ _
  rw [ha]
  exact Nat.le_refl _

namespace Abreast

/-- Past `k` tokens there is room for `k` tokens more. -/
theorem moves (h : Abreast limit n s c c') (hs : d.Same d') (hm : Moves k c d)
    (hm' : Moves k c' d') : Abreast limit n (s + 2 * k) d d' := by
  have hl := congrArg List.length h.same.ahead
  have hl' := congrArg List.length hs.ahead
  have h1 := h.few
  have h2 := h.room
  have h3 := h.room'
  have h4 := hm.depth
  have h5 := hm.spent
  have h6 := hm.charged
  have h7 := hm'.depth
  have h8 := hm'.spent
  have h9 := hm'.charged
  refine ⟨hs, fun t ht => h.plain t (hm.suffix.subset ht), ?_, ?_, ?_⟩ <;> omega

/-- Past the first token of a link there is room for the link, and one level
more. -/
theorem moves_charged (h : Abreast limit n s c c') (hs : d.Same d')
    (hm : Moves 1 c.linked d) (hm' : Moves 1 c'.linked d') :
    Abreast limit n (s + 1) d d' := by
  have hl := congrArg List.length h.same.ahead
  have hl' := congrArg List.length hs.ahead
  have h1 := h.few
  have h2 := h.room
  have h3 := h.room'
  have h4 := hm.depth
  have h5 := hm.charged
  have h6 := hm.spent
  have h7 := hm'.depth
  have h8 := hm'.charged
  have h9 := hm'.spent
  simp only [linked] at h4 h5 h6 h7 h8 h9
  refine ⟨hs, fun t ht => h.plain t (hm.suffix.subset ht), ?_, ?_, ?_⟩ <;> omega

theorem loose (h : Abreast limit n s c d) (hj : j ≤ s) : Abreast limit n j c d := by
  have h1 := h.few
  have h2 := h.room
  have h3 := h.room'
  refine ⟨h.same, h.plain, ?_, ?_, ?_⟩ <;> omega

theorem more (h : Abreast limit n s c d) (hj : n ≤ j) : Abreast limit j s c d := by
  have h1 := h.few
  exact ⟨h.same, h.plain, by omega, h.room, h.room'⟩

/-- With a slack of two there is a token less than there may be. -/
theorem pred (h : Abreast limit (n + 1) (s + 2) c d) : Abreast limit n s c d := by
  have h1 := h.few
  have h2 := h.room
  have h3 := h.room'
  refine ⟨h.same, h.plain, ?_, ?_, ?_⟩ <;> omega

/-- A slack of one is enough, as twice the number of tokens is even. -/
theorem pred_zero (h : Abreast limit (n + 1) 1 c d) : Abreast limit n 0 c d := by
  have h1 := h.few
  have h2 := h.room
  have h3 := h.room'
  refine ⟨h.same, h.plain, ?_, ?_, ?_⟩ <;> omega

theorem length_le (h : Abreast limit n s c d) : c.ahead.length ≤ n := by
  have h1 := h.few
  omega

end Abreast

end Cursor

namespace Reader

open Cursor (Same Moves Abreast)

variable {α β : Type} {limit n s k j : Nat} {c c' d d' : Cursor} {t : Token}
  {m m' : Reader α} {f f' : α → Reader β}

/-- What readers come to that started at two cursors is the same result at the
same place, before a token of a kind as wanted, or the same failure. -/
inductive Alike (P : TokenKind → Prop) (k : Nat) (c c' : Cursor) :
    Except Failure α × Cursor → Except Failure α × Cursor → Prop
  | error {e : Failure} {d d' : Cursor} : Alike P k c c' (.error e, d) (.error e, d')
  | ok {x : α} {d d' : Cursor} : P d.current.kind → d.Same d' → Moves k c d → Moves k c' d' →
      Alike P k c c' (.ok x, d) (.ok x, d')

namespace Alike

variable {P Q : TokenKind → Prop} {r r' : Except Failure α × Cursor}

theorem weaken (h : Alike P k c c' r r') (hj : j ≤ k) : Alike P j c c' r r' := by
  cases h with
  | error => exact .error
  | ok hp hs hm hm' => exact .ok hp hs (hm.weaken hj) (hm'.weaken hj)

theorem symm (h : Alike P k c c' r r') : Alike P k c' c r' r := by
  cases h with
  | error => exact .error
  | ok hp hs hm hm' =>
    exact .ok (hs.current ▸ hp) ⟨hs.ahead.symm, hs.ending.symm, hs.lastStop.symm⟩ hm' hm

theorem bind (h : Alike P k c c' (m c) (m' c'))
    (hf : ∀ x d d', P d.current.kind → d.Same d' → Moves k c d → Moves k c' d' →
      Alike Q j d d' (f x d) (f' x d')) :
    Alike Q k c c' ((m >>= f) c) ((m' >>= f') c') := by
  rw [Step.bind_apply, Step.bind_apply]
  generalize m c = r at h
  generalize m' c' = r' at h
  cases h with
  | error => exact .error
  | @ok x d d' hp hs hm hm' =>
    have h := hf x d d' hp hs hm hm'
    show Alike Q k c c' (f x d) (f' x d')
    generalize f x d = r at h
    generalize f' x d' = r' at h
    cases h with
    | error => exact .error
    | ok hq hs' hn hn' => exact .ok hq hs' (hm.trans hn) (hm'.trans hn')

end Alike

/-! ### Depth on one side -/

namespace Alike

variable {P : TokenKind → Prop} {r' : Except Failure α × Cursor}

theorem within_left (hd : c.depth + 1 ≤ limit)
    (h : Alike P k { c with depth := c.depth + 1 } c' (m { c with depth := c.depth + 1 }) r') :
    Alike P k c c' (within limit m c) r' := by
  unfold within
  rw [Step.bind_apply, enter_eq hd]
  show Alike P k c c' (andFinally m _ _) r'
  unfold andFinally
  generalize m { c with depth := c.depth + 1 } = r at h
  cases h with
  | error => exact .error
  | ok hp hs hm hm' => exact .ok hp ⟨hs.ahead, hs.ending, hs.lastStop⟩ hm.of_enter hm'

theorem charge_left (hd : c.depth + 1 ≤ limit)
    (h : Alike P (k + 1) c.linked c' (m c.linked) r') :
    Alike P k c c' ((charge limit >>= fun _ => m) c) r' := by
  rw [Step.bind_apply, charge_eq hd]
  show Alike P k c c' (m _) r'
  generalize m c.linked = r at h
  cases h with
  | error => exact .error
  | ok hp hs hm hm' => exact .ok hp hs hm.of_charge (hm'.weaken (Nat.le_succ k))

theorem charge (hd : c.depth + 1 ≤ limit) (hd' : c'.depth + 1 ≤ limit)
    (h : Alike P (k + 1) c.linked c'.linked (m c.linked) (m' c'.linked)) :
    Alike P k c c' ((charge limit >>= fun _ => m) c) ((charge limit >>= fun _ => m') c') := by
  rw [Step.bind_apply, charge_eq hd, Step.bind_apply, charge_eq hd']
  show Alike P k c c' (m _) (m' _)
  generalize m c.linked = r at h
  generalize m' c'.linked = r' at h
  cases h with
  | error => exact .error
  | ok hp hs hm hm' => exact .ok hp hs hm.of_charge hm'.of_charge

theorem charging_left (h : Alike P k { c with charged := 0 } c' (m { c with charged := 0 }) r') :
    Alike P k c c' (charging m c) r' := by
  unfold charging andFinally
  dsimp only
  generalize m { c with charged := 0 } = r at h
  cases h with
  | error => exact .error
  | ok hp hs hm hm' => exact .ok hp ⟨hs.ahead, hs.ending, hs.lastStop⟩ hm.of_charging hm'

end Alike

/-! ### Readers that agree -/

/-- Nothing is asked of the kind of a token. -/
def anyKind (_ : TokenKind) : Prop := True

/-- The readers agree on every place with the given room. -/
def Agree (limit n s k : Nat) (m m' : Reader α) : Prop :=
  ∀ c c', Abreast limit n s c c' → Alike anyKind k c c' (m c) (m' c')

/-- The readers agree where the current token is the given one. -/
def AgreeAt (limit n s k : Nat) (t : Token) (m m' : Reader α) : Prop :=
  ∀ c c', Abreast limit n s c c' → c.current = t → Alike anyKind k c c' (m c) (m' c')

theorem Agree.at (h : Agree limit n s k m m') (t : Token) : AgreeAt limit n s k t m m' :=
  fun c c' hc _ => h c c' hc

theorem Agree.loose (h : Agree limit n s k m m') (hs : s ≤ j) : Agree limit n j k m m' :=
  fun c c' hc => h c c' (hc.loose hs)

theorem Agree.fewer (h : Agree limit n s k m m') (hn : j ≤ n) : Agree limit j s k m m' :=
  fun c c' hc => h c c' (hc.more hn)

theorem Agree.weaken (h : Agree limit n s k m m') (hk : j ≤ k) : Agree limit n s j m m' :=
  fun c c' hc => (h c c' hc).weaken hk

theorem Agree.succ (h : Agree limit n s k m m') : Agree limit (n + 1) (s + 2) k m m' :=
  fun c c' hc => h c c' hc.pred

theorem Agree.succ_zero (h : Agree limit n 0 k m m') : Agree limit (n + 1) 1 k m m' :=
  fun c c' hc => h c c' hc.pred_zero

/-- There is no place with more room than for all tokens. -/
theorem agree_of_lt (h : 2 * n < s) : Agree limit n s k m m' := by
  intro c c' hc
  have h1 := hc.few
  omega

theorem Agree.bind (h : Agree limit n s k m m')
    (hf : ∀ x, Agree limit n (s + 2 * k) 0 (f x) (f' x)) :
    Agree limit n s k (m >>= f) (m' >>= f') :=
  fun c c' hc => (h c c' hc).bind fun x d d' _ hs hm hm' => hf x d d' (hc.moves hs hm hm')

theorem AgreeAt.weaken (h : AgreeAt limit n s k t m m') (hk : j ≤ k) :
    AgreeAt limit n s j t m m' := fun c c' hc ht => (h c c' hc ht).weaken hk

theorem AgreeAt.bind (h : AgreeAt limit n s k t m m')
    (hf : ∀ x, Agree limit n (s + 2 * k) 0 (f x) (f' x)) :
    AgreeAt limit n s k t (m >>= f) (m' >>= f') :=
  fun c c' hc ht => (h c c' hc ht).bind fun x d d' _ hs hm hm' => hf x d d' (hc.moves hs hm hm')

theorem agree_pure (x : α) : Agree limit n s 0 (pure x) (pure x) :=
  fun c c' hc => .ok trivial hc.same (.refl c) (.refl c')

theorem agree_fail (cause : Cause) (span : Span) :
    Agree limit n s k (fail cause span : Reader α) (fail cause span) :=
  fun _ _ _ => .error

theorem agree_fail_bind (cause : Cause) (span : Span) (f f' : α → Reader β) :
    Agree limit n s k (fail cause span >>= f) (fail cause span >>= f') :=
  fun _ _ _ => .error

/-! ### Looking -/

theorem agree_current {f f' : Token → Reader β} (h : ∀ t, AgreeAt limit n s k t (f t) (f' t)) :
    Agree limit n s k (current >>= f) (current >>= f') := by
  intro c c' hc
  rw [current_bind, current_bind, hc.same.current]
  exact h _ c c' hc rfl

theorem AgreeAt.current {f f' : Token → Reader β} (h : AgreeAt limit n s k t (f t) (f' t)) :
    AgreeAt limit n s k t (current >>= f) (current >>= f') := by
  intro c c' hc ht
  rw [current_bind, current_bind, hc.same.current, ht]
  exact h c c' hc ht

theorem agree_kind {f f' : TokenKind → Reader β}
    (h : ∀ t, AgreeAt limit n s k t (f t.kind) (f' t.kind)) :
    Agree limit n s k (kind >>= f) (kind >>= f') := by
  intro c c' hc
  rw [kind_bind, kind_bind, hc.same.current]
  exact h _ c c' hc rfl

/-- A reader that sees no more than the place sees the same at both cursors. -/
theorem AgreeAt.get {f f' : Cursor → Reader β}
    (h : ∀ d d', d.Same d' → AgreeAt limit n s k t (f d) (f' d')) :
    AgreeAt limit n s k t (MonadState.get >>= f) (MonadState.get >>= f') :=
  fun c c' hc ht => h c c' hc.same c c' hc ht

theorem agree_spanFrom (start : Nat) : Agree limit n s 0 (spanFrom start) (spanFrom start) := by
  intro c c' hc
  have hspan : (spanFrom start c') = (.ok (.ofBounds start c.lastStop), c') := by
    rw [← hc.same.lastStop]
    rfl
  rw [hspan]
  exact .ok trivial hc.same (.refl c) (.refl c')

/-! ### Moving on -/

/-- A fault that is met at one cursor is met at the other. -/
theorem alike_meetFault (hs : d.Same d') (hm : Moves k c d) (hm' : Moves k c' d') :
    Alike anyKind k c c' (meetFault d) (meetFault d') := by
  rw [meetFault_apply, meetFault_apply, hs.fault?]
  cases d.fault? with
  | some e => exact .error
  | none => exact .ok trivial hs hm hm'

theorem alike_advance (hs : c.Same c') (hm : Moves k c c.moved) (hm' : Moves k c' c'.moved) :
    Alike anyKind k c c' (advance c) (advance c') :=
  alike_meetFault hs.moved hm hm'

theorem agree_advance : Agree limit n s 0 advance advance := by
  intro c c' hc
  have moves (c : Cursor) : Moves 0 c c.moved := by
    by_cases hk : c.current.kind = .endOfText
    · refine ⟨List.tail_suffix _, rfl, Nat.le_refl _, ?_⟩
      have hl : c.moved.ahead.length ≤ c.ahead.length := (List.tail_suffix _).length_le
      show c.charged + 2 * c.moved.ahead.length ≤ _
      omega
    · exact (Cursor.moves_moved hk).weaken (Nat.zero_le _)
  exact alike_advance hc.same (moves c) (moves c')

theorem agreeAt_advance (h : t.kind ≠ .endOfText) : AgreeAt limit n s 1 t advance advance := by
  intro c c' hc ht
  subst ht
  exact alike_advance hc.same (Cursor.moves_moved h)
    (Cursor.moves_moved (hc.same.current.symm ▸ h))

theorem agree_unexpected : Agree limit n s k (unexpected : Reader α) unexpected := by
  refine agree_current fun t => ?_
  split <;> exact (agree_fail _ _).at t

theorem agree_expect (kind : TokenKind) :
    Agree limit n s 0 (expect kind) (expect kind) := by
  refine agree_current fun t => ?_
  split
  · exact agree_advance.at t
  · exact (agree_fail _ _).at t

/-! ### Going deeper on both sides -/

theorem Agree.within (h : Agree limit n s k m m') :
    Agree limit (n + 1) (s + 2) k (within limit m) (within limit m') := by
  intro c c' hc
  have h1 := hc.few
  have h2 := hc.room
  have h3 := hc.room'
  refine Alike.within_left (by omega) (Alike.symm (Alike.within_left (by omega) (Alike.symm ?_)))
  refine h _ _ ⟨⟨hc.same.ahead, hc.same.ending, hc.same.lastStop⟩, hc.plain, ?_, ?_, ?_⟩ <;>
    simp only <;> omega

theorem Agree.charging (h : Agree limit n s k m m') :
    Agree limit n s k (charging m) (charging m') := by
  intro c c' hc
  refine Alike.charging_left (Alike.symm (Alike.charging_left (Alike.symm ?_)))
  exact h _ _ ⟨⟨hc.same.ahead, hc.same.ending, hc.same.lastStop⟩, hc.plain, hc.few, hc.room,
    hc.room'⟩

/-- A link of a chain is charged for before its first token is passed. -/
theorem AgreeAt.charge {f f' : Reader α} {r r' : α → Reader β} (h : t.kind ≠ .endOfText)
    (hm : ∀ c, c.current = t → m c = (advance >>= fun _ => f) c)
    (hm' : ∀ c, c.current = t → m' c = (advance >>= fun _ => f') c)
    (hf : Agree limit n (s + 1) 0 f f') (hr : ∀ x, Agree limit n (s + 1) 0 (r x) (r' x)) :
    AgreeAt limit n s 0 t (charge limit >>= fun _ => m >>= r) (charge limit >>= fun _ => m' >>= r') := by
  intro c c' hc ht
  have ht' : c'.current = t := hc.same.current.trans ht
  obtain ⟨ts, ha⟩ := Cursor.ahead_of_kind (ht ▸ h)
  have h0 := congrArg List.length ha
  rw [List.length_cons] at h0
  have h1 := hc.few
  have h2 := hc.room
  have h3 := hc.room'
  -- the cursors are not abreast before the token is passed
  have moves (c : Cursor) (hk : c.current = t) :
      Moves 1 c.linked c.linked.moved :=
    Cursor.moves_moved (c := c.linked) (hk ▸ h)
  have first : Alike anyKind 1 c.linked c'.linked (m c.linked) (m' c'.linked) := by
    rw [hm c.linked ht, hm' c'.linked ht']
    refine Alike.bind (alike_advance ?_ (moves c ht) (moves c' ht')) fun _ d d' _ hs hm hm' =>
      hf d d' (hc.moves_charged hs hm hm')
    exact ⟨hc.same.ahead, hc.same.ending, hc.same.lastStop⟩
  exact Alike.charge (by omega) (by omega) (first.bind fun x d d' _ hs hm hm' =>
    hr x d d' (hc.moves_charged hs hm hm'))

end Reader
end QueryExpr
