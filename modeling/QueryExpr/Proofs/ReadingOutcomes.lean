/-
# What steps of reading come to

What a step of the parser does to the cursor, if it goes on: how many tokens it
leaves ahead, and how much room below the limit of the nesting.

Going deeper takes room and gives it back. A chain takes room link by link, and
gives it back at its end, so that inside a chain room and what is charged for
add up to the room at its start.

Key definitions: `Cursor.At`, `Reader.Leaves`.
Key theorems: `Reader.ensures_within`, `Reader.ensures_charge`,
`Reader.ensures_charging`, `Reader.leaves_listUpTo`.
-/
import QueryExpr.Proofs.ReadingSteps
import QueryExpr.Proofs.WholeLexeme

namespace QueryExpr

/-- A cursor with less than `n` tokens ahead, with the given room below the
limit, and inside a chain that has charged for as much as given. -/
structure Cursor.At (g : Grammar) (n room charged : Nat) (c : Cursor) : Prop where
  few : c.ahead.length < n
  genuine : ∀ t ∈ c.ahead, t.Genuine
  room : c.depth + room = g.limit
  charged : c.charged = charged

theorem TokenKind.isNameLike_ne {k : TokenKind} (h : k.isNameLike = true) : k ≠ .endOfText := by
  rintro rfl
  cases h

namespace Cursor

variable {g : Grammar} {n m r q : Nat} {c : Cursor} {k : TokenKind}

theorem At.mono (h : c.At g n r q) (hn : n ≤ m) : c.At g m r q :=
  { h with few := Nat.lt_of_lt_of_le h.few hn }

theorem At.pos (h : c.At g n r q) : 0 < n := Nat.lt_of_le_of_lt (Nat.zero_le _) h.few

theorem At.genuine_current (h : c.At g n r q) (hk : c.current.kind ≠ .endOfText) :
    c.current.Genuine := by
  obtain ⟨ts, ha⟩ := ahead_of_kind hk
  exact h.genuine _ (by rw [ha]; exact List.mem_cons_self)

theorem At.moved (h : c.At g n r q) : c.moved.At g n r q where
  few := Nat.lt_of_le_of_lt (by show c.ahead.tail.length ≤ _; simp) h.few
  genuine t ht := h.genuine t (List.mem_of_mem_tail ht)
  room := h.room
  charged := h.charged

theorem kind_of_next? (h : c.next? = some k) : c.moved.current.kind = k := by
  unfold next? at h
  unfold moved current
  rcases ha : c.ahead with _ | ⟨t, _ | ⟨t', ts⟩⟩ <;> rw [ha] at h <;> dsimp only at h ⊢
  · cases he : c.ending <;> rw [he] at h <;> cases h
    rfl
  · cases he : c.ending <;> rw [he] at h <;> cases h
    rfl
  · cases h
    rfl

/-- Past a token there is one less ahead. -/
theorem At.passed (h : c.At g n r q) (hk : c.current.kind ≠ .endOfText) :
    c.moved.At g (n - 1) r q := by
  obtain ⟨ts, ha⟩ := ahead_of_kind hk
  have hfew := h.few
  refine { h.moved with few := ?_ }
  show c.ahead.tail.length < n - 1
  rw [ha, List.length_cons] at hfew
  rw [ha, List.tail_cons]
  omega

end Cursor

namespace Reader

open Step (Ensures ensures_pure ensures_throw)
open Cursor (At)

variable {α β : Type} {g : Grammar} {N n r l q : Nat} {k : TokenKind} {t : Token}
  {m : Reader α} {P : Cursor → Prop} {R : β → Cursor → Prop}

/-- A step that leaves the cursor as it was told to be. -/
def Leaves (P : Cursor → Prop) (m : Reader α) (Q : α → Prop) : Prop :=
  Ensures P m fun x d => Q x ∧ P d

/-! ### Looking and moving on -/

theorem ensures_current {f : Token → Reader β}
    (h : ∀ t, Ensures (fun c => P c ∧ c.current = t) (f t) R) : Ensures P (current >>= f) R :=
  fun c hc => h c.current c ⟨hc, rfl⟩

theorem ensures_kind {f : TokenKind → Reader β}
    (h : ∀ t, Ensures (fun c => P c ∧ c.current = t) (f t.kind) R) :
    Ensures P (kind >>= f) R :=
  fun c hc => h c.current c ⟨hc, rfl⟩

/-- The token at hand is the one that it is known to be. -/
theorem ensuresAt_current {f : Token → Reader β}
    (h : Ensures (fun c => P c ∧ c.current = t) (f t) R) :
    Ensures (fun c => P c ∧ c.current = t) (current >>= f) R :=
  fun c hc => by
    obtain ⟨hp, rfl⟩ := hc
    exact h c ⟨hp, rfl⟩

theorem ensuresAt_name {f : Name → Reader β}
    (h : Ensures (fun c => P c ∧ c.current = t) (f ⟨t.value, t.span⟩) R) :
    Ensures (fun c => P c ∧ c.current = t) (name >>= f) R :=
  ensuresAt_current (f := fun t => f ⟨t.value, t.span⟩) h

theorem ensures_get {f : Cursor → Reader β} (h : ∀ c, Ensures (fun d => P d ∧ d = c) (f c) R) :
    Ensures P (MonadState.get >>= f) R :=
  fun c hc => h c c ⟨hc, rfl⟩

theorem ensures_spanFrom {start : Nat} {f : Span → Reader β} (h : ∀ s, Ensures P (f s) R) :
    Ensures P (spanFrom start >>= f) R :=
  fun c hc => h (.ofBounds start c.lastStop) c hc

theorem ensures_fail (cause : Cause) (span : Span) (Q : α → Cursor → Prop) :
    Ensures P (fail cause span) Q := ensures_throw _

theorem ensures_fail_bind (cause : Cause) (span : Span) (f : α → Reader β) :
    Ensures P (fail cause span >>= f) R :=
  (ensures_fail cause span fun _ _ => False).bind fun _ _ h => h.elim

theorem ensures_unexpected (Q : α → Cursor → Prop) : Ensures P unexpected Q := by
  refine ensures_current fun t => ?_
  split <;> exact ensures_fail _ _ _

theorem ensures_meetFault : Leaves P meetFault fun _ => True := by
  intro c hc x d heq
  rw [meetFault_apply] at heq
  cases hf : c.fault? <;> rw [hf] at heq <;> cases heq
  exact ⟨trivial, hc⟩

theorem ensures_advance_to {p : Prop} {I : Cursor → Prop} (h : ∀ c, P c → p ∧ I c.moved) :
    Ensures P advance fun _ d => p ∧ I d := by
  refine Ensures.bind (Q := fun _ d => p ∧ I d) (fun c hc x d heq => ?_) fun _ c hc => ?_
  · cases heq
    exact h c hc
  · intro x d heq
    exact ⟨hc.1, (ensures_meetFault c hc.2 x d heq).2⟩

theorem leaves_advance : Leaves (At g n r q) advance fun _ => True :=
  ensures_advance_to fun _ h => ⟨trivial, h.moved⟩

/-- Moving on from a token as given. -/
theorem ensures_advance (hk : t.kind ≠ .endOfText) :
    Ensures (fun c => c.At g n r q ∧ c.current = t) advance
      fun _ d => True ∧ d.At g (n - 1) r q :=
  ensures_advance_to fun _ h => ⟨trivial, h.1.passed (h.2 ▸ hk)⟩

/-- A token that is no end of the text is the one that its text is. -/
theorem ensures_genuine {Q : α → Cursor → Prop} (hk : t.kind ≠ .endOfText)
    (h : t.Genuine → Ensures (fun c => c.At g n r q ∧ c.current = t) m Q) :
    Ensures (fun c => c.At g n r q ∧ c.current = t) m Q :=
  fun c hc => h (hc.2 ▸ hc.1.genuine_current (hc.2.symm ▸ hk)) c hc

theorem leaves_expect (k : TokenKind) : Leaves (At g n r q) (expect k) fun _ => True := by
  refine ensures_current fun t => ?_
  split
  · exact leaves_advance.from fun _ h => h.1
  · exact ensures_fail _ _ _

/-! ### Going deeper -/

theorem of_enter {limit : Nat} {c d : Cursor} {x : Unit} (h : enter limit c = (.ok x, d)) :
    c.depth + 1 ≤ limit ∧ d = { c with depth := c.depth + 1 } := by
  rw [enter_apply] at h
  split at h <;> cases h
  rename_i hlt
  exact ⟨Nat.not_lt.mp hlt, rfl⟩

/-- One level deeper there is one level less of room. -/
theorem ensures_within {j : Nat} {Q : Nat → α → Prop} {p : TokenKind → Prop}
    (h : ∀ r', r = r' + 1 →
      Ensures (At g n r' q) m fun x d => Q r' x ∧ p d.current.kind ∧ d.At g j r' q) :
    Ensures (At g n r q) (within g.limit m)
      fun x d => (∃ r', r = r' + 1 ∧ Q r' x) ∧ p d.current.kind ∧ d.At g j r q := by
  have entered : Ensures (At g n r q) (enter g.limit) fun _ d =>
      ∃ r', r = r' + 1 ∧ r ≤ g.limit ∧ d.At g n r' q := by
    intro c hc x d heq
    obtain ⟨hd, rfl⟩ := of_enter heq
    have hroom := hc.room
    obtain ⟨r', rfl⟩ : ∃ r', r = r' + 1 := ⟨r - 1, by omega⟩
    exact ⟨r', rfl, by omega, { hc with room := by show c.depth + 1 + r' = _; omega }⟩
  refine entered.bind fun _ c ⟨r', hr, hle, hc⟩ x d heq => ?_
  rcases hm : m c with ⟨e | y, d'⟩ <;> simp only [andFinally, hm] at heq <;> cases heq
  obtain ⟨hq, hp, hd'⟩ := h r' hr c hc _ _ hm
  have hroom := hd'.room
  refine ⟨⟨r', hr, hq⟩, hp, { hd' with room := ?_ }⟩
  show d'.depth - 1 + r = g.limit
  omega

/-- A link of a chain takes room and is charged for. -/
theorem ensures_charge {R : α → Cursor → Prop}
    (h : ∀ l', l = l' + 1 → Ensures (At g n l' (q + 1)) m R) :
    Ensures (At g n l q) (charge g.limit >>= fun _ => m) R := by
  have charged : Ensures (At g n l q) (charge g.limit) fun _ d =>
      ∃ l', l = l' + 1 ∧ d.At g n l' (q + 1) := by
    intro c hc x d heq
    obtain ⟨hd, rfl⟩ := of_enter (c := { c with charged := c.charged + 1 }) heq
    have hd : c.depth + 1 ≤ g.limit := hd
    have hroom := hc.room
    obtain ⟨l', rfl⟩ : ∃ l', l = l' + 1 := ⟨l - 1, by omega⟩
    exact ⟨l', rfl, hc.few, hc.genuine, by show c.depth + 1 + l' = _; omega,
      congrArg (· + 1) hc.charged⟩
  exact charged.bind fun _ c ⟨l', hl', hc⟩ => h l' hl' c hc

/-- At its end a chain has charged for the room it has taken. -/
theorem ensures_charging {j : Nat} {Q : α → Prop} {p : TokenKind → Prop}
    (h : Ensures (fun c => c.At g n r 0 ∧ c.current = t) m fun x d =>
      ∃ l, l ≤ r ∧ Q x ∧ p d.current.kind ∧ d.At g j l (r - l)) :
    Ensures (fun c => c.At g n r q ∧ c.current = t) (charging m)
      fun x d => Q x ∧ p d.current.kind ∧ d.At g j r q := by
  intro c ⟨hc, ht⟩ x d heq
  have hin : Cursor.At g n r 0 { c with charged := 0 } := { hc with charged := rfl }
  rcases hm : m { c with charged := 0 } with ⟨e | y, d'⟩ <;>
    simp only [charging, andFinally, hm] at heq <;> cases heq
  obtain ⟨l, hl, hx, hp, hd'⟩ := h _ ⟨hin, ht⟩ _ _ hm
  have hroom := hc.room
  have hroom' := hd'.room
  have hcharged := hd'.charged
  refine ⟨hx, hp, { hd' with room := ?_, charged := hc.charged }⟩
  show d'.depth - d'.charged + r = g.limit
  omega

/-! ### Lists -/

section
variable {item : Reader α} {Q : α → Prop} (close : TokenKind) (h : Leaves (At g n r q) item Q)
include h

theorem leaves_itemsUpTo : ∀ fuel : Nat,
    Leaves (At g n r q) (itemsUpTo close item fuel) fun xs => ∀ x ∈ xs, Q x
  | 0 => by
    refine h.andThen fun x hx => (leaves_expect close).andThen fun _ _ =>
      ensures_pure fun c hc => ?_
    exact ⟨List.forall_mem_singleton.mpr hx, hc⟩
  | fuel + 1 => by
    refine h.andThen fun x hx => ensures_kind fun t => Ensures.from ?_ fun _ h => h.1
    split
    · refine leaves_advance.andThen fun _ _ => (leaves_itemsUpTo fuel).andThen fun xs hxs => ?_
      exact ensures_pure fun c hc => ⟨List.forall_mem_cons.mpr ⟨hx, hxs⟩, hc⟩
    · refine (leaves_expect close).andThen fun _ _ => ensures_pure fun c hc => ?_
      exact ⟨List.forall_mem_singleton.mpr hx, hc⟩

theorem leaves_listUpTo (fuel : Nat) :
    Leaves (At g n r q) (listUpTo close item fuel) fun xs => ∀ x ∈ xs, Q x := by
  refine ensures_kind fun t => Ensures.from ?_ fun _ h => h.1
  split
  · exact leaves_advance.andThen fun _ _ => ensures_pure fun c hc => ⟨List.forall_mem_nil _, hc⟩
  · exact leaves_itemsUpTo close h fuel

end

end Reader
end QueryExpr
