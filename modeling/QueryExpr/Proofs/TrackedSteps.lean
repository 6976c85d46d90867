/-
# Steps of reading, moved and in order

What stands ahead of a cursor lies in a row: behind the last token passed, one
token behind the other, up to a position that nothing reaches beyond. A map of
positions that keeps their order moves the tokens ahead; a step of reading then
comes to the same, moved by the map. And what a step yields lies between where
it started and the last token it passed.

Both are followed at once, from cursors in a row. The step that is taken on the
moved tokens may make its spans in a way of its own, as long as that comes to
the same for two positions in order.

Key definitions: `Cursor.relocate`, `Cursor.InRow`, `Reader.Tracks`,
`Reader.Lays`.
Key theorems: `Reader.Tracks.bind`, `Reader.tracks_advance`,
`Reader.tracks_spanFrom`, `Reader.lays_listUpTo`.
-/
import QueryExpr.Proofs.BoundedReading
import QueryExpr.Proofs.LaidExpr
import QueryExpr.Proofs.ReadingSteps

namespace QueryExpr

variable {f : Nat → Nat} {hi a b : Nat}

/-! ### Tokens in a row -/

/-- Tokens behind a position, one behind the other, each of which covers
something, and then the end or a fault, which is not beyond `hi`. -/
def Row (hi : Nat) (ending : Except Failure Nat) : Nat → List Token → Prop
  | a, [] =>
    match ending with
    | .ok p => a ≤ p ∧ p ≤ hi
    | .error failure => a ≤ failure.span.start ∧ failure.span.stop ≤ hi
  | a, t :: ts => a ≤ t.span.start ∧ 0 < t.span.length ∧ Row hi ending t.stop ts

theorem Row.le {ending : Except Failure Nat} : ∀ {a : Nat} {ts : List Token},
    Row hi ending a ts → a ≤ hi
  | a, [], h => by
    cases ending with
    | ok p => exact Nat.le_trans h.1 h.2
    | error failure => exact Nat.le_trans h.1 (Nat.le_trans failure.span.start_le_stop h.2)
  | a, t :: ts, ⟨hstart, _, hrest⟩ =>
    Nat.le_trans hstart (Nat.le_trans t.span.start_le_stop hrest.le)

theorem Token.relocate_endAt (p : Nat) : (endAt p).relocate f = endAt (f p) := by
  rw [relocate, endAt, Span.relocate_empty]
  rfl

/-- A token behind a position; unless it is the end, it covers something. -/
structure Token.After (a : Nat) (t : Token) : Prop where
  start : a ≤ t.span.start
  covers : t.kind ≠ .endOfText → t.span.start < t.stop

theorem Token.After.le (t : Token) (h : t.After a) : a ≤ t.stop :=
  Nat.le_trans h.start t.span.start_le_stop

namespace Cursor

variable {c : Cursor}

/-- The cursor among the moved tokens. -/
def relocate (f : Nat → Nat) (c : Cursor) : Cursor :=
  { c with
    ahead := c.ahead.map (Token.relocate f)
    ending := relocated f f c.ending
    lastStop := f c.lastStop }

theorem current_relocate (c : Cursor) : (c.relocate f).current = c.current.relocate f := by
  rcases c with ⟨_ | ⟨t, ts⟩, failure | p, _, _, _⟩
  · exact (Token.relocate_endAt failure.span.start).symm
  · exact (Token.relocate_endAt p).symm
  all_goals rfl

theorem next?_relocate (c : Cursor) : (c.relocate f).next? = c.next? := by
  rcases c with ⟨_ | ⟨t, _ | ⟨t', ts⟩⟩, p | failure, _, _, _⟩ <;> rfl

theorem fault?_relocate (c : Cursor) :
    (c.relocate f).fault? = c.fault?.map (Failure.relocate f) := by
  rcases c with ⟨_ | ⟨t, ts⟩, p | failure, _, _, _⟩ <;> rfl

theorem moved_relocate (hf : Monotone f) (c : Cursor) :
    (c.relocate f).moved = c.moved.relocate f := by
  have hstop : (c.relocate f).current.stop = f c.current.stop := by
    rw [current_relocate]
    exact Span.stop_relocate hf
  rw [moved, hstop]
  simp [relocate, moved]

/-- The cursor is behind a position, and what is ahead of it is in a row. -/
structure InRow (hi a : Nat) (c : Cursor) : Prop where
  row : Row hi c.ending c.lastStop c.ahead
  le : a ≤ c.lastStop

theorem InRow.mono (h : c.InRow hi b) (hle : a ≤ b) : c.InRow hi a :=
  { h with le := Nat.le_trans hle h.le }

theorem InRow.current (h : c.InRow hi a) : c.current.After a := by
  obtain ⟨hrow, hle⟩ := h
  rcases c with ⟨_ | ⟨t, ts⟩, failure | p, _, _, _⟩
  · exact ⟨Nat.le_trans hle hrow.1, fun h => absurd rfl h⟩
  · exact ⟨Nat.le_trans hle hrow.1, fun h => absurd rfl h⟩
  all_goals exact ⟨Nat.le_trans hle hrow.1, fun _ => Nat.lt_add_of_pos_right hrow.2.1⟩

theorem InRow.moved (h : c.InRow hi a) : c.moved.InRow hi c.current.stop := by
  obtain ⟨hrow, hle⟩ := h
  rcases c with ⟨_ | ⟨t, ts⟩, failure | p, _, _, _⟩
  · exact ⟨⟨Nat.le_refl _, hrow.2⟩, Nat.le_refl _⟩
  · exact ⟨⟨Nat.le_refl _, hrow.2⟩, Nat.le_refl _⟩
  all_goals exact ⟨hrow.2.2, Nat.le_refl _⟩

end Cursor

namespace Reader

open Cursor (InRow)

variable {α β γ δ : Type} {h : α → β} {k : γ → δ} {P P' : Cursor → Prop} {m : Reader α}
  {m' : Reader β} {F : α → Reader γ} {F' : β → Reader δ} {Q Q' : α → Cursor → Prop}
  {R : γ → Cursor → Prop} {t : Token}

/-! ### Two steps at once -/

/-- From a cursor as given the first step comes to something, and what it yields
and the cursor it leaves are as told; from the moved cursor the second step
comes to the same, moved. -/
def Tracks (f : Nat → Nat) (h : α → β) (P : Cursor → Prop) (m : Reader α) (m' : Reader β)
    (Q : α → Cursor → Prop) : Prop :=
  ∀ c, P c → m' (c.relocate f) = (relocated f h (m c).1, (m c).2.relocate f) ∧
    ∀ x d, m c = (.ok x, d) → Q x d

theorem tracks_pure {x : α} (hx : ∀ c, P c → Q x c) :
    Tracks f h P (pure x) (pure (h x)) Q :=
  fun c hc => ⟨rfl, fun y d heq => by cases heq; exact hx c hc⟩

theorem tracks_fail (cause : Cause) (span : Span) :
    Tracks f h P (fail cause span) (fail cause (span.relocate f)) Q :=
  fun _ _ => ⟨rfl, fun _ _ heq => by cases heq⟩

theorem Tracks.from (hm : Tracks f h P m m' Q) (hp : ∀ c, P' c → P c) : Tracks f h P' m m' Q :=
  fun c hc => hm c (hp c hc)

theorem Tracks.mono (hm : Tracks f h P m m' Q) (hq : ∀ x d, Q x d → Q' x d) :
    Tracks f h P m m' Q' :=
  fun c hc => ⟨(hm c hc).1, fun x d heq => hq x d ((hm c hc).2 x d heq)⟩

theorem Tracks.bind (hm : Tracks f h P m m' Q) (hF : ∀ x, Tracks f k (Q x) (F x) (F' (h x)) R) :
    Tracks f k P (m >>= F) (m' >>= F') R := by
  intro c hc
  obtain ⟨heq, hq⟩ := hm c hc
  rw [Step.bind_apply, Step.bind_apply, heq]
  rcases hstep : m c with ⟨failure | x, d⟩
  · exact ⟨rfl, fun _ _ heq => by cases heq⟩
  · exact hF x d (hq x d hstep)

theorem tracks_fail_bind (cause : Cause) (span : Span) :
    Tracks f k P (fail cause span >>= F) (fail cause (span.relocate f) >>= F') R :=
  fun _ _ => ⟨rfl, fun _ _ heq => by cases heq⟩

/-! ### Looking and moving on -/

/-- The token at hand, of which no more is known than that it is behind a
position. -/
theorem tracks_current {F : Token → Reader γ} {F' : Token → Reader δ}
    (H : ∀ t, t.After a →
      Tracks f k (fun c => c.InRow hi a ∧ c.current = t) (F t) (F' (t.relocate f)) R) :
    Tracks f k (InRow hi a) (current >>= F) (current >>= F') R := by
  intro c hc
  rw [current_bind, current_bind, c.current_relocate]
  exact H c.current hc.current c ⟨hc, rfl⟩

/-- The token at hand is the one that it is known to be. -/
theorem tracksAt_current {F : Token → Reader γ} {F' : Token → Reader δ}
    (H : Tracks f k (fun c => c.InRow hi a ∧ c.current = t) (F t) (F' (t.relocate f)) R) :
    Tracks f k (fun c => c.InRow hi a ∧ c.current = t) (current >>= F) (current >>= F') R := by
  rintro c ⟨hc, rfl⟩
  rw [current_bind, current_bind, c.current_relocate]
  exact H c ⟨hc, rfl⟩

theorem tracksAt_name {F : Name → Reader γ} {F' : Name → Reader δ}
    (H : Tracks f k (fun c => c.InRow hi a ∧ c.current = t) (F ⟨t.value, t.span⟩)
      (F' ⟨t.value, t.span.relocate f⟩) R) :
    Tracks f k (fun c => c.InRow hi a ∧ c.current = t) (name >>= F) (name >>= F') R := by
  show Tracks f k _ (current >>= fun t => F ⟨t.value, t.span⟩)
    (current >>= fun t => F' ⟨t.value, t.span⟩) R
  exact tracksAt_current H

theorem tracks_kind {F : TokenKind → Reader γ} {F' : TokenKind → Reader δ}
    (H : ∀ t, t.After a →
      Tracks f k (fun c => c.InRow hi a ∧ c.current = t) (F t.kind) (F' t.kind) R) :
    Tracks f k (InRow hi a) (kind >>= F) (kind >>= F') R := by
  intro c hc
  rw [kind_bind, kind_bind, c.current_relocate]
  exact H c.current hc.current c ⟨hc, rfl⟩

theorem tracks_get {F : Cursor → Reader γ} {F' : Cursor → Reader δ}
    (H : ∀ c, Tracks f k P (F c) (F' (c.relocate f)) R) :
    Tracks f k P (MonadState.get >>= F) (MonadState.get >>= F') R :=
  fun c hc => H c c hc

/-- Whatever token is at hand. -/
theorem Tracks.whatever
    (H : ∀ t, t.After a → Tracks f h (fun c => c.InRow hi a ∧ c.current = t) m m' Q) :
    Tracks f h (InRow hi a) m m' Q :=
  fun c hc => H c.current hc.current c ⟨hc, rfl⟩

theorem tracks_meetFault : Tracks f id P meetFault meetFault fun _ d => P d := by
  intro c hc
  rw [meetFault_apply, meetFault_apply, c.fault?_relocate]
  cases c.fault? with
  | none => exact ⟨rfl, fun _ _ heq => by cases heq; exact hc⟩
  | some failure => exact ⟨rfl, fun _ _ heq => by cases heq⟩

section
variable (hf : Monotone f)
include hf

/-- Moving on from a token as given. -/
theorem tracks_advance :
    Tracks f id (fun c => c.InRow hi a ∧ c.current = t) advance advance
      fun _ d => d.InRow hi t.stop := by
  refine Tracks.bind (Q := fun _ d => d.InRow hi t.stop) (h := id) (fun c hc => ?_) fun _ =>
    tracks_meetFault
  obtain ⟨hc, rfl⟩ := hc
  exact ⟨congrArg (Prod.mk _) (c.moved_relocate hf), fun _ _ heq => by cases heq; exact hc.moved⟩

theorem tracks_pass : Tracks f id (InRow hi a) advance advance fun _ d => d.InRow hi a :=
  fun c hc => (((tracks_advance hf).mono fun _ _ hd => hd.mono (hc.current.le)) c ⟨hc, rfl⟩)

theorem tracks_expect (kind : TokenKind) :
    Tracks f id (InRow hi a) (expect kind) (expect kind) fun _ d => d.InRow hi a := by
  refine tracks_current fun t ht => ?_
  show Tracks f id _ (if t.kind == kind then _ else _) (if t.kind == kind then _ else _) _
  split
  · exact (tracks_advance hf).mono fun _ _ hd => hd.mono ht.le
  · exact tracks_fail _ _

end

theorem tracks_unexpected : Tracks f h (InRow hi a) unexpected unexpected Q := by
  refine tracks_current fun t _ => ?_
  show Tracks f h _ (if t.kind == .endOfText then _ else _)
    (if t.kind == .endOfText then _ else _) _
  split <;> exact tracks_fail _ _

/-! ### Going deeper -/

theorem tracks_enter (limit : Nat) :
    Tracks f id (InRow hi a) (enter limit) (enter limit) fun _ d => d.InRow hi a := by
  intro c hc
  rw [enter_apply, enter_apply, c.current_relocate]
  show (if limit < c.depth + 1 then _ else _, _) = _ ∧ _
  split
  · exact ⟨rfl, fun _ _ heq => by cases heq⟩
  · exact ⟨rfl, fun _ _ heq => by cases heq; exact ⟨hc.row, hc.le⟩⟩

theorem tracks_charge (limit : Nat) :
    Tracks f id (InRow hi a) (charge limit) (charge limit) fun _ d => d.InRow hi a :=
  Tracks.bind (Q := fun _ d => d.InRow hi a) (h := id)
    (fun c hc => ⟨rfl, fun _ _ heq => by cases heq; exact ⟨hc.row, hc.le⟩⟩) fun _ =>
    tracks_enter limit

/-- Between two positions the first step yields something, and passes no token
beyond the second one. -/
def Yields (Fits : Nat → α → Nat → Prop) (hi a : Nat) (x : α) (d : Cursor) : Prop :=
  ∃ b, Fits a x b ∧ d.InRow hi b

variable {Fits : Nat → α → Nat → Prop}

/-- A step that only looks at what is ahead and at the last token passed may
change the depth before or behind it. -/
theorem Yields.of_row {x : α} {d d' : Cursor} (hd : Yields Fits hi a x d)
    (hahead : d'.ahead = d.ahead) (hending : d'.ending = d.ending)
    (hlast : d'.lastStop = d.lastStop) : Yields Fits hi a x d' := by
  obtain ⟨b, hx, hrow, hle⟩ := hd
  exact ⟨b, hx, by rw [hahead, hending, hlast]; exact hrow, by rw [hlast]; exact hle⟩

theorem Tracks.within (hm : Tracks f h (InRow hi b) m m' (Yields Fits hi a)) (limit : Nat) :
    Tracks f h (InRow hi b) (within limit m) (within limit m') (Yields Fits hi a) := by
  refine (tracks_enter limit).bind fun _ c hc => ?_
  obtain ⟨heq, hq⟩ := hm c hc
  unfold andFinally
  dsimp only
  rw [heq]
  refine ⟨rfl, fun x d hxd => ?_⟩
  obtain ⟨hx, rfl⟩ := Prod.mk.inj hxd
  exact (hq x _ (Prod.ext hx rfl)).of_row rfl rfl rfl

theorem Tracks.charging (hm : Tracks f h (InRow hi b) m m' (Yields Fits hi a)) :
    Tracks f h (InRow hi b) (charging m) (charging m') (Yields Fits hi a) := by
  intro c hc
  obtain ⟨heq, hq⟩ := hm { c with charged := 0 } ⟨hc.row, hc.le⟩
  have heq' : m' { c.relocate f with charged := 0 } = _ := heq
  unfold Reader.charging andFinally
  dsimp only
  rw [heq']
  refine ⟨rfl, fun x d hxd => ?_⟩
  obtain ⟨hx, rfl⟩ := Prod.mk.inj hxd
  exact (hq x _ (Prod.ext hx rfl)).of_row rfl rfl rfl

/-! ### Spans -/

section
variable {bounds : Nat → Nat → Reader Span}
  (hb : ∀ a b, a ≤ b → bounds a b = pure (Span.ofBounds a b))
include hb

theorem unionBy_eq (s t : Span) : unionBy bounds s t = pure (s.union t) :=
  hb _ _ (Nat.le_trans (Nat.min_le_left _ _) (Nat.le_trans s.start_le_stop (Nat.le_max_left _ _)))

/-- The span up to the last token passed. -/
theorem tracks_spanFrom (hf : Monotone f) {start : Nat} (hstart : start ≤ a)
    {F : Span → Reader γ} {F' : Span → Reader δ}
    (H : ∀ s : Span, s.start = start → a ≤ s.stop →
      Tracks f k (InRow hi s.stop) (F s) (F' (s.relocate f)) R) :
    Tracks f k (InRow hi a) (spanFrom start >>= F) (spanFromBy bounds (f start) >>= F') R := by
  intro c hc
  have hle : start ≤ c.lastStop := Nat.le_trans hstart hc.le
  have hstop : (Span.ofBounds start c.lastStop).stop = c.lastStop := Span.stop_ofBounds hle
  have hspan : (spanFromBy bounds (f start) >>= F') (c.relocate f) =
      F' ((Span.ofBounds start c.lastStop).relocate f) (c.relocate f) := by
    rw [Span.relocate_ofBounds hle, spanFromBy, bind_assoc, get_bind]
    show (bounds (f start) (f c.lastStop) >>= F') _ = _
    rw [hb _ _ (hf hle), pure_bind]
  rw [hspan]
  exact H (.ofBounds start c.lastStop) rfl (by rw [hstop]; exact hc.le) c
    ⟨hc.row, Nat.le_of_eq hstop⟩

end

/-! ### Lists -/

/-- From every position on the first step yields something between there and
the last token it passes. -/
def Lays (f : Nat → Nat) (hi : Nat) (Fits : Nat → α → Nat → Prop) (h : α → β) (m : Reader α)
    (m' : Reader β) : Prop :=
  ∀ a, Tracks f h (InRow hi a) m m' (Yields Fits hi a)

/-- What follows a step that yields something goes on behind it. -/
theorem Tracks.andThen (hm : Tracks f h P m m' (Yields Fits hi a))
    (hF : ∀ x b, Fits a x b → Tracks f k (InRow hi b) (F x) (F' (h x)) R) :
    Tracks f k P (m >>= F) (m' >>= F') R :=
  hm.bind fun x d ⟨b, hx, hd⟩ => hF x b hx d hd

theorem lays_itemsUpTo (hf : Monotone f) (close : TokenKind) (hm : Lays f hi Fits h m m') :
    ∀ fuel, Lays f hi (Chain Fits) (List.map h) (itemsUpTo close m fuel) (itemsUpTo close m' fuel)
  | 0, a => (hm a).andThen fun x b hx => (tracks_expect hf close).bind fun _ =>
      tracks_pure (h := List.map h) fun d hd => ⟨b, .cons hx (.nil (Nat.le_refl b)), hd⟩
  | fuel + 1, a => by
    refine (hm a).andThen fun x b hx => tracks_kind fun t ht => ?_
    split
    · refine (tracks_advance hf).bind fun _ => ?_
      refine ((lays_itemsUpTo hf close hm fuel b).from fun _ hc => hc.mono ht.le).andThen
        fun xs b hxs => tracks_pure (h := List.map h) fun d hd => ⟨b, .cons hx hxs, hd⟩
    · refine ((tracks_expect hf close).from fun _ hc => hc.1).bind fun _ =>
        tracks_pure (h := List.map h) fun d hd => ⟨b, .cons hx (.nil (Nat.le_refl b)), hd⟩

theorem lays_listUpTo (hf : Monotone f) (close : TokenKind) (hm : Lays f hi Fits h m m')
    (fuel : Nat) :
    Lays f hi (Chain Fits) (List.map h) (listUpTo close m fuel) (listUpTo close m' fuel) := by
  intro a
  refine tracks_kind fun t ht => ?_
  split
  · refine (tracks_advance hf).bind fun _ => tracks_pure (h := List.map h) fun d hd => ?_
    exact ⟨t.stop, .nil ht.le, hd⟩
  · exact (lays_itemsUpTo hf close hm fuel a).from fun _ hc => hc.1

end Reader
end QueryExpr
