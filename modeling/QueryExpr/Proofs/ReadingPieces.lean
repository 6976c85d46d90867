/-
# Reading from pieces

What the steps of the parser do at a cursor that has the words of given pieces
ahead: which token they see, how they move on, and that with room enough they
go deeper and come back to the same depth.

Key definitions: `follow`, `weight`, `Cursor.On`.
Key theorems: `Cursor.On.current`, `Reader.achieves_within`,
`Reader.achieves_charging`, `Reader.achieves_listUpTo`.
-/
import QueryExpr.Proofs.ReadingSteps
import QueryExpr.Proofs.RenderedTokens

namespace QueryExpr

open Lexeme

/-- The kind of the token that a word is. -/
def kindOf (w : String) : TokenKind := ((whole? w.toList).map (·.1)).getD .unknown

/-- The kind of the first token of the pieces. -/
def follow (ps : List String) : TokenKind :=
  ((ps.flatMap wordsOf).head?.map kindOf).getD .endOfText

/-- The number of words of the pieces. -/
def weight (ps : List String) : Nat := (ps.flatMap wordsOf).length

variable {ps qs : List String} {p w : String} {k : TokenKind}

/-! ### Words and pieces -/

theorem TokenKind.Shows.kindOf (h : k.Shows w) : kindOf w = k := by
  unfold QueryExpr.kindOf
  rw [h]
  rfl

namespace Token.Genuine

variable {t t' : Token}

theorem kind_eq (h : t.Genuine) (hk : k.Shows t.written) : t.kind = k :=
  h.shows.kindOf.symm.trans hk.kindOf

/-- Tokens that are written alike are alike. -/
theorem alike (h : t.Genuine) (h' : t'.Genuine) (hw : t.written = t'.written) :
    t.kind = t'.kind ∧ t.value = t'.value := by
  unfold Genuine at h h'
  rw [hw, h'] at h
  injection h with h
  exact ⟨(congrArg Prod.fst h).symm, (String.toList_inj.mp (congrArg Prod.snd h)).symm⟩

theorem value_eq (h : t.Genuine) (hw : t.written = w) (hk : k.Spells w) : t.value = w := by
  subst hw
  unfold Genuine at h
  rw [hk] at h
  injection h with h
  exact (String.toList_inj.mp (congrArg Prod.snd h)).symm

end Token.Genuine

theorem wordsOf_ne_nil (p : String) : wordsOf p ≠ [] := by
  unfold wordsOf
  split <;> exact List.cons_ne_nil _ _

theorem weight_append (ps qs : List String) : weight (ps ++ qs) = weight ps + weight qs := by
  unfold weight
  rw [List.flatMap_append, List.length_append]

/-- Every piece has a word at least. -/
theorem lt_weight_cons (p : String) (ps : List String) : weight ps < weight (p :: ps) := by
  have := List.length_pos_iff.mpr (wordsOf_ne_nil p)
  unfold weight
  rw [List.flatMap_cons, List.length_append]
  omega

theorem weight_word (h : k.Shows w) (ps : List String) : weight (w :: ps) = weight ps + 1 := by
  unfold weight
  rw [List.flatMap_cons, wordsOf_word h.word]
  rfl

theorem weight_pos (h : ps ≠ []) : 0 < weight ps := by
  cases ps with
  | nil => exact absurd rfl h
  | cons p ps => exact Nat.lt_of_le_of_lt (Nat.zero_le _) (lt_weight_cons p ps)

theorem follow_word (h : k.Shows w) (ps : List String) : follow (w :: ps) = k := by
  unfold follow
  rw [List.flatMap_cons, wordsOf_word h.word]
  exact h.kindOf

theorem follow_cons (p : String) (ps qs : List String) : follow (p :: ps) = follow (p :: qs) := by
  unfold follow
  rw [List.flatMap_cons, List.flatMap_cons]
  cases h : wordsOf p with
  | nil => exact absurd h (wordsOf_ne_nil p)
  | cons w ws => rfl

theorem follow_append (h : ps ≠ []) (qs : List String) : follow (ps ++ qs) = follow ps := by
  cases ps with
  | nil => exact absurd rfl h
  | cons p ps => exact follow_cons p _ _

theorem commas_cons (ps qs : List String) (pss : List (List String)) :
    commas (ps :: qs :: pss) = ps ++ "," :: commas (qs :: pss) := rfl

theorem weight_le_commas {pss : List (List String)} (h : ps ∈ pss) :
    weight ps ≤ weight (commas pss) := by
  induction pss with
  | nil => cases h
  | cons qs pss ih =>
    cases pss with
    | nil =>
      obtain rfl := List.mem_singleton.mp h
      exact Nat.le_refl _
    | cons qs' pss =>
      have hlt := lt_weight_cons "," (commas (qs' :: pss))
      rw [commas_cons, weight_append]
      rcases List.mem_cons.mp h with rfl | h
      · omega
      · have := ih h
        omega

theorem length_le_commas {pss : List (List String)} (h : ∀ ps ∈ pss, ps ≠ []) :
    pss.length ≤ weight (commas pss) := by
  induction pss with
  | nil => exact Nat.zero_le _
  | cons ps pss ih =>
    have hps := weight_pos (h ps List.mem_cons_self)
    have ih := ih fun ps hps => h ps (List.mem_cons_of_mem _ hps)
    cases pss with
    | nil => exact hps
    | cons ps' pss =>
      have hlt := lt_weight_cons "," (commas (ps' :: pss))
      rw [commas_cons, weight_append, List.length_cons]
      omega

/-! ### Cursors at pieces -/

/-- The cursor has the words of the pieces ahead, and no fault behind them; how
deep it is and what the current chain has charged is as given. -/
structure Cursor.On (ps : List String) (depth charged : Nat) (c : Cursor) : Prop where
  written : c.ahead.map Token.written = ps.flatMap wordsOf
  genuine : ∀ t ∈ c.ahead, t.Genuine
  ending : ∃ stop, c.ending = .ok stop
  depth : c.depth = depth
  charged : c.charged = charged

namespace Cursor

variable {c : Cursor} {D q : Nat}

theorem On.kind (h : c.On ps D q) : c.current.kind = follow ps := by
  have hw := h.written
  unfold follow
  rw [← hw]
  cases ha : c.ahead with
  | nil => exact kind_of_ahead ha
  | cons t ts =>
    have ht : t.Genuine := h.genuine t (by rw [ha]; exact List.mem_cons_self)
    have hcur : c.current = t := by unfold current; rw [ha]
    rw [hcur]
    exact ht.shows.kindOf.symm

/-- At a word the cursor is at the token that is written so. -/
theorem On.current (h : c.On (w :: ps) D q) (hw : Word w) :
    c.current.Genuine ∧ c.current.written = w ∧ c.moved.On ps D q := by
  have hwritten := h.written
  rw [List.flatMap_cons, wordsOf_word hw] at hwritten
  cases ha : c.ahead with
  | nil => rw [ha] at hwritten; cases hwritten
  | cons t ts =>
    rw [ha] at hwritten
    have hcur : c.current = t := by unfold Cursor.current; rw [ha]
    have htail : c.moved.ahead = ts := by show c.ahead.tail = ts; rw [ha]; rfl
    obtain ⟨h1, h2⟩ := List.cons.inj hwritten
    rw [hcur]
    refine ⟨h.genuine t (by rw [ha]; exact List.mem_cons_self), h1, ?_, ?_, h.ending, h.depth,
      h.charged⟩
    · rw [htail]
      exact h2
    · intro t' ht'
      rw [htail] at ht'
      exact h.genuine t' (by rw [ha]; exact List.mem_cons_of_mem _ ht')

theorem On.next? (h : c.On (w :: ps) D q) (hw : Word w) : c.next? = some (follow ps) := by
  have hkind := (h.current hw).2.2.kind
  rw [← hkind]
  obtain ⟨stop, he⟩ := h.ending
  unfold Cursor.next? moved Cursor.current
  rcases c.ahead with _ | ⟨t, _ | ⟨t', ts⟩⟩ <;> simp [he, Token.endAt]

theorem On.fault? (h : c.On ps D q) : c.fault? = none := by
  obtain ⟨stop, he⟩ := h.ending
  unfold Cursor.fault?
  rw [he]
  split <;> simp_all

end Cursor

namespace Reader

open Step (Achieves achieves_pure)
open Cursor (On)

variable {α β : Type} {D q limit : Nat} {P : Cursor → Prop} {R : β → Cursor → Prop}

/-! ### Looking and moving on -/

theorem achieves_kind {f : TokenKind → Reader β} (hk : follow ps = k)
    (h : Achieves (On ps D q) (f k) R) : Achieves (On ps D q) (kind >>= f) R := by
  intro c hc
  rw [kind_bind, hc.kind, hk]
  exact h c hc

theorem achieves_current {f : Token → Reader β} (hw : k.Shows w)
    (h : ∀ t : Token, t.Genuine → t.kind = k → t.written = w →
      Achieves (On (w :: ps) D q) (f t) R) :
    Achieves (On (w :: ps) D q) (current >>= f) R := by
  intro c hc
  obtain ⟨hg, hwritten, -⟩ := hc.current hw.word
  exact h c.current hg (hg.kind_eq (hwritten.symm ▸ hw)) hwritten c hc

theorem achieves_name {f : Name → Reader β} (hw : k.Spells w)
    (h : ∀ s, Achieves (On (w :: ps) D q) (f ⟨w, s⟩) R) :
    Achieves (On (w :: ps) D q) (name >>= f) R := by
  refine achieves_current (f := fun t => f ⟨t.value, t.span⟩) hw.shows fun t ht _ hwritten => ?_
  rw [ht.value_eq hwritten hw]
  exact h t.span

theorem achieves_get {f : Cursor → Reader β} (h : ∀ c, P c → Achieves P (f c) R) :
    Achieves P (MonadState.get >>= f) R := fun c hc => h c hc c hc

theorem achieves_spanFrom {start : Nat} {f : Span → Reader β} (h : ∀ s, Achieves P (f s) R) :
    Achieves P (spanFrom start >>= f) R := fun c hc => h (.ofBounds start c.lastStop) c hc

theorem achieves_meetFault : Achieves (On ps D q) meetFault fun _ d => True ∧ d.On ps D q := by
  intro c hc
  rw [meetFault_apply, hc.fault?]
  exact ⟨(), c, rfl, trivial, hc⟩

theorem achieves_advance (hw : k.Shows w) :
    Achieves (On (w :: ps) D q) advance fun _ d => True ∧ d.On ps D q :=
  fun c hc => achieves_meetFault c.moved (hc.current hw.word).2.2

theorem achieves_expect (hw : k.Shows w) :
    Achieves (On (w :: ps) D q) (expect k) fun _ d => True ∧ d.On ps D q := by
  refine achieves_current hw fun t _ hk _ => ?_
  rw [if_pos (beq_iff_eq.mpr hk)]
  exact achieves_advance hw

/-! ### Going deeper -/

theorem achieves_within {m : Reader α} {Q : α → Prop} (hD : D + 1 ≤ limit)
    (h : Achieves (On ps (D + 1) q) m fun x d => Q x ∧ d.On qs (D + 1) q) :
    Achieves (On ps D q) (within limit m) fun x d => Q x ∧ d.On qs D q := by
  intro c hc
  have hdepth : c.depth + 1 ≤ limit := hc.depth.symm ▸ hD
  obtain ⟨x, d, heq, hx, hd⟩ := h { c with depth := c.depth + 1 }
    { hc with depth := congrArg (· + 1) hc.depth }
  refine ⟨x, { d with depth := d.depth - 1 }, ?_, hx, { hd with depth := ?_ }⟩
  · unfold within
    rw [Step.bind_apply, enter_eq hdepth]
    simp only [andFinally, heq]
  · show d.depth - 1 = D
    rw [hd.depth, Nat.add_sub_cancel]

theorem achieves_charge (hD : D + 1 ≤ limit) :
    Achieves (On ps D q) (charge limit) fun _ d => True ∧ d.On ps (D + 1) (q + 1) := by
  intro c hc
  refine ⟨(), c.linked, charge_eq (hc.depth.symm ▸ hD), trivial, ?_⟩
  exact { hc with
    depth := congrArg (· + 1) hc.depth
    charged := congrArg (· + 1) hc.charged }

/-- A chain gives back what its links have charged for. -/
theorem achieves_charging {m : Reader α} {Q : α → Prop}
    (h : Achieves (On ps D 0) m fun x d => Q x ∧ ∃ j, d.On qs (D + j) j) :
    Achieves (On ps D q) (charging m) fun x d => Q x ∧ d.On qs D q := by
  intro c hc
  obtain ⟨x, d, heq, hx, j, hd⟩ := h { c with charged := 0 } { hc with charged := rfl }
  refine ⟨x, { d with depth := d.depth - d.charged, charged := c.charged }, ?_, hx,
    { hd with depth := ?_, charged := hc.charged }⟩
  · simp only [charging, andFinally, heq]
  · show d.depth - d.charged = D
    rw [hd.depth, hd.charged, Nat.add_sub_cancel]

/-! ### Lists -/

section
variable {item : Reader α} {text : α → List String} {f : α → β} {close : TokenKind} {c : String}
  {xs : List α} {rest : List String} {fuel : Nat} (hclose : close.Shows c) (hne : close ≠ .comma)
  (hitem : ∀ x ∈ xs, ∀ qs, follow qs = .comma ∨ follow qs = close →
    Achieves (On (text x ++ qs) D q) item fun y d => f y = f x ∧ d.On qs D q)
include hclose hne hitem

/-- Items with commas between them are read up to what `f` keeps of them. -/
theorem achieves_itemsUpTo (hnil : xs ≠ []) (hfuel : xs.length ≤ fuel + 1) :
    Achieves (On (commas (xs.map text) ++ c :: rest) D q) (itemsUpTo close item fuel)
      fun ys d => ys.map f = xs.map f ∧ d.On rest D q := by
  have hcomma : TokenKind.comma.Shows "," := TokenKind.shows_symbol rfl
  induction xs generalizing fuel with
  | nil => exact absurd rfl hnil
  | cons x xs ih =>
    have hx := hitem x List.mem_cons_self
    cases xs with
    | nil =>
      -- the last item
      have hx := hx (c :: rest) (.inr (follow_word hclose rest))
      have hmap {y : α} (hy : f y = f x) : [y].map f = [x].map f := congrArg (fun z => [z]) hy
      cases fuel with
      | zero =>
        refine hx.andThen fun y hy => (achieves_expect hclose).andThen fun _ _ => ?_
        exact achieves_pure fun d hd => ⟨hmap hy, hd⟩
      | succ fuel =>
        refine hx.andThen fun y hy => achieves_kind (follow_word hclose rest) ?_
        rw [if_neg (mt beq_iff_eq.mp hne)]
        refine (achieves_expect hclose).andThen fun _ _ => ?_
        exact achieves_pure fun d hd => ⟨hmap hy, hd⟩
    | cons x' xs =>
      cases fuel with
      | zero => exact absurd hfuel (by simp)
      | succ fuel =>
        have ih := ih (fun x hx => hitem x (List.mem_cons_of_mem _ hx)) (List.cons_ne_nil _ _)
          (Nat.le_of_succ_le_succ hfuel)
        have htext : commas ((x :: x' :: xs).map text) ++ c :: rest =
            text x ++ "," :: (commas ((x' :: xs).map text) ++ c :: rest) :=
          List.append_assoc _ _ _
        rw [htext]
        refine (hx _ (.inl (follow_word hcomma _))).andThen fun y hy =>
          achieves_kind (follow_word hcomma _) ?_
        rw [if_pos (beq_self_eq_true _)]
        refine (achieves_advance hcomma).andThen fun _ _ => ih.andThen fun ys hys => ?_
        refine achieves_pure fun d hd => ⟨?_, hd⟩
        rw [List.map_cons, List.map_cons, hy, hys]

/-- The first item does not look like the end of the list. -/
theorem achieves_listUpTo (hfirst : ∀ x ∈ xs, text x ≠ [] ∧ follow (text x) ≠ close)
    (hfuel : xs.length ≤ fuel + 1) :
    Achieves (On (commas (xs.map text) ++ c :: rest) D q) (listUpTo close item fuel)
      fun ys d => ys.map f = xs.map f ∧ d.On rest D q := by
  cases xs with
  | nil =>
    refine achieves_kind (follow_word hclose rest) ?_
    rw [if_pos (beq_self_eq_true close)]
    refine (achieves_advance hclose).andThen fun _ _ => ?_
    exact achieves_pure fun d hd => ⟨rfl, hd⟩
  | cons x xs =>
    obtain ⟨hnil, hfollow⟩ := hfirst x List.mem_cons_self
    have hstart : follow (commas ((x :: xs).map text) ++ c :: rest) = follow (text x) := by
      cases xs with
      | nil => exact follow_append hnil _
      | cons x' xs =>
        rw [List.map_cons, List.map_cons, commas_cons, List.append_assoc]
        exact follow_append hnil _
    refine achieves_kind hstart ?_
    rw [if_neg (mt beq_iff_eq.mp hfollow)]
    exact achieves_itemsUpTo hclose hne hitem (List.cons_ne_nil _ _) hfuel

end

end Reader
end QueryExpr
