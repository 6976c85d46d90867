/-
# Operators that are read back

Operands with their operators, and chains of binary operators. A left operand
is read back as the part of the chain that it is, a right one as an operand
between parentheses or a leaf, and what follows `in` as a chain of operators
that bind more strongly.

Key definitions: `Reader.afterIn`.
Key theorems: `ReadsOperand.unary`, `ReadsChain.binary`, `ReadsChain.inList`,
`ReadsChain.inSource`, `ReadsChain.expression`, `ReadsExpression.conditional`.
-/
import QueryExpr.Proofs.ReadBackOperands

namespace QueryExpr

open Step (Achieves achieves_pure)
open Cursor (On)
open Reader

variable {g : Grammar} {F fuel D q : Nat} {ps qs rest : List String} {k : TokenKind}
  {b b' : Expr} {es : List Expr} {bound last last' : Level}

/-- A minus sign is not one in front of a number. -/
theorem ReadsOperand.unary {op : UnaryOp} (h : ReadsOperand g ps b) (hnil : ps ≠ [])
    (hnumber : op = .negate → follow ps ≠ .integer ∧ follow ps ≠ .real) :
    ReadsOperand g (op.symbol :: ps) (.unary op b (.empty 0)) := by
  intro F fuel D q rest hF hfuel hD hrest
  obtain ⟨k, hshows, hop⟩ := op.shows
  rw [weight_word hshows] at hF hfuel hD
  obtain ⟨fuel, rfl⟩ : ∃ i, fuel = i + 1 := ⟨fuel - 1, by omega⟩
  refine achieves_current hshows fun t _ hk _ => ?_
  rw [hk, hop]
  refine achieves_get fun c hc => ?_
  have hnext : c.next? = some (follow ps) := by
    rw [hc.next? hshows.word]
    exact congrArg some (follow_append hnil rest)
  have hsign : ¬ (op == .negate && (c.next? == some .integer || c.next? == some .real)) = true := by
    rw [hnext]
    cases op with
    | not => exact Bool.false_ne_true
    | negate =>
      obtain ⟨h1, h2⟩ := hnumber rfl
      simp [h1, h2]
  dsimp only
  rw [if_neg hsign]
  refine (achieves_advance hshows).andThen fun _ _ =>
    (achieves_within (by omega)
      (h F fuel (D + 1) q rest (by omega) (by omega) (by omega) hrest)).andThen fun x hx =>
        achieves_pure fun d hd => ⟨?_, hd⟩
  rw [Expr.bare, hx]

/-! ### Chains -/

namespace Reader

/-- Reads on behind the word `in`. -/
def afterIn (g : Grammar) (expr : Reader Expr) (fuel : Nat) (bound : Level) (left : Expr) :
    Reader Expr := do
  if (← kind) == .openParen then
    advance
    let candidates ← listUpTo .closeParen expr fuel
    climbChain g expr fuel bound (.inList left candidates (← spanFrom left.span.start))
  else
    let source ← climb g expr fuel .relational
    climbChain g expr fuel bound (.inSource left source (← spanFrom left.span.start))

theorem climbChain_in {expr : Reader Expr} {left : Expr} {c : Cursor}
    (hk : c.current.kind = .inWord) (hb : bound.rank < Level.relational.rank) :
    climbChain g expr (fuel + 1) bound left c = (do
      advance
      charge g.limit
      afterIn g expr fuel bound left) c := by
  rw [climbChain, current_bind, hk]
  dsimp only [TokenKind.level?]
  rw [if_neg (Nat.not_le.mpr hb)]
  rfl

end Reader

theorem ReadsOperand.chain (h : ReadsOperand g ps b) (hnil : ps ≠ []) :
    ReadsChain g ps b bound .unary := by
  intro F fuel D q rest R Q hF hfuel hD hrest _ hgo
  refine achieves_charging ?_
  exact (h F (fuel + 1) D 0 rest hF hfuel hD hrest).andThen fun x hx =>
    hgo 0 fuel x hx (weight_pos hnil) (Nat.zero_add fuel)

namespace ReadsChain

/-- A chain ends in front of what its bound does not let pass. -/
theorem climb (h : ReadsChain g ps b bound last) (hnil : ps ≠ []) (hF : weight ps ≤ F)
    (hfuel : weight ps ≤ fuel) (hD : D + 2 * weight ps ≤ g.limit)
    (hrest : (follow rest).isSuffix = false) (hlast : last.Ends (follow rest))
    (hbound : bound.Ends (follow rest)) :
    Achieves (On (ps ++ rest) D q) (Reader.climb g (expression g F) fuel bound)
      fun x d => x.bare = b ∧ d.On rest D q := by
  have hpos := weight_pos hnil
  obtain ⟨fuel, rfl⟩ : ∃ i, fuel = i + 1 := ⟨fuel - 1, by omega⟩
  refine h F fuel D q rest rest (·.bare = b) hF hfuel hD hrest hlast fun j fuel' x hx _ _ => ?_
  exact fun c hc => ⟨x, c, climbChain_ends (hc.kind.symm ▸ hbound), hx, j, hc⟩

/-- The right operand may be a chain of operators that bind more strongly. -/
theorem binary_chain {op : BinaryOp} (h : ReadsChain g ps b bound last)
    (h' : ReadsChain g qs b' op.bound last') (hnil : qs ≠ []) (hlast : op.level.rank ≤ last.rank)
    (hbound : bound.rank < op.level.rank) (hlast' : op.bound.rank ≤ last'.rank) :
    ReadsChain g (ps ++ op.symbol :: qs) (.binary op b b' (.empty 0)) bound op.bound := by
  intro F fuel D q rest R Q hF hfuel hD hrest hends hgo
  obtain ⟨k, hshows, hop⟩ := op.shows
  obtain ⟨hlevel, hright⟩ := BinaryOp.level_of_token hop
  have hpos := weight_pos hnil
  rw [weight_append, weight_word hshows] at hF hfuel hD hgo
  rw [List.append_assoc]
  have hfollow : follow (op.symbol :: qs ++ rest) = k := follow_word hshows _
  refine h F fuel D q _ R Q (by omega) (by omega) (by omega) ?_ ?_ fun j fuel' x hx hj hsum => ?_
  · rw [hfollow]
    exact TokenKind.not_isSuffix_of_level hlevel
  · rw [hfollow]
    intro l hl
    rw [hlevel] at hl
    cases hl
    exact hlast
  · obtain ⟨fuel', rfl⟩ : ∃ i, fuel' = i + 1 := ⟨fuel' - 1, by omega⟩
    have hread : Achieves (On (op.symbol :: (qs ++ rest)) (D + j) j) (do
        advance
        charge g.limit
        let right ← within g.limit (Reader.climb g (expression g F) fuel' (k.rightBound op.level))
        climbChain g (expression g F) fuel' bound
          (Expr.binary op x right (x.span.union right.span)))
        fun y d => Q y ∧ ∃ i, d.On R (D + i) i := by
      rw [hright op.level hlevel]
      refine (achieves_advance hshows).andThen fun _ _ => (achieves_charge (by omega)).andThen
        fun _ _ => (achieves_within (by omega) (h'.climb hnil (by omega) (by omega) (by omega)
          hrest (fun l hl => Nat.le_trans (hends l hl) hlast') hends)).andThen fun y hy => ?_
      refine hgo (j + 1) fuel' _ ?_ (by omega) (by omega)
      rw [Expr.bare, hx, hy]
    intro c hc
    have hk : c.current.kind = k := hc.kind.trans hfollow
    rw [climbChain_operator (hk.symm ▸ hlevel) (hk.symm ▸ hop) hbound, hk]
    exact hread c hc

theorem binary {op : BinaryOp} (h : ReadsChain g ps b bound last) (h' : ReadsOperand g qs b')
    (hnil : qs ≠ []) (hlast : op.level.rank ≤ last.rank) (hbound : bound.rank < op.level.rank) :
    ReadsChain g (ps ++ op.symbol :: qs) (.binary op b b' (.empty 0)) bound op.bound :=
  h.binary_chain (h'.chain hnil) hnil hlast hbound (by cases op <;> decide)

/-- Behind the left operand the loop reads the word `in` and what follows it. -/
theorem membership (h : ReadsChain g ps b bound last) (hpos : 0 < weight qs)
    (hlast : Level.relational.rank ≤ last.rank) (hbound : bound.rank < Level.relational.rank)
    (hread : ∀ F fuel D q rest (R : Expr → Cursor → Prop) x, x.bare = b → weight qs ≤ F →
      weight qs ≤ fuel → D + 2 * weight qs ≤ g.limit → (follow rest).isSuffix = false →
      last'.Ends (follow rest) →
      (∀ y, y.bare = b' → Achieves (On rest D q) (climbChain g (expression g F) fuel bound y) R) →
      Achieves (On (qs ++ rest) D q) (afterIn g (expression g F) fuel bound x) R) :
    ReadsChain g (ps ++ "in" :: qs) b' bound last' := by
  intro F fuel D q rest R Q hF hfuel hD hrest hends hgo
  have hin : TokenKind.inWord.Shows "in" := TokenKind.shows_keyword rfl
  have hfollow : follow ("in" :: qs ++ rest) = .inWord := follow_word hin _
  rw [weight_append, weight_word hin] at hF hfuel hD hgo
  rw [List.append_assoc]
  refine h F fuel D q _ R Q (by omega) (by omega) (by omega) ?_ ?_ fun j fuel' x hx hj hsum => ?_
  · rw [hfollow]
    rfl
  · rw [hfollow]
    intro l hl
    cases hl
    exact hlast
  · obtain ⟨fuel', rfl⟩ : ∃ i, fuel' = i + 1 := ⟨fuel' - 1, by omega⟩
    have hgo : Achieves (On ("in" :: (qs ++ rest)) (D + j) j) (do
        advance
        charge g.limit
        afterIn g (expression g F) fuel' bound x) fun y d => Q y ∧ ∃ i, d.On R (D + i) i :=
      (achieves_advance hin).andThen fun _ _ => (achieves_charge (by omega)).andThen fun _ _ =>
        hread F fuel' (D + j + 1) (j + 1) rest _ x hx (by omega) (by omega) (by omega) hrest hends
          fun y hy => hgo (j + 1) fuel' y hy (by omega) (by omega)
    intro c hc
    rw [climbChain_in (hc.kind.trans hfollow) hbound]
    exact hgo c hc

/-- A list behind the word `in`. -/
theorem inList (h : ReadsChain g ps b bound last) (hlast : Level.relational.rank ≤ last.rank)
    (hbound : bound.rank < Level.relational.rank) (hes : ∀ e ∈ es, ReadsBack g e) :
    ReadsChain g (ps ++ "in" :: enclosed "(" (Expr.piecesAll es) ")")
      (.inList b (Expr.bareAll es) (.empty 0)) bound .unary := by
  have hopen : TokenKind.openParen.Shows "(" := TokenKind.shows_symbol rfl
  have hclose : TokenKind.closeParen.Shows ")" := TokenKind.shows_symbol rfl
  refine h.membership (weight_pos (List.cons_ne_nil _ _)) hlast hbound
    fun F fuel D q rest R x hx hF hfuel hD _ _ hgo => ?_
  refine achieves_kind (follow_word hopen _) ?_
  rw [if_pos (beq_self_eq_true _)]
  refine ReadsBack.enclosed hes hopen hclose rfl (by decide) hF (Nat.le_succ_of_le hfuel) hD
    fun xs hxs => achieves_spanFrom fun s => hgo _ ?_
  simp only [Expr.bare, hx, hxs]

/-- Operators that bind more strongly than `in`, behind it. -/
theorem inSource (h : ReadsChain g ps b bound last) (h' : ReadsChain g qs b' .relational last')
    (hlast : Level.relational.rank ≤ last.rank) (hbound : bound.rank < Level.relational.rank)
    (hlast' : Level.relational.rank ≤ last'.rank) (hnil : qs ≠ [])
    (hfirst : follow qs ≠ .openParen) :
    ReadsChain g (ps ++ "in" :: qs) (.inSource b b' (.empty 0)) bound .relational := by
  refine h.membership (weight_pos hnil) hlast hbound
    fun F fuel D q rest R x hx hF hfuel hD hrest hends hgo => ?_
  refine achieves_kind (follow_append hnil rest) ?_
  rw [if_neg (mt beq_iff_eq.mp hfirst)]
  refine (h'.climb hnil hF hfuel hD hrest (fun l hl => Nat.le_trans (hends l hl) hlast')
    hends).andThen fun y hy => achieves_spanFrom fun s => hgo _ ?_
  rw [Expr.bare, hx, hy]

end ReadsChain

/-! ### Expressions -/

theorem ReadsChain.expression (h : ReadsChain g ps b .lowest last) (hnil : ps ≠ []) :
    ReadsExpression g ps b := by
  intro F D q rest hF hD hrest
  obtain ⟨F, rfl⟩ : ∃ i, F = i + 1 := ⟨F - 1, by omega⟩
  rw [expression_succ]
  refine achieves_within (by omega) ?_
  refine (h.climb hnil (by omega) (by omega) (by omega) (TokenKind.not_isSuffix_of_closing hrest)
    (TokenKind.ends_of_closing hrest _) (TokenKind.ends_of_closing hrest _)).andThen fun x hx =>
      achieves_kind rfl ?_
  rw [if_neg]
  · exact achieves_pure fun d hd => ⟨hx, hd⟩
  · intro heq
    rw [beq_iff_eq.mp heq] at hrest
    cases hrest

theorem ReadsExpression.conditional {cs as bs : List String} {c a b : Expr}
    (hc : ReadsOperand g cs c) (ha : ReadsExpression g as a) (hb : ReadsExpression g bs b)
    (hnil : cs ≠ []) :
    ReadsExpression g (cs ++ "?" :: (as ++ ":" :: bs)) (.conditional c a b (.empty 0)) := by
  intro F D q rest hF hD hrest
  have hquestion : TokenKind.question.Shows "?" := TokenKind.shows_symbol rfl
  have hcolon : TokenKind.colon.Shows ":" := TokenKind.shows_symbol rfl
  have hpos := weight_pos hnil
  rw [weight_append, weight_word hquestion, weight_append, weight_word hcolon] at hF hD
  obtain ⟨F, rfl⟩ : ∃ i, F = i + 1 := ⟨F - 1, by omega⟩
  rw [expression_succ, List.append_assoc, List.cons_append, List.append_assoc, List.cons_append]
  refine achieves_within (by omega) ?_
  have hfollow : follow ("?" :: (as ++ ":" :: (bs ++ rest))) = .question :=
    follow_word hquestion _
  refine ((hc.chain hnil).climb hnil (by omega) (by omega) (by omega) (by rw [hfollow]; rfl)
    (Level.ends_unary _) (by rw [hfollow]; rintro l ⟨⟩)).andThen fun x hx =>
      achieves_kind hfollow ?_
  rw [if_pos (beq_self_eq_true _)]
  refine (achieves_advance hquestion).andThen fun _ _ =>
    (ha F (D + 1) q _ (by omega) (by omega) (by rw [follow_word hcolon]; rfl)).andThen fun y hy =>
      (achieves_expect hcolon).andThen fun _ _ =>
        (hb F (D + 1) q rest (by omega) (by omega) hrest).andThen fun z hz =>
          achieves_pure fun d hd => ⟨?_, hd⟩
  rw [Expr.bare, hx, hy, hz]

end QueryExpr
