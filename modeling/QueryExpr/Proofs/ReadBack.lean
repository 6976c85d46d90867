/-
# Pieces that are read back

Pieces are read back as an expression if reading them, in front of what may
follow, yields the expression up to places. The steps of the parser read more
or less of what is ahead, and loops go on behind what they have read, so there
is one such relation for each step; of a loop it tells that reading the pieces
comes to going on behind them.

Reading needs as much fuel as there are words, and twice as much room below
the limit of the nesting.

Key definitions: `ReadsPrimary`, `ReadsSuffixed`, `ReadsOperand`, `ReadsChain`,
`ReadsExpression`.
Key theorems: `ReadsBack.arguments`, `ReadsBack.enclosed`.
-/
import QueryExpr.Proofs.RenderedStart

namespace QueryExpr

open Step (Achieves achieves_pure)
open Cursor (On)
open Reader

namespace TokenKind

variable {k : TokenKind} {level : Level}

theorem not_isSuffix_of_level (h : k.level? = some level) : k.isSuffix = false := by
  cases k <;> first | rfl | cases h

theorem not_isSuffix_of_closing (h : k.isClosing = true) : k.isSuffix = false := by
  cases k <;> first | rfl | cases h

theorem ends_of_closing (h : k.isClosing = true) (bound : Level) : bound.Ends k := by
  intro l hl
  cases k <;> cases hl <;> cases h

end TokenKind

/-! ### The relations -/

/-- The pieces are read as an expression without operators and suffixes. -/
def ReadsPrimary (g : Grammar) (ps : List String) (b : Expr) : Prop :=
  ∀ F fuel D q rest, weight ps ≤ F → weight ps ≤ fuel + 1 → D + 2 * weight ps ≤ g.limit →
    follow rest ≠ .openParen →
    Achieves (On (ps ++ rest) D q) (primary g (expression g F) fuel)
      fun x d => x.bare = b ∧ d.On rest D q

/-- Reading the pieces comes to reading suffixes behind the expression. -/
def ReadsSuffixed (g : Grammar) (ps : List String) (b : Expr) : Prop :=
  ∀ F fuel D q rest (R : List String) (Q : Expr → Prop), weight ps ≤ F → weight ps ≤ fuel + 1 →
    D + 2 * weight ps ≤ g.limit → follow rest ≠ .openParen →
    (∀ j fuel' x, x.bare = b → 2 * j + 1 ≤ weight ps → j + fuel' = fuel →
      Achieves (On rest (D + j) j) (suffixChain g (expression g F) fuel' x)
        fun y d => Q y ∧ ∃ i, d.On R (D + i) i) →
    Achieves (On (ps ++ rest) D q) (unary g (expression g F) (fuel + 1))
      fun y d => Q y ∧ d.On R D q

/-- The pieces are read as an expression without binary operators. -/
def ReadsOperand (g : Grammar) (ps : List String) (b : Expr) : Prop :=
  ∀ F fuel D q rest, weight ps ≤ F → weight ps ≤ fuel → D + 2 * weight ps ≤ g.limit →
    (follow rest).isSuffix = false →
    Achieves (On (ps ++ rest) D q) (unary g (expression g F) fuel)
      fun x d => x.bare = b ∧ d.On rest D q

/-- Reading the pieces, in front of what ends the last operand of the chain,
comes to reading operators behind the expression. -/
def ReadsChain (g : Grammar) (ps : List String) (b : Expr) (bound last : Level) : Prop :=
  ∀ F fuel D q rest (R : List String) (Q : Expr → Prop), weight ps ≤ F → weight ps ≤ fuel + 1 →
    D + 2 * weight ps ≤ g.limit → (follow rest).isSuffix = false → last.Ends (follow rest) →
    (∀ j fuel' x, x.bare = b → 2 * j + 1 ≤ weight ps → j + fuel' = fuel →
      Achieves (On rest (D + j) j) (climbChain g (expression g F) fuel' bound x)
        fun y d => Q y ∧ ∃ i, d.On R (D + i) i) →
    Achieves (On (ps ++ rest) D q) (climb g (expression g F) (fuel + 1) bound)
      fun y d => Q y ∧ d.On R D q

/-- The pieces are read as an expression. -/
def ReadsExpression (g : Grammar) (ps : List String) (b : Expr) : Prop :=
  ∀ F D q rest, weight ps < F → D + 2 * weight ps + 1 ≤ g.limit →
    (follow rest).isClosing = true →
    Achieves (On (ps ++ rest) D q) (expression g F) fun x d => x.bare = b ∧ d.On rest D q

/-- The pieces of the expression are read back between brackets, and do not
look like the end of what the brackets enclose. -/
structure ReadsBack (g : Grammar) (e : Expr) : Prop where
  reads : ReadsExpression g e.pieces e.bare
  starts : (follow e.pieces).isClosing = false

variable {g : Grammar} {F fuel D q : Nat} {rest : List String} {pss : List (List String)}
  {o c : String} {k k' close : TokenKind} {e : Expr} {es : List Expr}

theorem enclosed_append : enclosed o pss c ++ rest = o :: (commas pss ++ c :: rest) := by
  rw [enclosed, List.cons_append, List.append_assoc]
  rfl

theorem weight_enclosed (ho : k.Shows o) (hc : k'.Shows c) :
    weight (enclosed o pss c) = weight (commas pss) + 2 := by
  rw [enclosed, weight_word ho, weight_append, weight_word hc]
  rfl

/-! ### Lists -/

namespace ReadsBack

theorem ne_nil (h : ReadsBack g e) : e.pieces ≠ [] := ne_nil_of_follow h.starts

/-- Expressions between brackets are read back. -/
theorem arguments (hes : ∀ e ∈ es, ReadsBack g e) (hshows : close.Shows c)
    (hclose : close.isClosing = true) (hne : close ≠ .comma)
    (hF : weight (commas (Expr.piecesAll es)) < F)
    (hfuel : weight (commas (Expr.piecesAll es)) ≤ fuel + 1)
    (hD : D + 2 * weight (commas (Expr.piecesAll es)) + 1 ≤ g.limit) :
    Achieves (On (commas (Expr.piecesAll es) ++ c :: rest) D q)
      (listUpTo close (expression g F) fuel)
      fun ys d => Expr.bareAll ys = Expr.bareAll es ∧ d.On rest D q := by
  rw [Expr.piecesAll_eq_map] at hF hfuel hD ⊢
  have hlength := length_le_commas (List.forall_mem_map.mpr fun e he => (hes e he).ne_nil)
  rw [List.length_map] at hlength
  refine (achieves_listUpTo (f := Expr.bare) hshows hne (fun e he qs hqs => ?_) (fun e he => ?_)
    (Nat.le_trans hlength hfuel)).mono fun ys d h => ?_
  · have hle := weight_le_commas (List.mem_map_of_mem (f := Expr.pieces) he)
    refine (hes e he).reads F D q qs (by omega) (by omega) ?_
    rcases hqs with hqs | hqs <;> rw [hqs]
    · rfl
    · exact hclose
  · refine ⟨(hes e he).ne_nil, fun heq => ?_⟩
    have hstarts := (hes e he).starts
    rw [heq, hclose] at hstarts
    cases hstarts
  · rw [Expr.bareAll_eq_map, Expr.bareAll_eq_map]
    exact h

/-- With their brackets, and then what is read behind them. -/
theorem enclosed {β : Type} {f : List Expr → Reader β} {R : β → Cursor → Prop}
    (hes : ∀ e ∈ es, ReadsBack g e) (hopen : k.Shows o) (hshows : close.Shows c)
    (hclose : close.isClosing = true) (hne : close ≠ .comma)
    (hF : weight (QueryExpr.enclosed o (Expr.piecesAll es) c) ≤ F)
    (hfuel : weight (QueryExpr.enclosed o (Expr.piecesAll es) c) ≤ fuel + 1)
    (hD : D + 2 * weight (QueryExpr.enclosed o (Expr.piecesAll es) c) ≤ g.limit)
    (h : ∀ xs, Expr.bareAll xs = Expr.bareAll es → Achieves (On rest D q) (f xs) R) :
    Achieves (On (QueryExpr.enclosed o (Expr.piecesAll es) c ++ rest) D q)
      (advance >>= fun _ => listUpTo close (expression g F) fuel >>= f) R := by
  rw [weight_enclosed hopen hshows] at hF hfuel hD
  rw [enclosed_append]
  exact (achieves_advance hopen).andThen fun _ _ =>
    (arguments hes hshows hclose hne (by omega) (by omega) (by omega)).andThen h

end ReadsBack

end QueryExpr
