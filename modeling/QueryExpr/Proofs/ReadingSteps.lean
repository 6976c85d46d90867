/-
# What the steps of reading do

What each step of the parser comes to, from a cursor as given: the steps that
only look, those that go deeper with room enough, and the loops at what they
do not take and at what they do.

Key definitions: `Cursor.linked`, `TokenKind.isSuffix`, `Level.Ends`.
Key theorems: `Reader.enter_apply`, `Reader.suffixChain_stops`, `Reader.unary_operand`,
`Reader.climbChain_ends`, `Reader.climbChain_operator`.
-/
import QueryExpr.Expr.Parse
import QueryExpr.Proofs.Steps

namespace QueryExpr

namespace Cursor

variable {c : Cursor}

/-- The cursor with one more link of the chain charged for. -/
def linked (c : Cursor) : Cursor := { c with depth := c.depth + 1, charged := c.charged + 1 }

/-- A token that is no end of the text is ahead. -/
theorem ahead_of_kind (h : c.current.kind ≠ .endOfText) : ∃ ts, c.ahead = c.current :: ts := by
  unfold current at h ⊢
  cases ha : c.ahead with
  | nil =>
    rw [ha] at h
    dsimp only at h
    split at h <;> exact absurd rfl h
  | cons t ts => exact ⟨ts, rfl⟩

theorem kind_of_ahead (h : c.ahead = []) : c.current.kind = .endOfText := by
  unfold current
  rw [h]
  dsimp only
  split <;> rfl

end Cursor

/-- Whether a token of the kind starts a suffix of what it follows. -/
def TokenKind.isSuffix : TokenKind → Bool
  | .dot | .openBracket | .openParen => true
  | _ => false

namespace Level

variable {bound : Level}

/-- What may come next behind what binds more strongly than the bound. -/
def Ends (bound : Level) (k : TokenKind) : Prop := ∀ l, k.level? = some l → l.rank ≤ bound.rank

/-- Every binary operator binds less strongly than the unary ones. -/
theorem ends_unary (k : TokenKind) : Ends .unary k := by
  intro l hl
  cases k <;> cases hl <;> decide

theorem exists_of_not_ends {k : TokenKind} (h : ¬ Ends bound k) :
    ∃ l, k.level? = some l ∧ bound.rank < l.rank := by
  cases hl : k.level? with
  | none => exact absurd (fun l h => by rw [hl] at h; cases h) h
  | some l =>
    refine ⟨l, rfl, Nat.lt_of_not_le fun hle => h fun m hm => ?_⟩
    rw [hl] at hm
    cases hm
    exact hle

end Level

namespace Reader

open Level (Ends)

variable {β : Type} {limit fuel : Nat} {c : Cursor} {g : Grammar} {expr : Reader Expr}
  {bound level : Level} {left : Expr} {op : BinaryOp}

/-! ### Looking -/

theorem current_bind (f : Token → Reader β) (c : Cursor) :
    (current >>= f) c = f c.current c := rfl

theorem kind_bind (f : TokenKind → Reader β) (c : Cursor) :
    (kind >>= f) c = f c.current.kind c := rfl

theorem get_bind (f : Cursor → Reader β) (c : Cursor) : (MonadState.get >>= f) c = f c c := rfl

theorem meetFault_apply (c : Cursor) : meetFault c = (c.fault?.elim (.ok ()) .error, c) := by
  unfold meetFault
  rw [get_bind]
  cases c.fault? <;> rfl

/-! ### Going deeper -/

theorem enter_apply (limit : Nat) (c : Cursor) : enter limit c =
    (if limit < c.depth + 1 then .error ⟨.nestedTooDeeply limit, c.current.span⟩ else .ok (),
      { c with depth := c.depth + 1 }) := by
  unfold enter
  rw [Step.bind_apply]
  show (if limit < c.depth + 1 then _ else _ : Reader Unit) _ = _
  split <;> rfl

theorem enter_eq (h : c.depth + 1 ≤ limit) :
    enter limit c = (.ok (), { c with depth := c.depth + 1 }) := by
  rw [enter_apply, if_neg (Nat.not_lt.mpr h)]

theorem charge_eq (h : c.depth + 1 ≤ limit) : charge limit c = (.ok (), c.linked) := by
  unfold charge
  rw [Step.bind_apply]
  exact enter_eq (c := { c with charged := c.charged + 1 }) h

/-! ### Loops and operands -/

/-- Behind what starts no suffix, the expression is read as it is. -/
theorem suffixChain_stops {target : Expr} (h : c.current.kind.isSuffix = false) :
    suffixChain g expr fuel target c = (.ok target, c) := by
  cases fuel with
  | zero => rfl
  | succ fuel =>
    unfold suffixChain
    rw [kind_bind]
    cases hk : c.current.kind <;> rw [hk] at h <;> first | rfl | cases h

theorem unary_operand (g : Grammar) (expr : Reader Expr) (fuel : Nat) {c : Cursor}
    (h : UnaryOp.ofToken? c.current.kind = none) :
    unary g expr fuel c = (primary g expr (fuel - 1) >>= suffixes g expr (fuel - 1)) c := by
  cases fuel with
  | zero => rfl
  | succ fuel =>
    unfold unary
    rw [current_bind, h]
    rfl

theorem climbChain_ends (h : Ends bound c.current.kind) :
    climbChain g expr fuel bound left c = (.ok left, c) := by
  cases fuel with
  | zero => rw [climbChain]; rfl
  | succ fuel =>
    rw [climbChain, current_bind]
    cases hl : c.current.kind.level? with
    | none => rfl
    | some l =>
      dsimp only
      rw [if_pos (h l hl)]
      rfl

theorem climbChain_operator (hl : c.current.kind.level? = some level)
    (hop : BinaryOp.ofToken? c.current.kind = some op) (hb : bound.rank < level.rank) :
    climbChain g expr (fuel + 1) bound left c = (do
      advance
      charge g.limit
      let right ← within g.limit (climb g expr fuel (c.current.kind.rightBound level))
      climbChain g expr fuel bound (Expr.binary op left right (left.span.union right.span))) c := by
  rw [climbChain, current_bind, hl, hop]
  dsimp only
  rw [if_neg (Nat.not_le.mpr hb)]

end Reader
end QueryExpr
