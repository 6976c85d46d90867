/-
# Operators behind a list of candidates

Behind the list that follows the word `in` any binary operator takes the membership
as its left operand, however strongly it binds: the loop that climbs goes on at the
bound it had before the list. So a sum behind a list is a sum of the membership,
though `+` binds more strongly than `in`. Where a source follows the word instead,
operators that bind more strongly belong to the source.

Key definitions: `Expr.Spelt`, `Expr.unwrapped`, `Expr.ReadAs`.
Key theorems: `Reread.listed`, `Reread.sourced`, `Expr.readAs_listed`.
-/
import Mathlib
import QueryExpr.Proofs.ReadBackExpr
import QueryExpr.Proofs.SufficientLimit

namespace QueryExpr

namespace Expr

/-- The expression is what a text spells. -/
def Spelt (declared : String → Bool) (e : Expr) : Prop :=
  ∃ (limit : Nat) (text : List Char), parse ⟨limit, declared⟩ text = .ok e

/-- The pieces of an operator with its operands, the left one without parentheses. -/
def unwrapped (op : BinaryOp) (left right : Expr) : List String :=
  left.pieces ++ op.symbol :: wrapped (right.level.rank ≤ op.bound.rank) right.pieces

/-- Every text with the words of the pieces that is read at all spells the given
expression, up to places, and it is read if the limit of the nesting goes with the
number of its tokens. -/
def ReadAs (declared : String → Bool) (ps : List String) (b : Expr) : Prop :=
  ∀ text : List Char, Spells text (ps.flatMap wordsOf) →
    (∀ limit e, parse ⟨limit, declared⟩ text = .ok e → e.bare = b) ∧
    ∀ limit, 2 * (tokens text).list.length + 1 ≤ limit →
      ∃ e, parse ⟨limit, declared⟩ text = .ok e

variable {declared : String → Bool} {e x y source : Expr} {es : List Expr} {op : BinaryOp}
  {bound : Level} {ps : List String} {b : Expr}

theorem Spelt.reread (h : e.Spelt declared) (limit : Nat) : Reread ⟨limit, declared⟩ e := by
  obtain ⟨limit', text, hparse⟩ := h
  exact (derives_of_parse hparse).reread rfl

/-- A level that operators in front of the expression have to pass may be passed
behind it. -/
theorem le_last_of_lt (h : bound.rank < e.level.rank) (hbound : bound.rank ≤ Level.unary.rank) :
    bound.rank ≤ e.last.rank := by
  by_cases hlevel : e.level = .coalescing
  · cases e with
    | binary op =>
      have hop : op = .coalesce := by cases op <;> first | rfl | cases hlevel
      subst hop
      exact Nat.le_of_lt_succ h
    | _ => cases hlevel
  · exact le_last hlevel (Nat.le_of_lt h) hbound

theorem conditional_le_bound (op : BinaryOp) : Level.conditional.rank ≤ op.bound.rank ∧
    op.bound.rank ≤ Level.unary.rank := by
  cases op <;> decide

/-- What is read is read the same under a higher limit. -/
theorem parse_of_le {limit limit' : Nat} {text : List Char} (hle : limit ≤ limit')
    (h : parse ⟨limit, declared⟩ text = .ok e) : parse ⟨limit', declared⟩ text = .ok e := by
  have hlexical : ∀ f, (tokens text).ending = .error f → f.cause.category = .lexical :=
    fun _ => readTokens_lexical
  have hraised := (@ofTokens_raised ⟨limit, declared⟩ ⟨limit', declared⟩ _ 0 hle rfl hlexical).1
  rw [parse] at h ⊢
  rw [hraised fun f hf => ?_, h]
  rw [h] at hf
  cases hf

theorem readAs_of_reads (h : ∀ limit, ReadsExpression ⟨limit, declared⟩ ps b) :
    ReadAs declared ps b := by
  intro text hs
  have hread (limit : Nat) (hlimit : 2 * (tokens text).list.length + 1 ≤ limit) :=
    parse_of_reads (h limit) hs hlimit
  refine ⟨fun limit e he => ?_, fun limit hlimit => ?_⟩
  · -- under a limit that is high enough the text is read as the pieces are
    obtain ⟨e', he', hbare⟩ := hread (max limit (2 * (tokens text).list.length + 1))
      (Nat.le_max_right _ _)
    obtain rfl := Except.ok.inj ((parse_of_le (Nat.le_max_left _ _) he).symm.trans he')
    exact hbare
  · obtain ⟨e, he, -⟩ := hread limit hlimit
    exact ⟨e, he⟩

end Expr

namespace Reread

variable {g : Grammar} {x y source : Expr} {es : List Expr} {op : BinaryOp} {bound : Level}

/-- A right operand that is in parentheses just if it has to be. -/
theorem rightOperand (h : Reread g y) (op : BinaryOp) : ∃ last : Level,
    op.bound.rank ≤ last.rank ∧
      ReadsChain g (wrapped (y.level.rank ≤ op.bound.rank) y.pieces) y.bare op.bound last := by
  obtain ⟨hlow, hhigh⟩ := Expr.conditional_le_bound op
  refine ⟨_, ?_, h.wrapped_chain fun hneeds => ?_⟩
  · by_cases hneeds : y.level.rank ≤ op.bound.rank
    · rw [if_pos (decide_eq_true hneeds)]
      exact hhigh
    · rw [if_neg (by rw [decide_eq_false hneeds]; decide)]
      exact Expr.le_last_of_lt (Nat.lt_of_not_le hneeds) hhigh
  · have hlt := Nat.lt_of_not_le (of_decide_eq_false hneeds)
    exact ⟨hlt, Nat.lt_of_le_of_lt hlow hlt⟩

/-- **Behind a list an operator takes the membership as its left operand.** -/
theorem listed (hx : Reread g x) (hes : ∀ e ∈ es, Reread g e) (hy : Reread g y)
    (op : BinaryOp) (s : Span) :
    ReadsExpression g (Expr.unwrapped op (.inList x es s) y)
      (.binary op (.inList x.bare (Expr.bareAll es) (.empty 0)) y.bare (.empty 0)) := by
  obtain ⟨hlow, hhigh⟩ := Expr.level_binary op
  obtain ⟨last, hlast, hleft⟩ :=
    hx.tested (show Level.lowest.rank < Level.relational.rank by decide)
  obtain ⟨last', hlast', hright⟩ := hy.rightOperand op
  have hlist := hleft.inList hlast (by decide) fun e he => (hes e he).readsBack
  exact (hlist.binary_chain hright (hy.wrapped_ne_nil _) (Nat.le_of_lt hhigh)
    (Nat.lt_trans (by decide) hlow) hlast').expression (by simp)

/-- Behind a source an operator that binds more strongly than `in` belongs to it. -/
theorem sourced (hx : Reread g x) (hsource : Reread g source) (hy : Reread g y) (s : Span)
    (hop : Level.relational.rank < op.level.rank) (hlevel : op.level.rank ≤ source.level.rank)
    (hfirst : follow source.pieces ≠ .openParen) :
    ReadsExpression g (Expr.unwrapped op (.inSource x source s) y)
      (.inSource x.bare (.binary op source.bare y.bare (.empty 0)) (.empty 0)) := by
  obtain ⟨last, hlast, hleft⟩ :=
    hx.tested (show Level.lowest.rank < Level.relational.rank by decide)
  obtain ⟨last', hlast', hright⟩ := hy.rightOperand op
  have hne : op ≠ .coalesce := by
    rintro rfl
    exact absurd hop (by decide)
  have hlasts : op.level.rank ≤ source.last.rank := by
    refine Expr.le_last (fun heq => ?_) hlevel (Nat.le_of_lt (Expr.level_binary op).2)
    rw [heq] at hlevel
    exact absurd (Nat.lt_of_lt_of_le hop hlevel) (by decide)
  have hchain := (hsource.chain .relational (Nat.lt_of_lt_of_le hop hlevel)
    (Nat.lt_of_lt_of_le (Nat.lt_trans (by decide) hop) hlevel)).binary_chain hright
      (hy.wrapped_ne_nil _) hlasts hop hlast'
  have hfollow : follow (source.pieces ++ op.symbol ::
      wrapped (y.level.rank ≤ op.bound.rank) y.pieces) ≠ .openParen := by
    rwa [follow_append hsource.ne_nil]
  have hbound : op.bound = op.level := if_neg hne
  have hwhole := (hleft.inSource hchain hlast (by decide) (by rw [hbound]; exact Nat.le_of_lt hop)
    (by simp) hfollow).expression (by simp)
  rw [Expr.unwrapped, Expr.pieces, List.append_assoc, List.cons_append]
  exact hwhole

end Reread

namespace Expr

variable {declared : String → Bool} {x y : Expr} {es : List Expr}

/-- **Main result.** Every text of a membership in a list with a binary operator
behind it, the membership without parentheses, spells that operator with the
membership as its left operand. With a source in the place of the list, one that
binds as strongly as the operator at least and does not start with a parenthesis, an
operator that binds more strongly than `in` is a part of the source. -/
theorem readAs_listed (hx : x.Spelt declared) (hes : ∀ e ∈ es, e.Spelt declared)
    (hy : y.Spelt declared) (op : BinaryOp) (s : Span) :
    ReadAs declared (unwrapped op (.inList x es s) y)
        (.binary op (.inList x.bare (bareAll es) (.empty 0)) y.bare (.empty 0)) ∧
      ∀ source : Expr, source.Spelt declared → Level.relational.rank < op.level.rank →
        op.level.rank ≤ source.level.rank → follow source.pieces ≠ .openParen →
        ReadAs declared (unwrapped op (.inSource x source s) y)
          (.inSource x.bare (.binary op source.bare y.bare (.empty 0)) (.empty 0)) :=
  ⟨readAs_of_reads fun limit =>
      (hx.reread limit).listed (fun e he => (hes e he).reread limit) (hy.reread limit) op s,
    fun _ hsource hop hlevel hfirst => readAs_of_reads fun limit =>
      (hx.reread limit).sourced (hsource.reread limit) (hy.reread limit) s hop hlevel hfirst⟩

/-- A sum of a membership, without a parenthesis around it, and by a number: with a
source in the place of the list it is a membership in a sum. -/
theorem readAs_listed_sum :
    ∃ x y one two : Expr, x.Spelt (fun _ => false) ∧ y.Spelt (fun _ => false) ∧
      (∀ e ∈ [one, two], e.Spelt fun _ => false) ∧
      Level.relational.rank < BinaryOp.add.level.rank ∧
      BinaryOp.add.level.rank ≤ y.level.rank ∧ follow y.pieces ≠ .openParen ∧
      Spells "x in (1, 2) + y".toList
        ((unwrapped .add (.inList x [one, two] (.empty 0)) y).flatMap wordsOf) ∧
      Spells "x in y + y".toList
        ((unwrapped .add (.inSource x y (.empty 0)) y).flatMap wordsOf) ∧
      (∃ e, parse ⟨19, fun _ => false⟩ "x in (1, 2) + y".toList = .ok e ∧
        e.bare = .binary .add (.inList x.bare (bareAll [one, two]) (.empty 0)) y.bare (.empty 0)) ∧
      ∃ e, parse ⟨11, fun _ => false⟩ "x in y + y".toList = .ok e ∧
        e.bare = .inSource x.bare (.binary .add y.bare y.bare (.empty 0)) (.empty 0) := by
  have leaf (text : String) (h : ((parse ⟨1, fun _ => false⟩ text.toList).toOption.map fun e =>
      (e.level, e.pieces)) = some (.primary, [text])) :
      ∃ e : Expr, e.Spelt (fun _ => false) ∧ e.level = .primary ∧ e.pieces = [text] := by
    obtain ⟨e, he, heq⟩ := exists_of_parse_map h
    exact ⟨e, ⟨1, text.toList, he⟩, congrArg Prod.fst heq, congrArg Prod.snd heq⟩
  obtain ⟨x, hx, hxl, hxp⟩ := leaf "x" (by decide +kernel)
  obtain ⟨y, hy, hyl, hyp⟩ := leaf "y" (by decide +kernel)
  obtain ⟨one, hone, -, honep⟩ := leaf "1" (by decide +kernel)
  obtain ⟨two, htwo, -, htwop⟩ := leaf "2" (by decide +kernel)
  have hes : ∀ e ∈ [one, two], e.Spelt fun _ => false := by
    intro e he
    rcases List.mem_cons.mp he with rfl | he
    · exact hone
    · exact List.mem_singleton.mp he ▸ htwo
  have hlist : Spells "x in (1, 2) + y".toList
      ((unwrapped .add (.inList x [one, two] (.empty 0)) y).flatMap wordsOf) := by
    simp only [unwrapped, pieces, piecesAll, hxl, hxp, hyl, hyp, honep, htwop]
    decide +kernel
  have hsource : Spells "x in y + y".toList
      ((unwrapped .add (.inSource x y (.empty 0)) y).flatMap wordsOf) := by
    simp only [unwrapped, pieces, hxl, hxp, hyl, hyp]
    decide +kernel
  have hlevel : BinaryOp.add.level.rank ≤ y.level.rank := by
    rw [hyl]
    decide
  have hfirst : follow y.pieces ≠ .openParen := by
    rw [hyp]
    decide +kernel
  obtain ⟨hlisted, hsourced⟩ := readAs_listed hx hes hy .add (.empty 0)
  have hsourced := hsourced y hy (by decide) hlevel hfirst
  refine ⟨x, y, one, two, hx, hy, hes, by decide, hlevel, hfirst, hlist, hsource, ?_, ?_⟩
  · obtain ⟨hread, hmet⟩ := hlisted _ hlist
    obtain ⟨e, he⟩ := hmet 19 (by decide +kernel)
    exact ⟨e, he, hread 19 e he⟩
  · obtain ⟨hread, hmet⟩ := hsourced _ hsource
    obtain ⟨e, he⟩ := hmet 11 (by decide +kernel)
    exact ⟨e, he, hread 11 e he⟩

/-- The operator `+` binds more strongly than `in`, and takes a membership without a
parenthesis around it as its left operand. -/
theorem parse_listed_captured : Level.relational.rank < BinaryOp.add.level.rank ∧
    ∃ x one two y s s', parse ⟨64, fun _ => false⟩ "x in (1, 2) + y".toList =
      .ok (.binary .add (.inList x [one, two] s) y s') := by
  have h : parse ⟨64, fun _ => false⟩ "x in (1, 2) + y".toList =
      .ok (.binary .add
        (.inList (.name ⟨"x", ⟨0, 1⟩⟩) [.literal (.integer 1 false .none) "1" ⟨6, 1⟩,
          .literal (.integer 2 false .none) "2" ⟨9, 1⟩] ⟨0, 11⟩)
        (.name ⟨"y", ⟨14, 1⟩⟩) ⟨0, 15⟩) := by cbv
  exact ⟨by decide, _, _, _, _, _, _, h⟩

end Expr

end QueryExpr
