/-
# Climbing reads the layered grammar

Reading binary operators by climbing comes to the same as reading them level
by level, as far as the limit of the nesting is not met. It is not met if it
is more than twice the number of tokens.

The proof goes along the loop that climbs. Where it takes an operator, the
layered grammar is in the loop of the operator's level, and the loops of the
stronger levels have ended; behind the right operand they have nothing to take
either, so that both go on from there alike.

Key theorems: `Reader.alike_climb`, `Reader.agree_expression`,
`Expr.ofTokens_eq_layered`, `Expr.parse_eq_layered`.
-/
import QueryExpr.Proofs.LayeredGrammar

namespace QueryExpr
namespace Reader

open Cursor (Same Moves Abreast)
open Layered (above links links_ends links_operator above_eq loopsOf)
open Level (Ends exists_of_not_ends)

variable {g : Grammar} {expr expr' : Reader Expr} {n fuel fuel' : Nat} {c c' : Cursor}
  {bound level : Level} {left : Expr} {op : BinaryOp}

/-! ### The loop that climbs -/

/-- A link is taken alike, if right operands and what follows are read alike. -/
theorem alike_link {loops : Level → Nat} (hn : n ≤ fuel') (hloops : ∀ l, n + 1 ≤ loops l)
    (hc : Abreast g.limit (n + 1) 0 c c') (hl : c.current.kind.level? = some level)
    (hb : bound.rank < level.rank)
    (operand : ∀ {m : Nat} {bound : Level} {c c' : Cursor}, n ≤ m → Abreast g.limit n 0 c c' →
      Alike (Ends bound) 1 c c' (climb g expr fuel bound c) (above g expr' fuel' m bound c'))
    (rest : ∀ {loops : Level → Nat} {left : Expr} {c c' : Cursor}, (∀ l, n ≤ loops l) →
      Abreast g.limit n 0 c c' → Alike (Ends bound) 0 c c' (climbChain g expr fuel bound left c)
        (links g expr' fuel' loops bound left c')) :
    Alike (Ends bound) 0 c c' (climbChain g expr (fuel + 1) bound left c)
      (links g expr' fuel' loops bound left c') := by
  have hne := Level.ne_endOfText hl
  obtain ⟨ts, hahead⟩ := Cursor.ahead_of_kind hne
  have hin : c.current.kind ≠ .inWord := hc.plain _ (by rw [hahead]; exact List.mem_cons_self)
  obtain ⟨op, hop⟩ := Level.operator_of_level hl hin
  have hcur := hc.same.current
  obtain ⟨m, loops', next, hm, hloops', hlinks, hnext⟩ := links_operator expr' left
    (hcur ▸ hl) (hcur ▸ hop) hb hn hloops
  rw [hcur] at hlinks hnext
  rw [climbChain_operator hl hop hb, hlinks]
  refine (Alike.bind (j := 0) (agreeAt_advance hne c c' hc rfl)
    fun _ d d' _ hs hmv hmv' => ?_).weaken (Nat.zero_le 1)
  have hd : Abreast g.limit (n + 1) 2 d d' := hc.moves hs hmv hmv'
  have hfew := hd.few
  have hroom := hd.room
  have hroom' := hd.room'
  have hlinked : Abreast g.limit n 0 d.linked d' := by
    refine ⟨⟨hs.ahead, hs.ending, hs.lastStop⟩, hd.plain, ?_, ?_, ?_⟩ <;>
      simp only [Cursor.linked] <;> omega
  -- the first reader goes two levels deeper for the operand, of which one is kept
  refine Alike.charge_left (by omega) (Alike.bind (P := Ends (c.current.kind.rightBound level))
    (j := 0) (Alike.within_left ?_ (operand hm ?_)) fun e f f' hends hs hmv hmv' => ?_)
  · show d.depth + 1 + 1 ≤ g.limit
    omega
  · refine ⟨⟨hs.ahead, hs.ending, hs.lastStop⟩, hd.plain, ?_, ?_, ?_⟩ <;>
      simp only [Cursor.linked] <;> omega
  · have hf : Abreast g.limit n 0 f f' := (hlinked.moves hs hmv hmv').loose (Nat.zero_le _)
    rw [hnext _ f' (hs.current ▸ hends)]
    exact rest hloops' hf

mutual
/-- Climbing from a bound is reading an operand above it. -/
theorem alike_climb : ∀ (fuel : Nat) {n m : Nat} {bound : Level} {c c' : Cursor}, n ≤ fuel →
    n ≤ fuel' → n ≤ m → Agree g.limit n 1 1 expr expr' → Abreast g.limit n 0 c c' →
    Alike (Ends bound) 1 c c' (climb g expr fuel bound c) (above g expr' fuel' m bound c')
  | 0, n, m, bound, c, c', hn, hn', _, he, hc => by
    rw [above_eq]
    have hlen := hc.length_le
    show Alike (Ends bound) 1 c c' (unary g expr 0 c) _
    rw [← bind_pure (unary g expr 0)]
    refine (agree_unary hn hn' he c c' hc).bind (j := 0) fun e d d' _ _ hm _ => ?_
    have := hm.length_le
    omega
  | fuel + 1, n, m, bound, c, c', hn, hn', hm, he, hc => by
    rw [above_eq]
    have hc0 : Abreast g.limit n 0 { c with charged := 0 } c' :=
      ⟨⟨hc.same.ahead, hc.same.ending, hc.same.lastStop⟩, hc.plain, hc.few, hc.room, hc.room'⟩
    refine Alike.charging_left
      ((agree_unary hn hn' he _ _ hc0).bind (j := 0) fun e d d' _ hs hmv hmv' => ?_)
    have hd : Abreast g.limit n 2 d d' := hc0.moves hs hmv hmv'
    obtain ⟨k, rfl⟩ : ∃ k, n = k + 1 := ⟨n - 1, by have := hd.few; omega⟩
    refine alike_climbChain fuel (by omega) (by omega) (fun l => ?_) (he.fewer (Nat.le_succ k)) hd.pred
    unfold loopsOf
    split <;> omega

/-- Climbing on behind an operand is reading on with the stronger levels. -/
theorem alike_climbChain : ∀ (fuel : Nat) {n : Nat} {loops : Level → Nat} {bound : Level}
    {left : Expr} {c c' : Cursor}, n ≤ fuel → n ≤ fuel' → (∀ l, n ≤ loops l) →
    Agree g.limit n 1 1 expr expr' → Abreast g.limit n 0 c c' →
    Alike (Ends bound) 0 c c' (climbChain g expr fuel bound left c)
      (links g expr' fuel' loops bound left c')
  | 0, n, loops, bound, left, c, c', hn, _, _, _, hc => by
    have ha : c.ahead = [] := List.eq_nil_of_length_eq_zero (Nat.le_zero.mp
      (Nat.le_trans hc.length_le hn))
    have hend : Ends bound c.current.kind := fun l hl => by
      rw [Cursor.kind_of_ahead ha] at hl
      cases hl
    rw [climbChain_ends hend, links_ends (hc.same.current ▸ hend)]
    exact .ok hend hc.same (.refl c) (.refl c')
  | fuel + 1, n, loops, bound, left, c, c', hn, hn', hloops, he, hc => by
    by_cases hend : Ends bound c.current.kind
    · rw [climbChain_ends hend, links_ends (hc.same.current ▸ hend)]
      exact .ok hend hc.same (.refl c) (.refl c')
    · obtain ⟨level, hl, hb⟩ := exists_of_not_ends hend
      obtain ⟨ts, hahead⟩ := Cursor.ahead_of_kind (Level.ne_endOfText hl)
      have hlen := hc.length_le
      rw [hahead, List.length_cons] at hlen
      obtain ⟨k, rfl⟩ : ∃ k, n = k + 1 := ⟨n - 1, by omega⟩
      have he' : Agree g.limit k 1 1 expr expr' := he.fewer (Nat.le_succ k)
      exact alike_link (by omega) hloops hc hl hb
        (fun hm hc => alike_climb fuel (by omega) (by omega) hm he' hc)
        (fun hloops hc => alike_climbChain fuel (by omega) (by omega) hloops he' hc)
end

/-! ### Expressions -/

theorem agree_conditional {n fuel fuel' : Nat} {branch branch' : Reader Expr} (hn : n ≤ fuel)
    (hn' : n ≤ fuel') (he : Agree g.limit n 1 1 branch branch') :
    Agree g.limit (n + 1) 1 1 (conditional g branch fuel)
      (Layered.conditional g branch' fuel') := by
  intro c c' hc
  have hfew := hc.few
  have hroom := hc.room
  have hroom' := hc.room'
  have hentered : Abreast g.limit n 0 { c with depth := c.depth + 1 } c' := by
    refine ⟨⟨hc.same.ahead, hc.same.ending, hc.same.lastStop⟩, hc.plain, ?_, ?_, ?_⟩ <;>
      simp only <;> omega
  have hbranch : Agree g.limit n 2 0 branch branch' :=
    (he.loose (Nat.le_succ 1)).weaken (Nat.zero_le 1)
  have hcondition : Alike (Ends .lowest) 1 { c with depth := c.depth + 1 } c'
      (climb g branch fuel .lowest { c with depth := c.depth + 1 })
      (Layered.coalescing g branch' fuel' fuel' c') := alike_climb fuel hn hn' hn' he hentered
  refine Alike.within_left (by omega)
    (hcondition.bind (j := 0) fun condition d d' _ hs hm hm' => ?_)
  refine agree_kind (k := 0) (fun t => ?_) d d' (hentered.moves hs hm hm')
  by_cases hk : t.kind == .question
  · rw [if_pos hk, if_pos hk]
    exact (agree_advance.bind fun _ => hbranch.bind fun whenTrue => (agree_expect _).bind fun _ =>
      hbranch.bind fun whenFalse => agree_pure _).at t
  · rw [if_neg hk, if_neg hk]
    exact (agree_pure _).at t

/-- **An expression is read alike**, whatever the fuel is, as long as it is
more than the number of tokens. -/
theorem agree_expression : ∀ {n fuel fuel' : Nat}, n ≤ fuel → n ≤ fuel' →
    Agree g.limit n 1 1 (expression g fuel) (Layered.expression g fuel')
  | 0, _, _, _, _ => agree_of_lt Nat.zero_lt_one
  | n + 1, fuel + 1, fuel' + 1, hn, hn' => by
    have hn : n ≤ fuel := Nat.le_of_succ_le_succ hn
    have hn' : n ≤ fuel' := Nat.le_of_succ_le_succ hn'
    exact agree_conditional hn hn' (agree_expression hn hn')

theorem agree_meetFault {limit s : Nat} : Agree limit n s 0 meetFault meetFault :=
  fun c c' hc => alike_meetFault hc.same (.refl c) (.refl c')

theorem agree_whole (hn : n ≤ fuel) (hn' : n ≤ fuel') :
    Agree g.limit n 1 0 (whole g fuel) (Layered.whole g fuel') := by
  refine agree_meetFault.bind fun _ => ((agree_expression hn hn').bind fun e =>
    agree_kind fun t => ?_).weaken (Nat.zero_le 1)
  dsimp only
  by_cases hk : (t.kind != .endOfText) = true
  · rw [if_pos hk]
    exact (agree_unexpected.bind fun _ => agree_pure _).at t
  · rw [if_neg hk]
    exact (agree_pure _).at t

theorem Alike.result_eq {α : Type} {P : TokenKind → Prop} {k : Nat}
    {r r' : Except Failure α × Cursor} (h : Alike P k c c' r r') : r.1 = r'.1 := by
  cases h with
  | error => rfl
  | ok => rfl

end Reader

namespace Expr

/-- **Climbing reads what the layered grammar reads** from any stretch of a
text whose tokens are few enough for the limit. -/
theorem ofTokens_eq_layered {g : Grammar} {ts : Tokens} {fuel : Nat} (start : Nat)
    (hin : ∀ t ∈ ts.list, t.kind ≠ .inWord) (hlimit : 2 * ts.list.length + 1 ≤ g.limit)
    (hfuel : ts.list.length < fuel) :
    ofTokens g start ts = Layered.ofTokens g fuel start ts := by
  have hc : Cursor.Abreast g.limit (ts.list.length + 1) 1 (Cursor.atStart start ts)
      (Cursor.atStart start ts) := by
    refine ⟨⟨rfl, rfl, rfl⟩, hin, ?_, ?_, ?_⟩ <;> simp only [Cursor.atStart] <;> omega
  exact (Reader.agree_whole (Nat.le_refl _) hfuel _ _ hc).result_eq

/-- **Climbing equals the layered grammar.** If none of the tokens of a text is
`in`, and the limit is more than twice their number, then both ways to read
the text come to the same tree, or fail alike. The fuel of the layered grammar
makes no difference if it is more than the number of tokens. -/
theorem parse_eq_layered {g : Grammar} {text : List Char} {fuel : Nat}
    (hin : ∀ t ∈ (tokens text).list, t.kind ≠ .inWord)
    (hlimit : 2 * (tokens text).list.length + 1 ≤ g.limit)
    (hfuel : (tokens text).list.length < fuel) : parse g text = Layered.parse g fuel text :=
  ofTokens_eq_layered 0 hin hlimit hfuel

/-- Operators of four levels, at the least limit there is. -/
theorem parse_eq_layered_mixed :
    parse ⟨19, fun _ => false⟩ "a ?? b or 1 - 2 * c".toList =
      Layered.parse ⟨19, fun _ => false⟩ 10 "a ?? b or 1 - 2 * c".toList :=
  parse_eq_layered (by decide) (by decide) (by decide)

end Expr

end QueryExpr
