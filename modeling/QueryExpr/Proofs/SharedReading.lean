/-
# Operands read side by side

The steps from literals up to unary operators take the reader of what stands
between brackets as an argument. With readers that agree they agree
themselves, and the fuel makes no difference as long as it is no less than the
number of tokens ahead.

Key theorems: `Reader.agree_listUpTo`, `Reader.agree_primary`,
`Reader.agree_suffixes`, `Reader.agree_unary`.
-/
import QueryExpr.Proofs.SameReading

namespace QueryExpr
namespace Reader

variable {α β : Type} {limit n s k fuel fuel' : Nat} {t : Token}

theorem AgreeAt.name {f f' : Name → Reader β}
    (h : AgreeAt limit n s k t (f ⟨t.value, t.span⟩) (f' ⟨t.value, t.span⟩)) :
    AgreeAt limit n s k t (name >>= f) (name >>= f') := by
  intro c c' hc ht
  show Alike anyKind k c c' (f ⟨c.current.value, c.current.span⟩ c)
    (f' ⟨c'.current.value, c'.current.span⟩ c')
  rw [hc.same.current, ht]
  exact h c c' hc ht

/-! ### Lists -/

/-- Every item passes a token, so that there are no more links than tokens. -/
theorem agree_itemsUpTo (close : TokenKind) {item item' : Reader α} :
    ∀ {n fuel fuel' : Nat}, n ≤ fuel + 1 → n ≤ fuel' + 1 → Agree limit n 1 1 item item' →
      Agree limit n 1 1 (itemsUpTo close item fuel) (itemsUpTo close item' fuel')
  | 0, _, _, _, _, _ => agree_of_lt Nat.zero_lt_one
  | n + 1, fuel, fuel', hn, hn', he => by
    have last (x : α) : Agree limit (n + 1) 3 0
        (expect close >>= fun _ => return [x]) (expect close >>= fun _ => return [x]) :=
      (agree_expect close).bind fun _ => agree_pure _
    cases fuel with
    | zero => cases fuel' <;> exact he.bind fun _ => agree_of_lt (by omega)
    | succ fuel =>
      cases fuel' with
      | zero => exact he.bind fun _ => agree_of_lt (by omega)
      | succ fuel' =>
        refine he.bind fun x => agree_kind fun t => ?_
        by_cases hk : t.kind == .comma
        · rw [if_pos hk, if_pos hk]
          have hne : t.kind ≠ .endOfText := by
            rw [beq_iff_eq.mp hk]
            decide
          have items : Agree limit n 1 1 (itemsUpTo close item fuel) (itemsUpTo close item' fuel') :=
            agree_itemsUpTo close (by omega) (by omega) (he.fewer (Nat.le_succ n))
          have rest : Agree limit (n + 1) 5 0 (itemsUpTo close item fuel)
              (itemsUpTo close item' fuel') :=
            (items.succ.loose (by omega)).weaken (Nat.zero_le 1)
          exact ((agreeAt_advance hne).bind fun _ => rest.bind fun xs => agree_pure _).weaken
            (Nat.zero_le 1)
        · rw [if_neg hk, if_neg hk]
          exact (last x).at t

theorem agree_listUpTo (close : TokenKind) {item item' : Reader α} (hn : n ≤ fuel + 1)
    (hn' : n ≤ fuel' + 1) (he : Agree limit n 1 1 item item') :
    Agree limit n 1 0 (listUpTo close item fuel) (listUpTo close item' fuel') := by
  refine agree_kind fun t => ?_
  by_cases hk : t.kind == close
  · rw [if_pos hk, if_pos hk]
    exact (agree_advance.bind fun _ => agree_pure _).at t
  · rw [if_neg hk, if_neg hk]
    exact ((agree_itemsUpTo close hn hn' he).weaken (Nat.zero_le 1)).at t

/-! ### Literals -/

theorem AgreeAt.number (ha : AgreeAt limit n s k t advance advance) (minus : Option Nat) :
    AgreeAt limit n s k t (number minus) (number minus) := by
  refine AgreeAt.current ?_
  dsimp only
  split
  · exact (agree_fail _ _).at t
  · exact ha.bind fun _ => agree_pure _

theorem agree_number (minus : Option Nat) :
    Agree limit n s 0 (number minus) (number minus) :=
  fun c c' hc => AgreeAt.number (agree_advance.at c.current) minus c c' hc rfl

section
variable (ht : t.kind ≠ .endOfText)
include ht

theorem agreeAt_literal (v : Literal) : AgreeAt limit n s 1 t (literal v) (literal v) :=
  AgreeAt.current ((agreeAt_advance ht).bind fun _ => agree_pure _)

theorem agreeAt_character : AgreeAt limit n s 1 t character character := by
  refine AgreeAt.current ?_
  split
  · exact agreeAt_literal ht _
  · exact (agree_fail _ _).at t

/-! ### Names, calls and constructions -/

variable {expr expr' : Reader Expr} (hn : n ≤ fuel + 1) (hn' : n ≤ fuel' + 1)
  (he : Agree limit n 1 1 expr expr')
include hn hn' he

theorem agreeAt_named {g : Grammar} :
    AgreeAt limit n 0 1 t (named g expr fuel) (named g expr' fuel') := by
  have arguments : Agree limit n 2 0 (listUpTo .closeParen expr fuel)
      (listUpTo .closeParen expr' fuel') :=
    (agree_listUpTo .closeParen hn hn' he).loose (Nat.le_succ 1)
  refine AgreeAt.name ((agreeAt_advance ht).bind fun _ => agree_kind fun t' => ?_)
  dsimp only
  cases g.typeOf? t.value with
  | some known =>
    dsimp only
    by_cases hk : t'.kind == .openParen
    · rw [if_pos hk, if_pos hk]
      exact (agree_advance.bind fun _ => arguments.bind fun _ =>
        (agree_spanFrom _).bind fun _ => agree_pure _).at t'
    · rw [if_neg hk, if_neg hk]
      exact (agree_pure _).at t'
  | none =>
    dsimp only
    by_cases hk : t'.kind == .openParen
    · rw [if_pos hk, if_pos hk]
      exact (agree_advance.bind fun _ => arguments.bind fun _ =>
        (agree_spanFrom _).bind fun _ => agree_pure _).at t'
    · rw [if_neg hk, if_neg hk]
      exact (agree_pure _).at t'

theorem agreeAt_iif : AgreeAt limit n 0 1 t (iif expr fuel) (iif expr' fuel') := by
  have arguments : Agree limit n 2 0 (listUpTo .closeParen expr fuel)
      (listUpTo .closeParen expr' fuel') :=
    (agree_listUpTo .closeParen hn hn' he).loose (Nat.le_succ 1)
  refine AgreeAt.current ((agreeAt_advance ht).bind fun _ => ?_)
  exact (agree_expect _).bind fun _ => arguments.bind fun _ =>
    (agree_spanFrom _).bind fun _ => agree_pure _

omit ht hn hn' in
theorem agree_projection : Agree limit n 1 1 (projection expr) (projection expr') := by
  refine agree_kind fun t => AgreeAt.get fun d d' hs => ?_
  rw [hs.next?]
  by_cases hk : (t.kind.isNameLike && d.next? == some .colon) = true
  · rw [if_pos hk, if_pos hk]
    have hne : t.kind ≠ .endOfText := by
      intro h
      rw [h] at hk
      cases hk
    have value (x : Name) : Agree limit n 3 0
        (expr >>= fun e => return (x, e)) (expr' >>= fun e => return (x, e)) :=
      ((he.loose (by omega)).bind fun e => agree_pure _).weaken (Nat.zero_le 1)
    exact AgreeAt.name ((agreeAt_advance hne).bind fun _ => agree_advance.bind fun _ => value _)
  · rw [if_neg hk, if_neg hk]
    -- what follows the value does not depend on its reader
    refine (he.bind fun e => agree_kind fun t => ?_).at t
    by_cases hk : t.kind == .asWord
    · rw [if_pos hk]
      refine (agree_advance.bind fun _ => agree_kind fun t => ?_).at t
      dsimp only
      by_cases hn : t.kind.isNameLike
      · rw [hn]
        exact AgreeAt.name ((agree_advance.bind fun _ => agree_pure _).at t)
      · rw [Bool.eq_false_iff.mpr hn]
        exact AgreeAt.current ((agree_fail_bind _ _ _ _).at t)
    · rw [if_neg hk]
      cases e.propertyName? with
      | some text => exact (agree_pure _).at t
      | none => exact (agree_fail _ _).at t

omit ht in
theorem agree_newRecord (start : Nat) (close : TokenKind) :
    Agree limit n 1 0 (newRecord expr fuel start close) (newRecord expr' fuel' start close) :=
  (agree_listUpTo close hn hn' (agree_projection he)).bind fun _ =>
    (agree_spanFrom _).bind fun _ => agree_pure _

omit ht in
theorem agree_newArray (start : Nat) (type : Option TypeName) :
    Agree limit n 1 0 (newArray expr fuel start type) (newArray expr' fuel' start type) :=
  (agree_expect _).bind fun _ => (agree_listUpTo .closeBrace hn hn' he).bind fun _ =>
    (agree_spanFrom _).bind fun _ => agree_pure _

theorem agreeAt_construction :
    AgreeAt limit n 0 1 t (construction expr fuel) (construction expr' fuel') := by
  have record (start : Nat) (close : TokenKind) : Agree limit n 2 0
      (newRecord expr fuel start close) (newRecord expr' fuel' start close) :=
    (agree_newRecord hn hn' he start close).loose (Nat.le_succ 1)
  have array (start : Nat) (type : Option TypeName) : Agree limit n 2 0
      (newArray expr fuel start type) (newArray expr' fuel' start type) :=
    (agree_newArray hn hn' he start type).loose (Nat.le_succ 1)
  refine AgreeAt.current ((agreeAt_advance ht).bind fun _ => agree_current fun t' => ?_)
  split
  · exact (agree_advance.bind fun _ => record _ _).at t'
  · exact (agree_advance.bind fun _ => record _ _).at t'
  · exact (agree_advance.bind fun _ => (agree_expect _).bind fun _ => array _ _).at t'
  · split
    · refine (agree_advance.bind fun _ => agree_kind fun t => ?_).at t'
      dsimp only
      by_cases hk : t.kind == .openBracket
      · rw [if_pos hk, if_pos hk]
        exact (agree_advance.bind fun _ => (agree_expect _).bind fun _ => array _ _).at t
      · rw [if_neg hk, if_neg hk]
        exact (array _ _).at t
    · exact (agree_fail _ _).at t'
  · exact (agree_fail _ _).at t'

/-! ### From primary expressions to unary operators -/

omit ht in
theorem agree_primary {g : Grammar} :
    Agree limit n 0 1 (primary g expr fuel) (primary g expr' fuel') := by
  refine agree_current fun t => ?_
  generalize hk : t.kind = kind
  have hne : kind ≠ .endOfText → t.kind ≠ .endOfText := fun h => hk ▸ h
  split
  case h_1 | h_2 => exact AgreeAt.number (agreeAt_advance (hne (by decide))) none
  case h_3 | h_5 | h_6 | h_7 => exact agreeAt_literal (hne (by decide)) _
  case h_4 => exact agreeAt_character (hne (by decide))
  case h_8 => exact (agreeAt_advance (hne (by decide))).bind fun _ => agree_pure _
  case h_9 => exact agreeAt_iif (hne (by decide)) hn hn' he
  case h_10 => exact agreeAt_construction (hne (by decide)) hn hn' he
  case h_11 =>
    refine (agreeAt_advance (hne (by decide))).bind fun _ => ?_
    have inner : Agree limit n 2 0 (expr >>= fun e => expect .closeParen >>= fun _ => return e)
        (expr' >>= fun e => expect .closeParen >>= fun _ => return e) :=
      ((he.loose (Nat.le_succ 1)).bind fun e =>
        (agree_expect _).bind fun _ => agree_pure _).weaken (Nat.zero_le 1)
    exact inner
  case h_12 => exact agreeAt_named (hne (by decide)) hn hn' he
  case h_13 => exact agree_unexpected.at t

end

/-! ### Suffixes -/

/-- What follows the point of a member access or a method call. -/
def memberRest (expr : Reader Expr) (fuel : Nat) (target : Expr) : Reader Expr := do
  if !(← kind).isNameLike then fail .nameExpected (← current).span
  let n ← name
  advance
  if (← kind) == .openParen then
    advance
    let arguments ← listUpTo .closeParen expr fuel
    return .callOn target n arguments (← spanFrom target.span.start)
  else return .member target n (.ofBounds target.span.start n.span.stop)

/-- What follows the bracket of an indexer. -/
def indexRest (expr : Reader Expr) (fuel : Nat) (target : Expr) (bracket : Span) :
    Reader Expr := do
  let arguments ← listUpTo .closeBracket expr fuel
  if arguments.isEmpty then fail .expressionExpected bracket
  return .index target arguments (← spanFrom target.span.start)

theorem indexSuffix_apply (expr : Reader Expr) (fuel : Nat) (target : Expr) (c : Cursor) :
    indexSuffix expr fuel target c =
      (advance >>= fun _ => indexRest expr fuel target c.current.span) c := rfl

section
variable {expr expr' : Reader Expr} (he : Agree limit n 1 1 expr expr')
include he

theorem agree_memberRest (target : Expr) (hn : n ≤ fuel + 1) (hn' : n ≤ fuel' + 1) :
    Agree limit n 1 0 (memberRest expr fuel target) (memberRest expr' fuel' target) := by
  refine agree_kind fun t => ?_
  dsimp only
  by_cases hk : t.kind.isNameLike
  · rw [hk]
    refine AgreeAt.name ((agree_advance.bind fun _ => agree_kind fun t => ?_).at t)
    by_cases hk : t.kind == .openParen
    · rw [if_pos hk, if_pos hk]
      exact (agree_advance.bind fun _ => (agree_listUpTo .closeParen hn hn' he).bind fun _ =>
        (agree_spanFrom _).bind fun _ => agree_pure _).at t
    · rw [if_neg hk, if_neg hk]
      exact (agree_pure _).at t
  · rw [Bool.eq_false_iff.mpr hk]
    exact AgreeAt.current ((agree_fail_bind _ _ _ _).at t)

theorem agree_indexRest (target : Expr) (bracket : Span) (hn : n ≤ fuel + 1)
    (hn' : n ≤ fuel' + 1) :
    Agree limit n 1 0 (indexRest expr fuel target bracket)
      (indexRest expr' fuel' target bracket) := by
  refine (agree_listUpTo .closeBracket hn hn' he).bind fun es => ?_
  dsimp only
  cases es.isEmpty with
  | true => exact agree_fail_bind _ _ _ _
  | false => exact (agree_spanFrom _).bind fun _ => agree_pure _

end

/-- Every link passes a token, so that there are no more links than tokens. -/
theorem agree_suffixChain {g : Grammar} {expr expr' : Reader Expr} :
    ∀ {n fuel fuel' : Nat} (target : Expr), n ≤ fuel → n ≤ fuel' →
      Agree g.limit n 1 1 expr expr' →
      Agree g.limit n 0 0 (suffixChain g expr fuel target) (suffixChain g expr' fuel' target)
  | 0, fuel, fuel', target, _, _, _ => by
    intro c c' hc
    have ha : c.ahead = [] := List.eq_nil_of_length_eq_zero (Nat.le_zero.mp hc.length_le)
    have hstop {c : Cursor} (ha : c.ahead = []) : c.current.kind.isSuffix = false := by
      rw [Cursor.kind_of_ahead ha]
      rfl
    rw [suffixChain_stops (hstop ha), suffixChain_stops (hstop (hc.same.ahead.trans ha))]
    exact .ok trivial hc.same (.refl c) (.refl c')
  | n + 1, fuel + 1, fuel' + 1, target, hn, hn', he => by
    have rest (e : Expr) : Agree g.limit (n + 1) 1 0 (suffixChain g expr fuel e)
        (suffixChain g expr' fuel' e) :=
      (agree_suffixChain e (by omega) (by omega) (he.fewer (Nat.le_succ n))).succ_zero
    refine agree_kind fun t => ?_
    generalize hk : t.kind = kind
    split
    · have hne : t.kind ≠ .endOfText := by rw [hk]; decide
      exact AgreeAt.charge hne (fun _ _ => rfl) (fun _ _ => rfl)
        (agree_memberRest he target hn hn') rest
    · have hne : t.kind ≠ .endOfText := by rw [hk]; decide
      refine AgreeAt.charge hne (fun c hc => ?_) (fun c hc => ?_)
        (agree_indexRest he target t.span hn hn') rest
      · rw [indexSuffix_apply, hc]
      · rw [indexSuffix_apply, hc]
    · exact AgreeAt.current ((agree_fail _ _).at t)
    · exact (agree_pure _).at t

theorem agree_suffixes {g : Grammar} {expr expr' : Reader Expr} (target : Expr) (hn : n ≤ fuel)
    (hn' : n ≤ fuel') (he : Agree g.limit n 1 1 expr expr') :
    Agree g.limit n 0 0 (suffixes g expr fuel target) (suffixes g expr' fuel' target) :=
  (agree_suffixChain target hn hn' he).charging

/-! ### Unary operators -/

/-- Behind a primary expression there is a token less for suffixes. -/
theorem agree_operand {g : Grammar} {expr expr' : Reader Expr} (hn : n ≤ fuel + 1)
    (hn' : n ≤ fuel' + 1) (he : Agree g.limit n 1 1 expr expr') :
    Agree g.limit n 0 1 (primary g expr fuel >>= suffixes g expr fuel)
      (primary g expr' fuel' >>= suffixes g expr' fuel') := by
  refine (agree_primary hn hn' he).bind fun e => ?_
  cases n with
  | zero => exact agree_of_lt (by omega)
  | succ n =>
    have hs : Agree g.limit n 0 0 (suffixes g expr fuel e) (suffixes g expr' fuel' e) :=
      agree_suffixes e (by omega) (by omega) (he.fewer (Nat.le_succ n))
    exact hs.succ

/-- An operator passes a token, so that there are no more of them than tokens. -/
theorem agree_unary {g : Grammar} {expr expr' : Reader Expr} :
    ∀ {n fuel fuel' : Nat}, n ≤ fuel → n ≤ fuel' → Agree g.limit n 1 1 expr expr' →
      Agree g.limit n 0 1 (unary g expr fuel) (unary g expr' fuel') := by
  intro n
  induction n with
  | zero =>
    intro fuel fuel' hn hn' he c c' hc
    have ha : c.ahead = [] := List.eq_nil_of_length_eq_zero (Nat.le_zero.mp hc.length_le)
    have hop : UnaryOp.ofToken? c.current.kind = none := by
      rw [Cursor.kind_of_ahead ha]
      rfl
    rw [unary_operand g expr fuel hop, unary_operand g expr' fuel' (hc.same.current ▸ hop)]
    exact agree_operand (by omega) (by omega) he c c' hc
  | succ n ih =>
    intro fuel fuel' hn hn' he c c' hc
    cases hop : UnaryOp.ofToken? c.current.kind with
    | none =>
      rw [unary_operand g expr fuel hop, unary_operand g expr' fuel' (hc.same.current ▸ hop)]
      exact agree_operand (by omega) (by omega) he c c' hc
    | some op =>
      have hne : c.current.kind ≠ .endOfText := by
        intro h
        rw [h] at hop
        cases hop
      obtain ⟨fuel, rfl⟩ : ∃ f, fuel = f + 1 := ⟨fuel - 1, by omega⟩
      obtain ⟨fuel', rfl⟩ : ∃ f, fuel' = f + 1 := ⟨fuel' - 1, by omega⟩
      have he' : Agree g.limit n 1 1 expr expr' := he.fewer (Nat.le_succ n)
      have links (e : Expr) : Agree g.limit (n + 1) 2 0 (suffixes g expr fuel e)
          (suffixes g expr' fuel' e) := (agree_suffixes e (by omega) (by omega) he').succ
      have inner : Agree g.limit (n + 1) 2 1 (within g.limit (unary g expr fuel))
          (within g.limit (unary g expr' fuel')) := (ih (by omega) (by omega) he').within
      have here : AgreeAt g.limit (n + 1) 0 1 c.current (unary g expr (fuel + 1))
          (unary g expr' (fuel' + 1)) := by
        refine AgreeAt.current ?_
        dsimp only
        rw [hop]
        refine AgreeAt.get fun d d' hs => ?_
        rw [hs.next?]
        by_cases hneg : (op == .negate && (d.next? == some .integer || d.next? == some .real)) = true
        · rw [if_pos hneg, if_pos hneg]
          exact (agreeAt_advance hne).bind fun _ => (agree_number _).bind links
        · rw [if_neg hneg, if_neg hneg]
          exact (agreeAt_advance hne).bind fun _ => (inner.bind fun e => agree_pure _).weaken
            (Nat.zero_le 1)
      exact here c c' hc rfl

end Reader
end QueryExpr
