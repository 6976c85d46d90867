/-
# Rendered expressions are read back

What a text spells, rendered as a text again, spells the same expression up to
the places of its parts: with the same names declared as parameters, and with a
limit of the nesting that goes with the number of tokens. How the tokens are
spaced does not matter.

Key definitions: `Expr.last`, `Reread`.
Key theorems: `Derives.reread`, `Expr.parse_rendered`.
-/
import QueryExpr.Proofs.ParsedExpr
import QueryExpr.Proofs.ReadBackChains

namespace QueryExpr

open Step (Achieves achieves_pure)
open Cursor (On)

namespace Expr

/-- The level that an operator behind the rendered expression may not pass. -/
def last : Expr → Level
  | .binary op _ _ _ => op.bound
  | .inSource _ _ _ => .relational
  | _ => .unary

/-- How strongly binary operators bind. -/
theorem level_binary (op : BinaryOp) : Level.conditional.rank < op.level.rank ∧
    op.level.rank < Level.unary.rank := by
  cases op <;> decide

variable {e left : Expr} {op : BinaryOp}

theorem level_of_isLeaf (h : e.isLeaf = true) : e.level = .primary := by
  cases e <;> first | rfl | cases h

theorem last_of_unary (h : Level.unary.rank ≤ e.level.rank) : e.last = .unary := by
  cases e with
  | binary op => exact absurd h (Nat.not_le.mpr (level_binary op).2)
  | inSource => exact absurd h (Nat.not_le.mpr (by decide : Level.relational.rank < _))
  | _ => rfl

/-- Operators that an expression lets in lets them pass behind it, `??` apart. -/
theorem le_last {level : Level} (hne : e.level ≠ .coalescing) (h : level.rank ≤ e.level.rank)
    (hunary : level.rank ≤ Level.unary.rank) : level.rank ≤ e.last.rank := by
  cases e with
  | binary op =>
    have hop : op ≠ .coalesce := fun heq => hne (congrArg BinaryOp.level heq)
    rw [last, BinaryOp.bound, if_neg hop]
    exact h
  | inSource => exact h
  | _ => exact hunary

/-- An operator may stand behind a left operand without parentheses. -/
theorem le_last_of_needsParens (h : needsParens op left = false) :
    op.level.rank ≤ left.last.rank := by
  obtain ⟨hle, hne⟩ := needsParens_eq_false.mp h
  refine le_last (fun heq => hne ⟨?_, heq⟩) hle (Nat.le_of_lt (level_binary op).2)
  rw [heq] at hle
  cases op <;> first | rfl | exact absurd hle (by decide)

/-- The word `in` may stand behind a left operand without parentheses. -/
theorem le_last_of_relational (h : Level.relational.rank ≤ e.level.rank) :
    Level.relational.rank ≤ e.last.rank := by
  refine le_last (fun heq => ?_) h (by decide)
  rw [heq] at h
  exact absurd h (by decide)

end Expr

/-- The rendered expression is read back by each step of the parser that binds
loosely enough. -/
structure Reread (g : Grammar) (e : Expr) : Prop where
  starts : (follow e.pieces).isClosing = false
  expression : ReadsExpression g e.pieces e.bare
  chain : ∀ bound : Level, bound.rank < e.level.rank → Level.conditional.rank < e.level.rank →
    ReadsChain g e.pieces e.bare bound e.last
  operand : Level.unary.rank ≤ e.level.rank → ReadsOperand g e.pieces e.bare
  suffixed : e.level = .primary → ReadsSuffixed g e.pieces e.bare

namespace Reread

variable {g : Grammar} {e : Expr} {bound : Level}

theorem readsBack (h : Reread g e) : ReadsBack g e := ⟨h.expression, h.starts⟩

/-! ### Where the expression binds -/

theorem of_chain (hs : (follow e.pieces).isClosing = false)
    (hlow : Level.conditional.rank < e.level.rank) (hhigh : e.level.rank < Level.unary.rank)
    (h : ∀ bound : Level, bound.rank < e.level.rank → ReadsChain g e.pieces e.bare bound e.last) :
    Reread g e where
  starts := hs
  expression := (h .lowest (Nat.lt_of_le_of_lt (Nat.zero_le _) hlow)).expression
    (ne_nil_of_follow hs)
  chain bound hb _ := h bound hb
  operand hle := absurd hhigh (Nat.not_lt.mpr hle)
  suffixed heq := absurd hhigh (by rw [heq]; decide)

theorem of_operand (hs : (follow e.pieces).isClosing = false) (hlevel : e.level = .unary)
    (h : ReadsOperand g e.pieces e.bare) : Reread g e where
  starts := hs
  expression := (h.chain (ne_nil_of_follow hs)).expression (ne_nil_of_follow hs)
  chain bound _ _ := by
    rw [Expr.last_of_unary (Nat.le_of_eq (congrArg Level.rank hlevel.symm))]
    exact h.chain (ne_nil_of_follow hs)
  operand _ := h
  suffixed heq := absurd (hlevel.symm.trans heq) (by decide)

theorem of_suffixed (hs : (follow e.pieces).isClosing = false) (hlevel : e.level = .primary)
    (h : ReadsSuffixed g e.pieces e.bare) : Reread g e where
  starts := hs
  expression := ((h.operand (ne_nil_of_follow hs)).chain (ne_nil_of_follow hs)).expression
    (ne_nil_of_follow hs)
  chain bound _ _ := by
    rw [Expr.last_of_unary (by rw [hlevel]; decide)]
    exact (h.operand (ne_nil_of_follow hs)).chain (ne_nil_of_follow hs)
  operand _ := h.operand (ne_nil_of_follow hs)
  suffixed _ := h

theorem of_primary (hs : (follow e.pieces).isClosing = false) (hlevel : e.level = .primary)
    (hfirst : UnaryOp.ofToken? (follow e.pieces) = none) (h : ReadsPrimary g e.pieces e.bare) :
    Reread g e := of_suffixed hs hlevel (h.suffixed (ne_nil_of_follow hs) hfirst)

/-! ### Between parentheses -/

variable (h : Reread g e)
include h

theorem ne_nil : e.pieces ≠ [] := ne_nil_of_follow h.starts

theorem wrapped_ne_nil (needed : Bool) : wrapped needed e.pieces ≠ [] := by
  cases needed with
  | true => exact List.cons_ne_nil _ _
  | false => exact h.ne_nil

theorem parens : ReadsSuffixed g (wrapped true e.pieces) e.bare :=
  (ReadsPrimary.parens h.expression).suffixed (List.cons_ne_nil _ _)
    (congrArg UnaryOp.ofToken? (follow_word (TokenKind.shows_symbol (k := .openParen) rfl) _))

/-- What a suffix follows. -/
theorem target : ReadsSuffixed g (wrapped (e.level != .primary) e.pieces) e.bare := by
  cases hneeded : e.level != .primary with
  | true => exact h.parens
  | false => exact h.suffixed (by simpa using hneeded)

theorem wrapped_operand {needed : Bool}
    (hneeded : needed = false → Level.unary.rank ≤ e.level.rank) :
    ReadsOperand g (wrapped needed e.pieces) e.bare := by
  cases needed with
  | true => exact h.parens.operand (List.cons_ne_nil _ _)
  | false => exact h.operand (hneeded rfl)

/-- A right operand. -/
theorem atom : ReadsOperand g (wrapped (!e.isLeaf) e.pieces) e.bare :=
  h.wrapped_operand fun hneeded => by
    rw [Expr.level_of_isLeaf (by simpa using hneeded)]
    decide

theorem wrapped_expression (needed : Bool) :
    ReadsExpression g (wrapped needed e.pieces) e.bare := by
  cases needed with
  | true =>
    exact ((h.parens.operand (List.cons_ne_nil _ _)).chain (List.cons_ne_nil _ _)).expression
      (List.cons_ne_nil _ _)
  | false => exact h.expression

theorem wrapped_chain {needed : Bool} (hneeded : needed = false →
      bound.rank < e.level.rank ∧ Level.conditional.rank < e.level.rank) :
    ReadsChain g (wrapped needed e.pieces) e.bare bound (if needed then .unary else e.last) := by
  cases needed with
  | true => exact (h.parens.operand (List.cons_ne_nil _ _)).chain (List.cons_ne_nil _ _)
  | false => exact h.chain bound (hneeded rfl).1 (hneeded rfl).2

/-- A left operand is read back as a part of the chain. -/
theorem leftOperand {op : BinaryOp} (hbound : bound.rank < op.level.rank) :
    ∃ last : Level, op.level.rank ≤ last.rank ∧
      ReadsChain g (wrapped (Expr.needsParens op e) e.pieces) e.bare bound last := by
  obtain ⟨hlow, hhigh⟩ := Expr.level_binary op
  refine ⟨_, ?_, h.wrapped_chain fun hneeds => ?_⟩
  · cases hneeds : Expr.needsParens op e with
    | true => exact Nat.le_of_lt hhigh
    | false => exact Expr.le_last_of_needsParens hneeds
  · have hle := (Expr.needsParens_eq_false.mp hneeds).1
    exact ⟨Nat.lt_of_lt_of_le hbound hle, Nat.lt_of_lt_of_le hlow hle⟩

/-- So is what stands before `in`. -/
theorem tested (hbound : bound.rank < Level.relational.rank) :
    ∃ last : Level, Level.relational.rank ≤ last.rank ∧
      ReadsChain g (wrapped (e.level.rank < Level.relational.rank) e.pieces) e.bare bound last := by
  refine ⟨_, ?_, h.wrapped_chain fun hneeds => ?_⟩
  · by_cases hneeds : e.level.rank < Level.relational.rank
    · rw [if_pos (decide_eq_true hneeds)]
      decide
    · rw [if_neg (by rw [decide_eq_false hneeds]; decide)]
      exact Expr.le_last_of_relational (Nat.not_lt.mp hneeds)
  · have hle := Nat.not_lt.mp (of_decide_eq_false hneeds)
    exact ⟨Nat.lt_of_lt_of_le hbound hle, Nat.lt_of_lt_of_le (by decide) hle⟩

end Reread

/-- **What is read can be rendered and read back.** -/
theorem Derives.reread {g g' : Grammar} {form : Form} {e : Expr} (h : Derives g form e)
    (hg : g'.declared = g.declared) : Reread g' e := by
  have htype (n : String) : g'.typeOf? n = g.typeOf? n := by
    unfold Grammar.typeOf?
    rw [hg]
  have back {r : Nat} {es : List Expr} (hes : ∀ e ∈ es, Derives g (.expression r) e)
      (ih : ∀ e ∈ es, (follow e.pieces).isClosing = false → Reread g' e) :
      ∀ e ∈ es, ReadsBack g' e := fun e he => (ih e he (hes e he).starts).readsBack
  have name {n : String} {ps : List String} (hn : TokenKind.identifier.Spells n) :
      UnaryOp.ofToken? (follow (n :: ps)) = none := by
    rw [follow_word hn.shows]
    rfl
  have keyword {k : TokenKind} {n : String} {ps : List String} (hk : k.keywordText? = some n)
      (hnot : UnaryOp.ofToken? k = none) : UnaryOp.ofToken? (follow (n :: ps)) = none := by
    rw [follow_word (TokenKind.shows_keyword hk)]
    exact hnot
  have hs := h.starts
  induction h with
  | parens _ ih | target _ ih | operand _ ih | chain _ ih | expression _ ih => exact ih hs
  | literal hv => exact .of_suffixed hs rfl (.literal hv)
  | it => exact .of_primary hs rfl (keyword (k := .itWord) rfl rfl) .it
  | name hn hu | typeName hn hu =>
    have hread := ReadsPrimary.named (g := g') hn
    rw [htype, hu] at hread
    exact .of_primary hs rfl (name hn) hread
  | call hn hu hes ih | conversion hn hu hes ih =>
    have hread := ReadsPrimary.called (g := g') hn (back hes ih)
    rw [htype, hu] at hread
    exact .of_primary hs rfl (name hn) hread
  | iif hes ih =>
    exact .of_primary hs rfl (keyword (k := .iifWord) rfl rfl) (.iif (back hes ih))
  | newRecord hl hns hes ih =>
    exact .of_primary hs rfl (keyword (k := .newWord) rfl rfl) (.newRecord hl hns (back hes ih))
  | newArray ht hes ih =>
    exact .of_primary hs rfl (keyword (k := .newWord) rfl rfl) (.newArray ht (back hes ih))
  | member ht hn ih => exact .of_suffixed hs rfl ((ih ht.starts).target.member hn)
  | callOn ht hn hes ih ihs =>
    exact .of_suffixed hs rfl ((ih ht.starts).target.callOn hn (back hes ihs))
  | index ht hne hes ih ihs =>
    exact .of_suffixed hs rfl ((ih ht.starts).target.index hne (back hes ihs))
  | @unary _ _ _ op e _ hop he ih =>
    have ih := ih he.starts
    refine .of_operand hs rfl (.unary ?_ (ih.wrapped_ne_nil _) ?_)
    · refine ih.wrapped_operand fun hneeded => ?_
      have hleaf : e.isLeaf = true := by simp_all
      rw [Expr.level_of_isLeaf hleaf]
      decide
    · intro hop
      cases hneeded : !e.isLeaf || op == .negate && e.isNumber with
      | true =>
        have hopen : follow (wrapped true e.pieces) = .openParen :=
          follow_word (TokenKind.shows_symbol rfl) _
        rw [hopen]
        decide
      | false => exact he.not_number (by simp_all) (by simp_all)
  | binary hl hb htop hr ih ih' =>
    have ih' := ih' hr.starts
    obtain ⟨hlow, hhigh⟩ := Expr.level_binary _
    refine .of_chain hs hlow hhigh fun bound hbound => ?_
    obtain ⟨last, hlast, hleft⟩ := (ih hl.starts).leftOperand hbound
    exact hleft.binary ih'.atom (ih'.wrapped_ne_nil _) hlast hbound
  | inList hl hb htop hes ih ihs =>
    refine .of_chain hs (by decide : Level.conditional.rank < Level.relational.rank)
      (by decide : Level.relational.rank < Level.unary.rank) fun bound hbound => ?_
    obtain ⟨last, hlast, hleft⟩ := (ih hl.starts).tested hbound
    exact hleft.inList hlast hbound (back hes ihs)
  | inSource hl hb htop hr hk ih ih' =>
    have ih' := ih' hr.starts
    refine .of_chain hs (by decide : Level.conditional.rank < Level.relational.rank)
      (by decide : Level.relational.rank < Level.unary.rank) fun bound hbound => ?_
    obtain ⟨last, hlast, hleft⟩ := (ih hl.starts).tested hbound
    obtain ⟨hlevel, -, hfirst⟩ := hr.unwrapped hk (Nat.le_refl _) (by decide)
    exact hleft.inSource (ih'.chain .relational hlevel (Nat.lt_trans (by decide) hlevel)) hlast
      hbound (Expr.le_last_of_relational (Nat.le_of_lt hlevel)) ih'.ne_nil hfirst
  | conditional hc ha hb ihc iha ihb =>
    have ihc := ihc hc.starts
    exact {
      starts := hs
      expression := .conditional ihc.atom ((iha ha.starts).wrapped_expression _)
        ((ihb hb.starts).wrapped_expression _) (ihc.wrapped_ne_nil _)
      chain := fun bound _ h => absurd h (Nat.lt_irrefl _)
      operand := fun h => absurd h (Nat.not_le.mpr (by decide : Level.conditional.rank < _))
      suffixed := fun h => by cases h }

namespace Expr

variable {g g' : Grammar} {form : Form} {e : Expr} {text : List Char}

/-- A text whose words are read as an expression spells it, if there is room enough
for the number of its tokens. -/
theorem parse_of_reads {ps : List String} {b : Expr} (h : ReadsExpression g ps b)
    (hs : Spells text (ps.flatMap wordsOf)) (hlimit : 2 * (tokens text).list.length + 1 ≤ g.limit) :
    ∃ e, parse g text = .ok e ∧ e.bare = b := by
  obtain ⟨hwritten, hending⟩ := hs
  have hstart : (Cursor.atStart 0 (tokens text)).On ps 0 0 :=
    ⟨hwritten, genuine_readTokens 0 0 text, hending, rfl, rfl⟩
  have hweight : weight ps = (tokens text).list.length := by
    have hlength := congrArg List.length hwritten
    rw [List.length_map] at hlength
    exact hlength.symm
  have hread := h ((tokens text).list.length + 1) 0 0 [] (by omega) (by omega) rfl
  rw [List.append_nil] at hread
  have hwhole : Achieves (On ps 0 0) (Reader.whole g ((tokens text).list.length + 1))
      fun e _ => e.bare = b :=
    Reader.achieves_meetFault.andThen fun _ _ => hread.andThen fun e he =>
      Reader.achieves_kind rfl (achieves_pure fun _ _ => he)
  obtain ⟨e, d, heq, he⟩ := hwhole _ hstart
  exact ⟨e, congrArg Prod.fst heq, he⟩

/-- So does one with the tokens of the rendered expression. -/
theorem parse_of_spells (h : Derives g form e) (hg : g'.declared = g.declared)
    (hs : Spells text e.words) (hlimit : 2 * (tokens text).list.length + 1 ≤ g'.limit) :
    ∃ e', parse g' text = .ok e' ∧ e'.bare = e.bare :=
  parse_of_reads (h.reread hg).expression hs hlimit

/-- **What a text spells, rendered as a text again, spells the same up to the
places of its parts**, however the tokens of the rendered text are spaced. -/
theorem parse_rendered (h : parse g text = .ok e) : Spells e.rendered e.words ∧
    ∀ text' : List Char, Spells text' e.words →
      ∃ e', parse ⟨2 * (tokens text').list.length + 1, g.declared⟩ text' = .ok e' ∧
        e'.bare = e.bare :=
  ⟨(derives_of_parse h).spells, fun _ hs =>
    parse_of_spells (derives_of_parse h) rfl hs (Nat.le_refl _)⟩

/-- A number behind a minus sign and one that has the sign, the name of a type,
`in` in front of a list and of a chain, `??` on the left, and a projection: the
rendered text has fifty tokens. -/
theorem parse_rendered_mixed : ∃ e, parse ⟨6, fun _ => false⟩
    "-(5) - x.new in (a ?? b, Int32(c)) ? new \x7ba, it.in as k\x7d : (-7).b in not y + 1".toList =
      .ok e ∧ Spells e.rendered e.words ∧
    ∃ e', parse ⟨2 * 50 + 1, fun _ => false⟩
      "(-(5)-(x.new)in(a??b,Int32(c)))?(new\x7ba:a,k:it.in\x7d):(-7 .b in!y+1)".toList = .ok e' ∧
        e'.bare = e.bare := by
  have hspells : (parse ⟨6, fun _ => false⟩
      "-(5) - x.new in (a ?? b, Int32(c)) ? new \x7ba, it.in as k\x7d : (-7).b in not y + 1".toList
      ).toOption.map (fun e => decide (Spells
        "(-(5)-(x.new)in(a??b,Int32(c)))?(new\x7ba:a,k:it.in\x7d):(-7 .b in!y+1)".toList
        e.words)) = some true := by decide +kernel
  have hcount : (tokens
      "(-(5)-(x.new)in(a??b,Int32(c)))?(new\x7ba:a,k:it.in\x7d):(-7 .b in!y+1)".toList
      ).list.length = 50 := by decide +kernel
  obtain ⟨e, hparse, hs⟩ := exists_of_parse_map hspells
  obtain ⟨hrendered, hread⟩ := parse_rendered hparse
  have hback := hread _ (of_decide_eq_true hs)
  rw [hcount] at hback
  exact ⟨e, hparse, hrendered, hback⟩

end Expr

end QueryExpr
