/-
# How high trees grow

The limit of the nesting bounds the height of what is read, but not linearly.
A chain gives back what its links have charged for as soon as it ends, while
what it has read stays in the tree: as an argument, under a suffix, as the left
operand of a chain that starts behind it. So with each level of room a tree
may grow by as many levels as there is room, for a chain of suffixes and for a
chain of operators.

Key definitions: `Expr.height`, `tallest`, `Form.Fits`.
Key theorems: `Derives.fits`, `Expr.height_of_parse`.
-/
import Mathlib.Tactic.Ring
import QueryExpr.Proofs.ParsedExpr

namespace QueryExpr

namespace Expr

mutual
/-- The number of nodes on the longest way down; that of a leaf is one. -/
def height : Expr → Nat
  | .literal _ _ _ | .name _ | .typeName _ => 1
  | .member target _ _ => target.height + 1
  | .index target arguments _ => max target.height (heightAll arguments) + 1
  | .call _ arguments _ => heightAll arguments + 1
  | .callOn target _ arguments _ => max target.height (heightAll arguments) + 1
  | .conversion _ arguments _ => heightAll arguments + 1
  | .unary _ operand _ => operand.height + 1
  | .binary _ left right _ => max left.height right.height + 1
  | .conditional condition whenTrue whenFalse _ =>
    max condition.height (max whenTrue.height whenFalse.height) + 1
  | .inList operand candidates _ => max operand.height (heightAll candidates) + 1
  | .inSource operand source _ => max operand.height source.height + 1
  | .newRecord _ values _ => heightAll values + 1
  | .newArray _ elements _ => heightAll elements + 1
termination_by structural e => e

/-- The height of the highest of several expressions. -/
def heightAll : List Expr → Nat
  | [] => 0
  | e :: es => max e.height (heightAll es)
termination_by structural es => es
end

theorem height_pos (e : Expr) : 0 < e.height := by
  cases e <;> exact Nat.succ_pos _

theorem heightAll_lt {n : Nat} {es : List Expr} (hn : 0 < n) (h : ∀ e ∈ es, e.height < n) :
    heightAll es < n := by
  induction es with
  | nil => exact hn
  | cons e es ih =>
    exact Nat.max_lt.mpr ⟨h e List.mem_cons_self, ih fun e he => h e (List.mem_cons_of_mem _ he)⟩

end Expr

/-- The greatest height of an expression without operators and suffixes that is
read with the given room. -/
def tallest : Nat → Nat
  | 0 => 1
  | room + 1 => (room + 1) * (room + 2)

theorem tallest_succ (r : Nat) : tallest r + 2 * r + 1 ≤ tallest (r + 1) ∧
    (0 < r → tallest r + 2 * r + 2 ≤ tallest (r + 1)) := by
  cases r with
  | zero => decide
  | succ r =>
    have h : tallest (r + 1 + 1) = tallest (r + 1) + 2 * (r + 1) + 2 := by
      show (r + 2) * (r + 3) = (r + 1) * (r + 2) + 2 * (r + 1) + 2
      ring
    omega

theorem tallest_mono {l r : Nat} (h : l ≤ r) : tallest l ≤ tallest r := by
  induction h with
  | refl => exact Nat.le_refl _
  | @step m _ ih =>
    have hstep : tallest m + 2 * m + 1 ≤ tallest m.succ := (tallest_succ m).1
    omega

theorem tallest_pos (r : Nat) : 0 < tallest r := tallest_mono (Nat.zero_le r)

/-- The height is within what the form has room for. The room that a chain has
left is height that it can still take. -/
def Form.Fits : Form → Nat → Prop
  | .expression r, h => h < tallest r
  | .primary r _, h => h ≤ tallest r
  | .suffixed r l _, h => l ≤ r ∧ h + l ≤ tallest r + r
  | .unary r _, h => h ≤ tallest r + r
  | .chain r l _ _ _, h => l ≤ r ∧ h + l ≤ tallest r + 2 * r

/-- **What is read fits**: no step grows a tree beyond what it has room for. -/
theorem Derives.fits {g : Grammar} {form : Form} {e : Expr} (h : Derives g form e) :
    form.Fits e.height := by
  -- what stands between brackets is lower than a primary expression may be
  have arguments {r : Nat} {es : List Expr} (h : ∀ e ∈ es, (Form.expression r).Fits e.height) :
      Expr.heightAll es < tallest r := Expr.heightAll_lt (tallest_pos r) h
  induction h with
  | literal | it | name | typeName => exact tallest_pos _
  | call _ _ _ ih | iif _ ih | conversion _ _ _ ih | newRecord _ _ _ ih | newArray _ _ ih =>
    exact arguments ih
  | parens _ ih => exact Nat.le_of_lt ih
  | target _ ih => exact ⟨Nat.le_refl _, Nat.add_le_add_right ih _⟩
  | member _ _ ih =>
    obtain ⟨hl, h⟩ := ih
    simp only [Form.Fits, Expr.height]
    omega
  | callOn _ _ _ ih ihs | index _ _ _ ih ihs =>
    obtain ⟨hl, h⟩ := ih
    have hes := arguments ihs
    have hroom := tallest_mono (Nat.le_of_succ_le hl)
    simp only [Form.Fits, Expr.height]
    omega
  | operand _ ih => exact Nat.le_trans (Nat.le_add_right _ _) ih.2
  | @unary r _ _ _ _ _ _ _ ih =>
    have hroom := (tallest_succ r).1
    simp only [Form.Fits, Expr.height] at ih ⊢
    omega
  | chain _ ih =>
    simp only [Form.Fits] at ih ⊢
    omega
  | @binary r l l' _ _ _ _ _ _ _ _ _ _ _ _ _ ih ih' =>
    obtain ⟨hl, h⟩ := ih
    obtain ⟨-, h'⟩ := ih'
    have hroom := (tallest_succ l).1
    have hroom' := tallest_mono (show l + 1 ≤ r by omega)
    simp only [Form.Fits, Expr.height]
    omega
  | inList _ _ _ _ ih ihs =>
    obtain ⟨hl, h⟩ := ih
    have hes := arguments ihs
    have hroom := tallest_mono (Nat.le_of_succ_le hl)
    simp only [Form.Fits, Expr.height]
    omega
  | @inSource r l l' _ _ _ _ _ _ _ _ _ _ _ _ _ ih ih' =>
    obtain ⟨hl, h⟩ := ih
    obtain ⟨-, h'⟩ := ih'
    have hroom := (tallest_succ l).1
    have hroom' := tallest_mono hl
    simp only [Form.Fits, Expr.height]
    omega
  | @expression r _ _ _ _ _ ih =>
    have hroom := (tallest_succ r).1
    simp only [Form.Fits] at ih ⊢
    omega
  | @conditional r _ _ _ _ a _ _ _ _ _ ih iha ihb =>
    -- without room there are no branches
    have hpos : 0 < r := by
      have ha := a.height_pos
      by_contra h0
      obtain rfl : r = 0 := by omega
      exact absurd iha (by simp only [Form.Fits, tallest]; omega)
    have hroom := (tallest_succ r).2 hpos
    simp only [Form.Fits, Expr.height] at ih iha ihb ⊢
    omega

namespace Expr

/-- **The limit of the nesting bounds the height of every tree that is read**,
by a product and not by a multiple of it. -/
theorem height_of_parse {g : Grammar} {text : List Char} {e : Expr} (h : parse g text = .ok e) :
    e.height < g.limit * (g.limit + 1) := by
  have hfits : e.height < tallest g.limit := (derives_of_parse h).fits
  have hpos := e.height_pos
  cases hl : g.limit with
  | zero =>
    rw [hl] at hfits
    exact absurd hfits (by simp only [tallest]; omega)
  | succ r =>
    rw [hl] at hfits
    exact hfits

/-- A tree as high as the limit two allows: a suffix, a membership and a
conditional around a call, each within a chain of its own. -/
theorem height_of_parse_highest : ∃ e,
    parse ⟨2, fun _ => false⟩ "f(x).a in () ? y : z".toList = .ok e ∧ e.height = 5 ∧
      e.height < 2 * (2 + 1) := by
  have h : (parse ⟨2, fun _ => false⟩ "f(x).a in () ? y : z".toList).toOption.map height =
      some 5 := by decide +kernel
  obtain ⟨e, hp, h5⟩ := exists_of_parse_map h
  exact ⟨e, hp, h5, height_of_parse hp⟩

/-- The suffixes have given back what they charged for when the operator is
read, so that the limit three lets a tree grow to the height of seven. -/
theorem not_height_le_twice_limit : ¬ ∀ (g : Grammar) (text : List Char) (e : Expr),
    parse g text = .ok e → e.height ≤ 2 * g.limit := by
  have h : (parse ⟨3, fun _ => false⟩ "f(g(x).a).b.c + d".toList).toOption.map height =
      some 7 := by decide +kernel
  obtain ⟨e, hp, h7⟩ := exists_of_parse_map h
  intro hall
  have hle := hall _ _ e hp
  rw [h7] at hle
  exact absurd hle (by decide)

end Expr
end QueryExpr
