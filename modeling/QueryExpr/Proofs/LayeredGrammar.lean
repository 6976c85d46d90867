/-
# The layered grammar of expressions

A second reader of expressions has one step for each level of the grammar: a
conditional, `??`, disjunctions, conjunctions, equalities, comparisons, sums
and products, down to unary operators, from where on it is the same as the
first. It does not climb, and it does not count how deep operators and
conditionals are nested.

The fuel bounds loops and recursion as it does for the first reader. It has no
operator `in`.

Key definitions: `Level.operator?`, `Layered.leftChain`, `Layered.coalescing`,
`Layered.expression`, `Layered.parse`, `Layered.above`, `Layered.links`.
Key theorems: `Layered.above_eq`, `Layered.links_split`, `Layered.links_ends`,
`Layered.links_operator`.
-/
import Mathlib.Logic.Function.Basic
import QueryExpr.Proofs.SharedReading

namespace QueryExpr

/-- The operators that a level takes its operands from the left for, by the
tokens that spell them. -/
def Level.operator? : Level → TokenKind → Option BinaryOp
  | .disjunction, .doubleBar | .disjunction, .orWord => some .or
  | .conjunction, .doubleAmpersand | .conjunction, .andWord => some .and
  | .equality, .doubleEqual | .equality, .equal => some .equal
  | .equality, .notEqual | .equality, .lessGreater => some .notEqual
  | .relational, .less => some .less
  | .relational, .lessEqual => some .lessEqual
  | .relational, .greater => some .greater
  | .relational, .greaterEqual => some .greaterEqual
  | .additive, .plus => some .add
  | .additive, .minus => some .subtract
  | .multiplicative, .asterisk => some .multiply
  | .multiplicative, .slash => some .divide
  | .multiplicative, .percent => some .modulo
  | _, _ => none

namespace Layered

open Reader

/-- Reads on behind a left operand as long as operators of the level follow. -/
def leftChain (level : Level) (operand : Reader Expr) : (fuel : Nat) → Expr → Reader Expr
  | 0, left => return left
  | fuel + 1, left => do
    match level.operator? (← kind) with
    | none => return left
    | some op =>
      advance
      let right ← operand
      leftChain level operand fuel (.binary op left right (left.span.union right.span))

section
variable (g : Grammar) (expr : Reader Expr) (fuel : Nat)

/-- Reads operands with operators of the level between them. -/
def leftLayer (level : Level) (operand : Reader Expr) : Reader Expr := do
  leftChain level operand fuel (← operand)

/-- Reads a product of unary expressions. -/
def multiplicative : Reader Expr := leftLayer fuel .multiplicative (unary g expr fuel)

/-- Reads a sum of products. -/
def additive : Reader Expr := leftLayer fuel .additive (multiplicative g expr fuel)

/-- Reads a comparison of sums. -/
def relational : Reader Expr := leftLayer fuel .relational (additive g expr fuel)

/-- Reads an equality of comparisons. -/
def equality : Reader Expr := leftLayer fuel .equality (relational g expr fuel)

/-- Reads a conjunction of equalities. -/
def conjunction : Reader Expr := leftLayer fuel .conjunction (equality g expr fuel)

/-- Reads a disjunction of conjunctions. -/
def disjunction : Reader Expr := leftLayer fuel .disjunction (conjunction g expr fuel)

/-- Reads disjunctions with `??` between them, which takes its operands from
the right. -/
def coalescing : (links : Nat) → Reader Expr
  | 0 => disjunction g expr fuel
  | links + 1 => do
    let left ← disjunction g expr fuel
    if (← kind) == .doubleQuestion then
      advance
      let right ← coalescing links
      return .binary .coalesce left right (left.span.union right.span)
    else return left

/-- Reads an expression that may be a conditional, with branches read by
`expr`. -/
def conditional : Reader Expr := do
  let condition ← coalescing g expr fuel fuel
  if (← kind) == .question then
    advance
    let whenTrue ← expr
    expect .colon
    let whenFalse ← expr
    return .conditional condition whenTrue whenFalse (condition.span.union whenFalse.span)
  else return condition

end

/-- Reads an expression from at most `fuel - 1` tokens. -/
def expression (g : Grammar) : (fuel : Nat) → Reader Expr
  | 0 => unexpected
  | fuel + 1 => conditional g (expression g fuel) fuel

/-- Reads an expression up to the end of the text. -/
def whole (g : Grammar) (fuel : Nat) : Reader Expr := do
  meetFault
  let e ← expression g fuel
  if (← kind) != .endOfText then unexpected
  return e

/-- The expression that the tokens of a text from `start` on spell. -/
def ofTokens (g : Grammar) (fuel start : Nat) (ts : Tokens) : Except Failure Expr :=
  (whole g fuel (Cursor.atStart start ts)).1

/-- The expression that a text spells. -/
def parse (g : Grammar) (fuel : Nat) (text : List Char) : Except Failure Expr :=
  ofTokens g fuel 0 (tokens text)

end Layered

/-! ### Levels -/

namespace Level

/-- The levels of binary operators, from the strongest on. -/
def binary : List Level :=
  [.multiplicative, .additive, .relational, .equality, .conjunction, .disjunction, .coalescing]

/-- The levels of binary operators that bind more strongly than the bound. -/
def stronger (bound : Level) : List Level := binary.filter fun l => bound.rank < l.rank

theorem sorted_stronger (bound : Level) : bound.stronger.Pairwise fun l m => m.rank < l.rank := by
  have h : binary.Pairwise fun l m => m.rank < l.rank := by decide
  exact h.filter _

theorem mem_binary {k : TokenKind} {l : Level} (h : k.level? = some l) : l ∈ binary := by
  cases k <;> cases h <;> decide

theorem mem_stronger {k : TokenKind} {l bound : Level} (h : k.level? = some l)
    (hb : bound.rank < l.rank) : l ∈ bound.stronger :=
  List.mem_filter.mpr ⟨mem_binary h, by simpa using hb⟩

/-- A token spells an operator of the level that it has. -/
theorem operator?_eq {l : Level} (hl : l ≠ .coalescing) (k : TokenKind) :
    l.operator? k = if k.level? = some l then BinaryOp.ofToken? k else none := by
  cases l <;> first | exact absurd rfl hl | cases k <;> rfl

theorem ne_endOfText {k : TokenKind} {l : Level} (h : k.level? = some l) : k ≠ .endOfText := by
  rintro rfl
  cases h

theorem operator_of_level {k : TokenKind} {l : Level} (h : k.level? = some l)
    (hk : k ≠ .inWord) : ∃ op, BinaryOp.ofToken? k = some op := by
  cases k <;> first | exact absurd rfl hk | exact ⟨_, rfl⟩ | cases h

theorem level_coalescing {k : TokenKind} (h : k.level? = some .coalescing) :
    k = .doubleQuestion := by
  cases k <;> cases h
  rfl

end Level

/-! ### One level after the other -/

namespace Layered

open Reader
open Level (Ends)

section
variable (g : Grammar) (expr : Reader Expr) (fuel : Nat)

/-- Reads an operand of what binds more strongly than the bound. -/
def above (links : Nat) : Level → Reader Expr
  | .lowest | .conditional => coalescing g expr fuel links
  | .coalescing => disjunction g expr fuel
  | .disjunction => conjunction g expr fuel
  | .conjunction => equality g expr fuel
  | .equality => relational g expr fuel
  | .relational => additive g expr fuel
  | .additive => multiplicative g expr fuel
  | .multiplicative | .unary | .primary => unary g expr fuel

/-- Reads on behind the left operand of `??`. -/
def coalescingRest : (links : Nat) → Expr → Reader Expr
  | 0, left => return left
  | links + 1, left => do
    if (← kind) == .doubleQuestion then
      advance
      let right ← coalescing g expr fuel links
      return .binary .coalesce left right (left.span.union right.span)
    else return left

/-- Reads on behind a left operand with the operators of one level. -/
def linksOf (loops : Level → Nat) (left : Expr) (level : Level) : Reader Expr :=
  if level = .coalescing then coalescingRest g expr fuel (loops level) left
  else leftChain level (above g expr fuel fuel level) (loops level) left

/-- Reads on behind a left operand with the operators that bind more strongly
than the bound, level by level. -/
def links (loops : Level → Nat) (bound : Level) (left : Expr) : Reader Expr :=
  bound.stronger.foldlM (linksOf g expr fuel loops) left

/-- The fuel of the loops of each level. -/
def loopsOf (links : Nat) (level : Level) : Nat := if level = .coalescing then links else fuel

theorem coalescing_eq (links : Nat) : coalescing g expr fuel links =
    (disjunction g expr fuel >>= coalescingRest g expr fuel links) := by
  cases links with
  | zero => exact (bind_pure _).symm
  | succ links => rfl

/-- **Each level reads a unary expression first**, and then goes on with the
operators of the levels above it, the strongest first. -/
theorem above_eq (n : Nat) (bound : Level) : above g expr fuel n bound =
    (unary g expr fuel >>= links g expr fuel (loopsOf fuel n) bound) := by
  have h : above g expr fuel n bound = (do
      let e ← unary g expr fuel
      bound.stronger.foldlM (linksOf g expr fuel (loopsOf fuel n)) e) := by
    cases bound <;>
      simp [above, coalescing_eq, disjunction, conjunction, equality, relational, additive,
        multiplicative, leftLayer, Level.stronger, Level.binary, Level.rank, linksOf, loopsOf]
  exact h

end

/-! ### Operators of one level -/

variable {g : Grammar} {expr : Reader Expr} {fuel n : Nat} {loops : Level → Nat}
  {bound level : Level} {left : Expr} {op : BinaryOp} {c : Cursor}

theorem linksOf_skip (h : c.current.kind.level? ≠ some level) :
    linksOf g expr fuel loops left level c = (.ok left, c) := by
  unfold linksOf
  split
  · rename_i hl
    cases loops level with
    | zero => rfl
    | succ n =>
      have hk : (c.current.kind == .doubleQuestion) = false := by
        refine beq_eq_false_iff_ne.mpr fun hk => h ?_
        rw [hk, hl]
        rfl
      show (if (c.current.kind == .doubleQuestion) = true then _ else return left : Reader Expr) c = _
      rw [hk]
      rfl
  · rename_i hl
    cases loops level with
    | zero => rfl
    | succ n =>
      show (match level.operator? c.current.kind with
        | none => return left
        | some op => _ : Reader Expr) c = _
      rw [Level.operator?_eq hl, if_neg h]
      rfl

theorem foldlM_skip {ls : List Level} (h : ∀ l ∈ ls, c.current.kind.level? ≠ some l) :
    ls.foldlM (linksOf g expr fuel loops) left c = (.ok left, c) := by
  induction ls with
  | nil => rfl
  | cons l ls ih =>
    rw [List.foldlM_cons, Step.bind_apply, linksOf_skip (h l List.mem_cons_self)]
    exact ih fun m hm => h m (List.mem_cons_of_mem _ hm)

theorem foldlM_fuel {loops' : Level → Nat} {ls : List Level} (h : ∀ l ∈ ls, loops' l = loops l) :
    ls.foldlM (linksOf g expr fuel loops') left = ls.foldlM (linksOf g expr fuel loops) left := by
  induction ls generalizing left with
  | nil => rfl
  | cons l ls ih =>
    have hl : linksOf g expr fuel loops' left l = linksOf g expr fuel loops left l := by
      unfold linksOf
      rw [h l List.mem_cons_self]
    rw [List.foldlM_cons, List.foldlM_cons, hl]
    exact bind_congr fun e => ih fun m hm => h m (List.mem_cons_of_mem _ hm)

theorem linksOf_left (hl : level ≠ .coalescing) (hf : loops level = n + 1)
    (hk : c.current.kind.level? = some level) (hop : BinaryOp.ofToken? c.current.kind = some op) :
    linksOf g expr fuel loops left level c = (do
      advance
      let right ← above g expr fuel fuel level
      leftChain level (above g expr fuel fuel level) n
        (Expr.binary op left right (left.span.union right.span))) c := by
  unfold linksOf
  rw [if_neg hl, hf]
  show (match level.operator? c.current.kind with
    | none => return left
    | some op => _ : Reader Expr) c = _
  rw [Level.operator?_eq hl, if_pos hk, hop]

theorem linksOf_right (hf : loops .coalescing = n + 1) (hk : c.current.kind = .doubleQuestion) :
    linksOf g expr fuel loops left .coalescing c = (do
      advance
      let right ← coalescing g expr fuel n
      return Expr.binary .coalesce left right (left.span.union right.span)) c := by
  unfold linksOf
  rw [if_pos rfl, hf]
  show (if (c.current.kind == .doubleQuestion) = true then _ else return left : Reader Expr) c = _
  rw [hk]
  rfl

/-- Where no operator of a stronger level comes next, reading on starts with
the operators of the level. -/
theorem links_split (g : Grammar) (expr : Reader Expr) (fuel : Nat)
    (hl : level ∈ bound.stronger) :
    ∃ rest : (Level → Nat) → Expr → Reader Expr,
      (∀ loops loops', (∀ l, l ≠ level → loops' l = loops l) → rest loops' = rest loops) ∧
      ∀ loops left c, (∀ l, level.rank < l.rank → c.current.kind.level? ≠ some l) →
        links g expr fuel loops bound left c =
          (linksOf g expr fuel loops left level >>= rest loops) c := by
  obtain ⟨ls, rs, hsplit⟩ := List.append_of_mem hl
  have hsorted := Level.sorted_stronger bound
  rw [hsplit] at hsorted
  obtain ⟨-, hrs, hls⟩ := List.pairwise_append.mp hsorted
  have hweaker : ∀ m ∈ rs, m ≠ level := by
    intro m hm he
    have := (List.pairwise_cons.mp hrs).1 m hm
    rw [he] at this
    exact Nat.lt_irrefl _ this
  refine ⟨fun loops left => rs.foldlM (linksOf g expr fuel loops) left,
    fun loops loops' h => funext fun left => ?_, fun loops left c h => ?_⟩
  · exact foldlM_fuel fun m hm => h m (hweaker m hm)
  · have hskip : ls.foldlM (linksOf g expr fuel loops) left c = (.ok left, c) :=
      foldlM_skip fun m hm => h m (hls m hm level List.mem_cons_self)
    unfold links
    rw [hsplit, List.foldlM_append, Step.bind_apply, hskip]
    show (level :: rs).foldlM (linksOf g expr fuel loops) left c = _
    rw [List.foldlM_cons]

theorem links_ends (h : Ends bound c.current.kind) :
    links g expr fuel loops bound left c = (.ok left, c) := by
  refine foldlM_skip fun l hl hk => ?_
  have hrank : bound.rank < l.rank := by simpa using (List.mem_filter.mp hl).2
  have hle := h l hk
  omega

/-- **An operator that binds more strongly than the bound is read with its
right operand**, and then reading goes on with what it makes. -/
theorem links_operator (expr : Reader Expr) (left : Expr)
    (hk : c.current.kind.level? = some level)
    (hop : BinaryOp.ofToken? c.current.kind = some op) (hb : bound.rank < level.rank)
    (hf : n ≤ fuel) (hloops : ∀ l, n + 1 ≤ loops l) :
    ∃ (m : Nat) (loops' : Level → Nat) (rest : Expr → Reader Expr), n ≤ m ∧ (∀ l, n ≤ loops' l) ∧
      links g expr fuel loops bound left c = (do
        advance
        let right ← above g expr fuel m (c.current.kind.rightBound level)
        rest (Expr.binary op left right (left.span.union right.span))) c ∧
      ∀ e d, Ends (c.current.kind.rightBound level) d.current.kind →
        rest e d = links g expr fuel loops' bound e d := by
  have hmem := Level.mem_stronger hk hb
  obtain ⟨rest, hrest, hlinks⟩ := links_split g expr fuel hmem
  obtain ⟨f, hfuel⟩ : ∃ f, loops level = f + 1 := ⟨loops level - 1, by have := hloops level; omega⟩
  have hstart := hlinks loops left c fun l hlt hl => by
    rw [hk] at hl
    cases hl
    exact Nat.lt_irrefl _ hlt
  by_cases hl : level = .coalescing
  · subst hl
    have hkind := Level.level_coalescing hk
    obtain rfl : op = .coalesce := by
      rw [hkind] at hop
      exact (Option.some.inj hop).symm
    have hbound : c.current.kind.rightBound .coalescing = .conditional := by rw [hkind]; rfl
    have hm : n ≤ f := by
      have := hloops .coalescing
      omega
    rw [hbound]
    refine ⟨f, loops, rest loops, hm, fun l => Nat.le_of_succ_le (hloops l), ?_, fun e d hd => ?_⟩
    · rw [hstart, Step.bind_apply, linksOf_right hfuel hkind, ← Step.bind_apply]
      simp only [bind_assoc, pure_bind]
      rfl
    · have hno (l : Level) (hlt : Level.conditional.rank < l.rank) :
          d.current.kind.level? ≠ some l := fun h => Nat.not_lt.mpr (hd l h) hlt
      rw [hlinks loops e d fun l hlt => hno l (Nat.lt_trans (by decide) hlt), Step.bind_apply,
        linksOf_skip (hno .coalescing (by decide))]
  · have hbound : c.current.kind.rightBound level = level := by
      unfold TokenKind.rightBound
      split
      · rename_i hkind
        rw [beq_iff_eq.mp hkind] at hk
        exact absurd (Option.some.inj hk).symm hl
      · rfl
    rw [hbound]
    refine ⟨fuel, Function.update loops level f,
      fun e => leftChain level (above g expr fuel fuel level) f e >>= rest loops, hf, fun l => ?_,
      ?_, fun e d hd => ?_⟩
    · have := hloops l
      by_cases he : l = level
      · subst he
        rw [Function.update_self]
        omega
      · rw [Function.update_of_ne he]
        omega
    · rw [hstart, Step.bind_apply, linksOf_left hl hfuel hk hop, ← Step.bind_apply]
      simp only [bind_assoc]
    · have hsame : rest (Function.update loops level f) = rest loops :=
        hrest _ _ fun l he => Function.update_of_ne he ..
      rw [hlinks _ e d fun l hlt h => Nat.not_lt.mpr (hd l h) hlt, hsame]
      unfold linksOf
      rw [if_neg hl, Function.update_self]

end Layered

end QueryExpr
