/-
# The depth of the nesting is balanced

Reading counts how deep it is. It counts up before it goes deeper, which may pass
the limit, and counts back when it has come out again, on failure as well; a chain
is counted up link by link and counted back as a whole. Whatever a step of the
parser comes to, it counts back no more than it has counted up, and if it goes on
it has counted back everything (`Reader.depth_balanced`).

The invariant is about a chain in the making: what it has charged for is in the
depth as well (`Linked`). A step that counts back what it charges for is balanced
(`Balanced`).

Key definitions: `Reader.Linked`, `Reader.Balanced`, `Reader.Routine`,
`Reader.Deeper`, `Reader.Chained`, `Reader.Release`.
Key theorems: `Reader.Linked.bind`, `Reader.Balanced.within`, `Reader.Linked.charging`,
`Reader.balanced_expression`, `Reader.Release.depth`, `Reader.depth_balanced`.
-/
import QueryExpr.Proofs.RaisedLimit

namespace QueryExpr.Reader

variable {α β : Type} {limit fuel : Nat} {g : Grammar} {expr : Reader Expr} {m : Reader α}
  {f : α → Reader β}

/-- What the step charges for it adds to the depth. If it fails, the depth may be
higher than that. -/
structure Linked (m : Reader α) : Prop where
  charged : ∀ c, c.charged ≤ (m c).2.charged
  depth : ∀ c, c.depth + (m c).2.charged ≤ (m c).2.depth + c.charged
  exact : ∀ c x d, m c = (.ok x, d) → d.depth + c.charged = c.depth + d.charged

/-- The step charges for nothing, and leaves the depth as it was. If it fails, the
depth may be higher than that. -/
structure Balanced (m : Reader α) : Prop where
  charged : ∀ c, (m c).2.charged = c.charged
  depth : ∀ c, c.depth ≤ (m c).2.depth
  exact : ∀ c x d, m c = (.ok x, d) → d.depth = c.depth

/-! ### One step after the other -/

theorem Balanced.linked (h : Balanced m) : Linked m where
  charged c := Nat.le_of_eq (h.charged c).symm
  depth c := by
    have hcharged := h.charged c
    have hdepth := h.depth c
    omega
  exact c x d hm := by
    have hcharged : d.charged = c.charged := by simpa only [hm] using h.charged c
    rw [h.exact c x d hm, hcharged]

theorem Linked.bind (h : Linked m) (hf : ∀ x, Linked (f x)) : Linked (m >>= f) := by
  have step (c : Cursor) : (∃ e d, m c = (.error e, d) ∧ (m >>= f) c = (.error e, d)) ∨
      ∃ x d, m c = (.ok x, d) ∧ (m >>= f) c = f x d := by
    rw [Step.bind_apply]
    rcases m c with ⟨e | x, d⟩
    · exact .inl ⟨e, d, rfl, rfl⟩
    · exact .inr ⟨x, d, rfl, rfl⟩
  refine ⟨fun c => ?_, fun c => ?_, fun c y d' heq => ?_⟩
  · have hc := h.charged c
    obtain ⟨e, d, hm, hbind⟩ | ⟨x, d, hm, hbind⟩ := step c <;> rw [hm] at hc <;> rw [hbind]
    · exact hc
    · exact Nat.le_trans hc ((hf x).charged d)
  · have hc := h.depth c
    obtain ⟨e, d, hm, hbind⟩ | ⟨x, d, hm, hbind⟩ := step c <;> rw [hbind]
    · rw [hm] at hc
      exact hc
    · have hexact := h.exact c x d hm
      have hd := (hf x).depth d
      omega
  · obtain ⟨e, d, hm, hbind⟩ | ⟨x, d, hm, hbind⟩ := step c <;> rw [hbind] at heq
    · cases heq
    · have hexact := h.exact c x d hm
      have hexact' := (hf x).exact d y d' heq
      omega

theorem Balanced.bind (h : Balanced m) (hf : ∀ x, Balanced (f x)) : Balanced (m >>= f) := by
  have hlinked := h.linked.bind fun x => (hf x).linked
  have hcharged (c : Cursor) : ((m >>= f) c).2.charged = c.charged := by
    have hc := h.charged c
    rw [Step.bind_apply]
    rcases hm : m c with ⟨e | x, d⟩ <;> rw [hm] at hc
    · exact hc
    · exact ((hf x).charged d).trans hc
  refine ⟨hcharged, fun c => ?_, fun c y d heq => ?_⟩
  · have hdepth := hlinked.depth c
    rw [hcharged c] at hdepth
    omega
  · have hdepth := hlinked.exact c y d heq
    have hd : d.charged = c.charged := by simpa only [heq] using hcharged c
    omega

/-- A step that counts nothing. -/
theorem balanced_of_steady (hcharged : ∀ c, (m c).2.charged = c.charged)
    (hdepth : ∀ c, (m c).2.depth = c.depth) : Balanced m where
  charged := hcharged
  depth c := Nat.le_of_eq (hdepth c).symm
  exact c x d hm := by simpa only [hm] using hdepth c

theorem balanced_pure (x : α) : Balanced (pure x) :=
  balanced_of_steady (fun _ => rfl) fun _ => rfl

theorem balanced_fail (cause : Cause) (span : Span) : Balanced (fail cause span : Reader α) :=
  balanced_of_steady (fun _ => rfl) fun _ => rfl

theorem balanced_current : Balanced current := balanced_of_steady (fun _ => rfl) fun _ => rfl

theorem balanced_kind : Balanced kind := balanced_of_steady (fun _ => rfl) fun _ => rfl

theorem balanced_name : Balanced name := balanced_of_steady (fun _ => rfl) fun _ => rfl

theorem balanced_get : Balanced (MonadState.get : Reader Cursor) :=
  balanced_of_steady (fun _ => rfl) fun _ => rfl

theorem balanced_spanFrom (start : Nat) : Balanced (spanFrom start) :=
  balanced_of_steady (fun _ => rfl) fun _ => rfl

theorem balanced_meetFault : Balanced meetFault :=
  balanced_of_steady (fun c => by rw [meetFault_apply]) fun c => by rw [meetFault_apply]

theorem balanced_advance : Balanced advance :=
  .bind (m := modify Cursor.moved) (balanced_of_steady (fun _ => rfl) fun _ => rfl)
    fun _ => balanced_meetFault

theorem balanced_expect (k : TokenKind) : Balanced (expect k) := by
  refine balanced_current.bind fun t => ?_
  split
  · exact balanced_advance
  · exact balanced_fail _ _

theorem balanced_unexpected : Balanced (unexpected : Reader α) := by
  refine balanced_current.bind fun t => ?_
  split <;> exact balanced_fail _ _

/-! ### Going deeper -/

/-- Where the step that is read one level deeper ends, there is a level to count back. -/
theorem Balanced.deeper (h : Balanced m) {c d : Cursor} (he : enter limit c = (.ok (), d)) :
    c.depth + 1 ≤ (m d).2.depth := by
  rw [enter_apply] at he
  obtain ⟨-, rfl⟩ := Prod.mk.inj he
  exact h.depth { c with depth := c.depth + 1 }

theorem Balanced.within (h : Balanced m) : Balanced (within limit m) := by
  have step (c : Cursor) :
      (∃ e, Reader.within limit m c = (.error e, { c with depth := c.depth + 1 })) ∨
      Reader.within limit m c = ((m { c with depth := c.depth + 1 }).1,
        { (m { c with depth := c.depth + 1 }).2 with
          depth := (m { c with depth := c.depth + 1 }).2.depth - 1 }) := by
    unfold Reader.within
    rw [Step.bind_apply, enter_apply]
    by_cases hlimit : limit < c.depth + 1
    · rw [if_pos hlimit]
      exact .inl ⟨_, rfl⟩
    · rw [if_neg hlimit]
      exact .inr rfl
  refine ⟨fun c => ?_, fun c => ?_, fun c x d heq => ?_⟩
  · obtain ⟨e, heq⟩ | heq := step c <;> rw [heq]
    exact h.charged { c with depth := c.depth + 1 }
  · obtain ⟨e, heq⟩ | heq := step c <;> rw [heq]
    · exact Nat.le_succ _
    · exact Nat.le_sub_of_add_le (h.depth { c with depth := c.depth + 1 })
  · obtain ⟨e, hstep⟩ | hstep := step c <;> rw [hstep] at heq
    · cases heq
    · obtain ⟨hx, rfl⟩ := Prod.mk.inj heq
      have hdepth := h.exact { c with depth := c.depth + 1 } x _ (Prod.ext hx rfl)
      show (m { c with depth := c.depth + 1 }).2.depth - 1 = c.depth
      rw [hdepth, Nat.add_sub_cancel]

theorem linked_charge : Linked (charge limit) where
  charged c := by rw [charge_apply]; exact Nat.le_succ _
  depth c := by rw [charge_apply]; show c.depth + (c.charged + 1) ≤ c.depth + 1 + c.charged; omega
  exact c x d heq := by
    rw [charge_apply] at heq
    obtain ⟨-, rfl⟩ := Prod.mk.inj heq
    show c.depth + 1 + c.charged = c.depth + (c.charged + 1)
    omega

/-- Where the chain ends, what it has charged for is there to be counted back. -/
theorem Linked.chained (h : Linked m) (c : Cursor) :
    c.depth + (m { c with charged := 0 }).2.charged ≤ (m { c with charged := 0 }).2.depth :=
  h.depth { c with charged := 0 }

theorem Linked.charging (h : Linked m) : Balanced (charging m) where
  charged _ := rfl
  depth c := Nat.le_sub_of_add_le (h.chained c)
  exact c x d heq := by
    obtain ⟨hx, rfl⟩ := Prod.mk.inj heq
    have hdepth := h.exact { c with charged := 0 } x _ (Prod.ext hx rfl)
    exact Nat.sub_eq_of_eq_add hdepth

/-! ### Lists and literals -/

section
variable (close : TokenKind) (h : Balanced m)
include h

theorem balanced_itemsUpTo : ∀ fuel : Nat, Balanced (itemsUpTo close m fuel)
  | 0 => h.bind fun _ => (balanced_expect close).bind fun _ => balanced_pure _
  | fuel + 1 => by
    refine h.bind fun x => balanced_kind.bind fun k => ?_
    split
    · exact balanced_advance.bind fun _ => (balanced_itemsUpTo fuel).bind fun _ => balanced_pure _
    · exact (balanced_expect close).bind fun _ => balanced_pure _

theorem balanced_listUpTo (fuel : Nat) : Balanced (listUpTo close m fuel) := by
  refine balanced_kind.bind fun k => ?_
  split
  · exact balanced_advance.bind fun _ => balanced_pure _
  · exact balanced_itemsUpTo close h fuel

end

theorem balanced_number (minus : Option Nat) : Balanced (number minus) := by
  refine balanced_current.bind fun t => ?_
  dsimp only
  split
  · exact balanced_fail _ _
  · exact balanced_advance.bind fun _ => balanced_pure _

theorem balanced_literal (v : Literal) : Balanced (literal v) :=
  balanced_current.bind fun _ => balanced_advance.bind fun _ => balanced_pure _

theorem balanced_character : Balanced character := by
  refine balanced_current.bind fun t => ?_
  split
  · exact balanced_literal _
  · exact balanced_fail _ _

/-! ### Names, calls and constructions -/

section
variable (h : Balanced expr)
include h

/-- What stands between the parentheses of a call. -/
theorem balanced_arguments (close : TokenKind) (start : Nat) {k : List Expr → Span → Expr} :
    Balanced (listUpTo close expr fuel >>= fun es => spanFrom start >>= fun s =>
      (pure (k es s) : Reader Expr)) :=
  (balanced_listUpTo close h fuel).bind fun _ => (balanced_spanFrom start).bind fun _ =>
    balanced_pure _

theorem balanced_named : Balanced (named g expr fuel) := by
  refine balanced_name.bind fun n => balanced_advance.bind fun _ => balanced_kind.bind fun k => ?_
  dsimp only
  split
  · split
    · exact balanced_advance.bind fun _ => balanced_arguments h _ _
    · exact balanced_pure _
  · split
    · exact balanced_advance.bind fun _ => balanced_arguments h _ _
    · exact balanced_pure _

theorem balanced_iif : Balanced (iif expr fuel) :=
  balanced_current.bind fun _ => balanced_advance.bind fun _ => (balanced_expect _).bind fun _ =>
    balanced_arguments h _ _

theorem balanced_projection : Balanced (projection expr) := by
  refine balanced_kind.bind fun k => balanced_get.bind fun c => ?_
  split
  · exact balanced_name.bind fun _ => balanced_advance.bind fun _ =>
      balanced_advance.bind fun _ => h.bind fun _ => balanced_pure _
  · refine h.bind fun e => balanced_kind.bind fun k => ?_
    split
    · refine balanced_advance.bind fun _ => balanced_kind.bind fun k => ?_
      have named : Balanced (name >>= fun n => advance >>= fun _ => (pure (n, e) : Reader _)) :=
        balanced_name.bind fun _ => balanced_advance.bind fun _ => balanced_pure _
      split
      · exact balanced_current.bind fun t => (balanced_fail _ _).bind fun _ => named
      · exact named
    · split
      · exact balanced_pure _
      · exact balanced_fail _ _

theorem balanced_newRecord (start : Nat) (close : TokenKind) :
    Balanced (newRecord expr fuel start close) :=
  (balanced_listUpTo close (balanced_projection h) fuel).bind fun _ =>
    (balanced_spanFrom _).bind fun _ => balanced_pure _

theorem balanced_newArray (start : Nat) (type : Option TypeName) :
    Balanced (newArray expr fuel start type) :=
  (balanced_expect _).bind fun _ => balanced_arguments h _ _

theorem balanced_construction : Balanced (construction expr fuel) := by
  refine balanced_current.bind fun t => balanced_advance.bind fun _ =>
    balanced_current.bind fun t' => ?_
  dsimp only
  split
  · exact balanced_advance.bind fun _ => balanced_newRecord h _ _
  · exact balanced_advance.bind fun _ => balanced_newRecord h _ _
  · exact balanced_advance.bind fun _ => (balanced_expect _).bind fun _ => balanced_newArray h _ _
  · split
    · refine balanced_advance.bind fun _ => balanced_kind.bind fun k => ?_
      split
      · exact balanced_advance.bind fun _ => (balanced_expect _).bind fun _ =>
          balanced_newArray h _ _
      · exact balanced_newArray h _ _
    · exact balanced_fail _ _
  · exact balanced_fail _ _

end

/-! ### From primary expressions to conditionals -/

/-- What a conditional reads one level deeper. -/
def conditionalBody (g : Grammar) (expr : Reader Expr) (fuel : Nat) : Reader Expr := do
  let condition ← climb g expr fuel .lowest
  if (← kind) == .question then
    advance
    let whenTrue ← expr
    expect .colon
    let whenFalse ← expr
    return .conditional condition whenTrue whenFalse (condition.span.union whenFalse.span)
  else return condition

theorem conditional_eq (g : Grammar) (expr : Reader Expr) (fuel : Nat) :
    conditional g expr fuel = within g.limit (conditionalBody g expr fuel) := rfl

/-- The chain of operators behind its first operand. -/
def operatorChain (g : Grammar) (expr : Reader Expr) (fuel : Nat) (bound : Level) :
    Reader Expr := do
  let left ← unary g expr (fuel + 1)
  climbChain g expr fuel bound left

theorem climb_succ (g : Grammar) (expr : Reader Expr) (fuel : Nat) (bound : Level) :
    climb g expr (fuel + 1) bound = charging (operatorChain g expr fuel bound) := by
  rw [climb, operatorChain]

section
variable (h : Balanced expr)
include h

theorem balanced_primary : Balanced (primary g expr fuel) := by
  refine balanced_current.bind fun t => ?_
  split
  case h_1 | h_2 => exact balanced_number none
  case h_3 | h_5 | h_6 | h_7 => exact balanced_literal _
  case h_4 => exact balanced_character
  case h_8 => exact balanced_advance.bind fun _ => balanced_pure _
  case h_9 => exact balanced_iif h
  case h_10 => exact balanced_construction h
  case h_11 =>
    exact balanced_advance.bind fun _ => h.bind fun _ => (balanced_expect _).bind fun _ =>
      balanced_pure _
  case h_12 => exact balanced_named h
  case h_13 => exact balanced_unexpected

theorem balanced_memberSuffix (target : Expr) : Balanced (memberSuffix expr fuel target) := by
  have named : Balanced (name >>= fun n => advance >>= fun _ => kind >>= fun k =>
      if (k == .openParen) = true then advance >>= fun _ => listUpTo .closeParen expr fuel >>=
        fun es => spanFrom target.span.start >>= fun s => (pure (.callOn target n es s) : Reader Expr)
      else pure (.member target n (.ofBounds target.span.start n.span.stop))) := by
    refine balanced_name.bind fun n => balanced_advance.bind fun _ => balanced_kind.bind fun k => ?_
    split
    · exact balanced_advance.bind fun _ => balanced_arguments h _ _
    · exact balanced_pure _
  refine balanced_advance.bind fun _ => balanced_kind.bind fun k => ?_
  split
  · exact balanced_current.bind fun t => (balanced_fail _ _).bind fun _ => named
  · exact named

theorem balanced_indexSuffix (target : Expr) : Balanced (indexSuffix expr fuel target) := by
  refine balanced_current.bind fun t => balanced_advance.bind fun _ =>
    (balanced_listUpTo _ h fuel).bind fun es => ?_
  have spanned : Balanced (spanFrom target.span.start >>= fun s =>
      (pure (.index target es s) : Reader Expr)) :=
    (balanced_spanFrom _).bind fun _ => balanced_pure _
  dsimp only
  split
  · exact (balanced_fail _ _).bind fun _ => spanned
  · exact spanned

/-- Each link of a chain charges for itself. -/
theorem linked_suffixChain : ∀ (fuel : Nat) (target : Expr),
    Linked (suffixChain g expr fuel target)
  | 0, _ => (balanced_pure _).linked
  | fuel + 1, target => by
    refine balanced_kind.linked.bind fun k => ?_
    split
    · exact linked_charge.bind fun _ => (balanced_memberSuffix h target).linked.bind fun e =>
        linked_suffixChain fuel e
    · exact linked_charge.bind fun _ => (balanced_indexSuffix h target).linked.bind fun e =>
        linked_suffixChain fuel e
    · exact (balanced_current.bind fun _ => balanced_fail _ _).linked
    · exact (balanced_pure _).linked

theorem balanced_suffixes (target : Expr) : Balanced (suffixes g expr fuel target) :=
  (linked_suffixChain h fuel target).charging

theorem balanced_unary : ∀ fuel : Nat, Balanced (unary g expr fuel)
  | 0 => (balanced_primary h).bind fun _ => balanced_suffixes h _
  | fuel + 1 => by
    refine balanced_current.bind fun t => ?_
    split
    · exact (balanced_primary h).bind fun _ => balanced_suffixes h _
    · refine balanced_get.bind fun c => ?_
      dsimp only
      split
      · exact balanced_advance.bind fun _ => (balanced_number _).bind fun _ => balanced_suffixes h _
      · exact balanced_advance.bind fun _ => (balanced_unary fuel).within.bind fun _ =>
          balanced_pure _

/-- The chain of operators charges for its links, what is read with a bound of its own
for nothing. -/
theorem balanced_climb : ∀ fuel : Nat, (∀ bound, Balanced (climb g expr fuel bound)) ∧
    ∀ bound left, Linked (climbChain g expr fuel bound left)
  | 0 => by
    refine ⟨fun bound => ?_, fun bound left => ?_⟩
    · rw [climb]
      exact balanced_unary h 0
    · rw [climbChain]
      exact (balanced_pure _).linked
  | fuel + 1 => by
    obtain ⟨hclimb, hchain⟩ := balanced_climb fuel
    refine ⟨fun bound => ?_, fun bound left => ?_⟩
    · rw [climb]
      exact ((balanced_unary h (fuel + 1)).linked.bind fun left => hchain bound left).charging
    · rw [climbChain]
      refine balanced_current.linked.bind fun t => ?_
      split
      · exact (balanced_pure _).linked
      · split
        · exact (balanced_pure _).linked
        · refine balanced_advance.linked.bind fun _ => linked_charge.bind fun _ => ?_
          split
          · exact (hclimb _).within.linked.bind fun _ => hchain bound _
          · refine balanced_kind.linked.bind fun k => ?_
            split
            · exact balanced_advance.linked.bind fun _ =>
                (balanced_listUpTo _ h fuel).linked.bind fun _ =>
                  (balanced_spanFrom _).linked.bind fun _ => hchain bound _
            · exact (hclimb _).linked.bind fun _ => (balanced_spanFrom _).linked.bind fun _ =>
                hchain bound _

theorem linked_operatorChain (bound : Level) : Linked (operatorChain g expr fuel bound) :=
  (balanced_unary h (fuel + 1)).linked.bind fun left => (balanced_climb h fuel).2 bound left

theorem balanced_conditionalBody : Balanced (conditionalBody g expr fuel) := by
  refine ((balanced_climb h fuel).1 .lowest).bind fun e => balanced_kind.bind fun k => ?_
  split
  · exact balanced_advance.bind fun _ => h.bind fun _ => (balanced_expect _).bind fun _ =>
      h.bind fun _ => balanced_pure _
  · exact balanced_pure _

end

theorem balanced_expression : ∀ fuel : Nat, Balanced (expression g fuel)
  | 0 => balanced_unexpected
  | fuel + 1 => (balanced_conditionalBody (balanced_expression fuel)).within

theorem balanced_whole (fuel : Nat) : Balanced (whole g fuel) := by
  refine balanced_meetFault.bind fun _ => (balanced_expression fuel).bind fun e =>
    balanced_kind.bind fun k => ?_
  split
  · exact balanced_unexpected.bind fun _ => balanced_pure _
  · exact balanced_pure _

/-! ### Every step of the parser -/

/-- The steps of the parser. What stands between brackets is read by `expression`, from
any number of tokens. -/
inductive Routine (g : Grammar) : {α : Type} → Reader α → Prop
  | whole (fuel : Nat) : Routine g (whole g fuel)
  | expression (n : Nat) : Routine g (expression g n)
  | conditional (n fuel : Nat) : Routine g (conditional g (expression g n) fuel)
  | conditionalBody (n fuel : Nat) : Routine g (conditionalBody g (expression g n) fuel)
  | climb (n fuel : Nat) (bound : Level) : Routine g (climb g (expression g n) fuel bound)
  | unary (n fuel : Nat) : Routine g (unary g (expression g n) fuel)
  | suffixes (n fuel : Nat) (target : Expr) : Routine g (suffixes g (expression g n) fuel target)
  | memberSuffix (n fuel : Nat) (target : Expr) :
    Routine g (memberSuffix (expression g n) fuel target)
  | indexSuffix (n fuel : Nat) (target : Expr) :
    Routine g (indexSuffix (expression g n) fuel target)
  | primary (n fuel : Nat) : Routine g (primary g (expression g n) fuel)
  | number (minus : Option Nat) : Routine g (number minus)
  | literal (v : Literal) : Routine g (literal v)
  | character : Routine g character
  | named (n fuel : Nat) : Routine g (named g (expression g n) fuel)
  | iif (n fuel : Nat) : Routine g (iif (expression g n) fuel)
  | construction (n fuel : Nat) : Routine g (construction (expression g n) fuel)
  | newRecord (n fuel start : Nat) (close : TokenKind) :
    Routine g (newRecord (expression g n) fuel start close)
  | newArray (n fuel start : Nat) (type : Option TypeName) :
    Routine g (newArray (expression g n) fuel start type)
  | projection (n : Nat) : Routine g (projection (expression g n))
  | listUpTo (n fuel : Nat) (close : TokenKind) :
    Routine g (listUpTo close (expression g n) fuel)
  | projections (n fuel : Nat) (close : TokenKind) :
    Routine g (listUpTo close (projection (expression g n)) fuel)

/-- The steps that the parser reads one level deeper. -/
inductive Deeper (g : Grammar) : Reader Expr → Prop
  | conditional (n fuel : Nat) : Deeper g (conditionalBody g (expression g n) fuel)
  | operand (n fuel : Nat) : Deeper g (unary g (expression g n) fuel)
  | right (n fuel : Nat) (bound : Level) : Deeper g (climb g (expression g n) fuel bound)

/-- The chains that the parser counts back as a whole, and what it reads of them behind
their first links. -/
inductive Chained (g : Grammar) : Reader Expr → Prop
  | suffixes (n fuel : Nat) (target : Expr) :
    Chained g (suffixChain g (expression g n) fuel target)
  | operators (n fuel : Nat) (bound : Level) :
    Chained g (operatorChain g (expression g n) fuel bound)
  | links (n fuel : Nat) (bound : Level) (left : Expr) :
    Chained g (climbChain g (expression g n) fuel bound left)

/-- The parser counts `n` back in the state `d` and comes to the state `d'`; it had begun
to count in the state `c`. -/
inductive Release (g : Grammar) (c : Cursor) : (d : Cursor) → (n : Nat) → (d' : Cursor) → Prop
  | level {m : Reader Expr} {r : Except Failure Expr} {entered d : Cursor} (hm : Deeper g m)
    (he : enter g.limit c = (.ok (), entered)) (hrun : m entered = (r, d))
    {d' : Cursor} (hend : within g.limit m c = (r, d')) : Release g c d 1 d'
  | chain {m : Reader Expr} {r : Except Failure Expr} {d : Cursor} (hm : Chained g m)
    (hrun : m { c with charged := 0 } = (r, d))
    {d' : Cursor} (hend : charging m c = (r, d')) : Release g c d d.charged d'

theorem Routine.balanced {m : Reader α} (h : Routine g m) : Balanced m := by
  cases h with
  | whole fuel => exact balanced_whole fuel
  | expression n => exact balanced_expression n
  | conditional n fuel => exact (balanced_conditionalBody (balanced_expression n)).within
  | conditionalBody n fuel => exact balanced_conditionalBody (balanced_expression n)
  | climb n fuel bound => exact (balanced_climb (balanced_expression n) fuel).1 bound
  | unary n fuel => exact balanced_unary (balanced_expression n) fuel
  | suffixes n fuel target => exact balanced_suffixes (balanced_expression n) target
  | memberSuffix n fuel target => exact balanced_memberSuffix (balanced_expression n) target
  | indexSuffix n fuel target => exact balanced_indexSuffix (balanced_expression n) target
  | primary n fuel => exact balanced_primary (balanced_expression n)
  | number minus => exact balanced_number minus
  | literal v => exact balanced_literal v
  | character => exact balanced_character
  | named n fuel => exact balanced_named (balanced_expression n)
  | iif n fuel => exact balanced_iif (balanced_expression n)
  | construction n fuel => exact balanced_construction (balanced_expression n)
  | newRecord n fuel start close => exact balanced_newRecord (balanced_expression n) start close
  | newArray n fuel start type => exact balanced_newArray (balanced_expression n) start type
  | projection n => exact balanced_projection (balanced_expression n)
  | listUpTo n fuel close => exact balanced_listUpTo close (balanced_expression n) fuel
  | projections n fuel close =>
    exact balanced_listUpTo close (balanced_projection (balanced_expression n)) fuel

theorem Deeper.balanced {m : Reader Expr} (h : Deeper g m) : Balanced m := by
  cases h with
  | conditional n fuel => exact balanced_conditionalBody (balanced_expression n)
  | operand n fuel => exact balanced_unary (balanced_expression n) fuel
  | right n fuel bound => exact (balanced_climb (balanced_expression n) fuel).1 bound

theorem Chained.linked {m : Reader Expr} (h : Chained g m) : Linked m := by
  cases h with
  | suffixes n fuel target => exact linked_suffixChain (balanced_expression n) fuel target
  | operators n fuel bound => exact linked_operatorChain (balanced_expression n) bound
  | links n fuel bound left => exact (balanced_climb (balanced_expression n) fuel).2 bound left

/-- **Where the parser counts back it has counted up as much before.** What was counted
when it began to count stays. -/
theorem Release.depth {c d d' : Cursor} {n : Nat} (h : Release g c d n d') :
    c.depth + n ≤ d.depth ∧ d'.depth + n = d.depth := by
  cases h with
  | level hm he hrun hend =>
    have hdeeper := hm.balanced.deeper he
    rw [hrun] at hdeeper
    unfold Reader.within at hend
    rw [Step.bind_apply, he] at hend
    dsimp only [andFinally] at hend
    rw [hrun] at hend
    obtain ⟨-, rfl⟩ := Prod.mk.inj hend
    exact ⟨hdeeper, Nat.sub_add_cancel (Nat.le_trans (Nat.le_add_left 1 c.depth) hdeeper)⟩
  | chain hm hrun hend =>
    have hchained := hm.linked.chained c
    rw [hrun] at hchained
    unfold charging andFinally at hend
    rw [hrun] at hend
    obtain ⟨-, rfl⟩ := Prod.mk.inj hend
    exact ⟨hchained, Nat.sub_add_cancel (Nat.le_trans (Nat.le_add_left _ _) hchained)⟩

/-- **The depth of the nesting is balanced.** Every step of the parser that goes on leaves
the depth as it was, and one that fails leaves it no lower. A chain leaves what its links
have charged for in the depth, and whatever is counted back, a level or the charges of a
chain, is there to be taken from the depth and leaves it as it was before it was counted. -/
theorem depth_balanced (g : Grammar) :
    (∀ {α : Type} {m : Reader α}, Routine g m → ∀ c,
      c.depth ≤ (m c).2.depth ∧ ∀ x d, m c = (.ok x, d) → d.depth = c.depth) ∧
    (∀ {m : Reader Expr}, Chained g m → ∀ c,
      c.charged ≤ (m c).2.charged ∧ c.depth + ((m c).2.charged - c.charged) ≤ (m c).2.depth ∧
      ∀ e d, m c = (.ok e, d) → d.depth = c.depth + (d.charged - c.charged)) ∧
    ∀ {c d d' : Cursor} {n : Nat}, Release g c d n d' →
      c.depth + n ≤ d.depth ∧ d'.depth + n = d.depth := by
  refine ⟨fun hm c => ⟨hm.balanced.depth c, hm.balanced.exact c⟩, fun hm c => ?_,
    fun hrelease => hrelease.depth⟩
  have hcharged := hm.linked.charged c
  have hdepth := hm.linked.depth c
  refine ⟨hcharged, by omega, fun e d heq => ?_⟩
  have hexact := hm.linked.exact c e d heq
  have hd : c.charged ≤ d.charged := by simpa only [heq] using hcharged
  omega

/-- The second member passes a limit of two levels inside of a conditional. Both links have
charged, and both are counted back. -/
theorem depth_balanced_members :
    let g : Grammar := ⟨2, fun _ => false⟩
    let c : Cursor := { Cursor.atStart 0 (tokens "a.b.c".toList) with depth := 1 }
    let chain := suffixChain g (expression g 2) 4 (.name ⟨"a", ⟨0, 1⟩⟩)
    let c' := (primary g (expression g 2) 4 c).2
    let d := (chain { c' with charged := 0 }).2
    c.depth ≤ c'.depth ∧ c'.depth + (d.charged - 0) ≤ d.depth ∧ c'.depth + d.charged ≤ d.depth ∧
      d.depth = 3 ∧ d.charged = 2 := by
  intro g c chain c' d
  refine ⟨((depth_balanced g).1 (.primary 2 4) c).1,
    ((depth_balanced g).2.1 (.suffixes 2 4 _) { c' with charged := 0 }).2.1,
    ((depth_balanced g).2.2 (.chain (.suffixes 2 4 (.name ⟨"a", ⟨0, 1⟩⟩)) rfl rfl)).1, ?_, ?_⟩
  · decide +kernel
  · decide +kernel

end QueryExpr.Reader
