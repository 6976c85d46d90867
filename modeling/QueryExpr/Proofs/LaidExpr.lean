/-
# Expressions laid out on their text

An expression is laid out if every node covers something, holds the nodes and
the names right under it, and has the nodes under it one behind the other. So
what is said of the whole expression holds of everything in it.

Key definitions: `Span.Holds`, `Expr.children`, `Expr.labels`, `Expr.Laid`,
`Expr.Under`, `Expr.Fits`, `Chain`.
Key theorems: `Expr.Laid.under`, `Expr.Fits.of_chain`, `Expr.Fits.relocate_eq`.
-/
import QueryExpr.Proofs.Relocation

namespace QueryExpr

/-- The span reaches over another one. -/
def Span.Holds (s t : Span) : Prop := s.start ≤ t.start ∧ t.stop ≤ s.stop

/-- Several things one behind the other, each of which lies between a position
and a later one. -/
inductive Chain {α : Type} (Fits : Nat → α → Nat → Prop) : Nat → List α → Nat → Prop
  | nil {a b : Nat} (h : a ≤ b) : Chain Fits a [] b
  | cons {a m b : Nat} {x : α} {xs : List α} (head : Fits a x m) (tail : Chain Fits m xs b) :
      Chain Fits a (x :: xs) b

namespace Expr

/-- The expressions right under a node, in the order they are written in. -/
def children : Expr → List Expr
  | .literal _ _ _ | .name _ | .typeName _ => []
  | .member e _ _ => [e]
  | .index e es _ => e :: es
  | .call _ es _ => es
  | .callOn e _ es _ => e :: es
  | .conversion _ es _ => es
  | .unary _ e _ => [e]
  | .binary _ l r _ => [l, r]
  | .conditional c a b _ => [c, a, b]
  | .inList e es _ => e :: es
  | .inSource e s _ => [e, s]
  | .newRecord _ es _ => es
  | .newArray _ es _ => es

/-- The places of the names and of the names of types right under a node. -/
def labels : Expr → List Span
  | .literal _ _ _ | .index _ _ _ | .unary _ _ _ | .binary _ _ _ _ | .conditional _ _ _ _
  | .inList _ _ _ | .inSource _ _ _ => []
  | .name n | .member _ n _ | .call n _ _ | .callOn _ n _ _ => [n.span]
  | .typeName type | .conversion type _ _ => [type.name.span]
  | .newRecord ns _ _ => ns.map (·.span)
  | .newArray type _ _ => type.toList.map (·.name.span)

/-- Every node covers something, holds the nodes and names right under it, and
has the nodes under it one behind the other. -/
inductive Laid : Expr → Prop
  | mk {e : Expr} (nonempty : 0 < e.span.length) (holds : ∀ c ∈ e.children, e.span.Holds c.span)
      (named : ∀ s ∈ e.labels, e.span.Holds s)
      (apart : e.children.Pairwise fun a b => a.span.stop ≤ b.span.start)
      (inner : ∀ c ∈ e.children, c.Laid) : e.Laid

/-- One expression is another one, or lies somewhere under it. -/
inductive Under : Expr → Expr → Prop
  | refl (e : Expr) : Under e e
  | child {p c e : Expr} (h : c ∈ e.children) (under : Under p c) : Under p e

/-- An expression laid out between two positions. -/
structure Fits (a : Nat) (e : Expr) (b : Nat) : Prop where
  laid : e.Laid
  start : a ≤ e.span.start
  stop : e.span.stop ≤ b

variable {a b : Nat} {e p : Expr} {es : List Expr}

namespace Laid

theorem nonempty (h : e.Laid) : 0 < e.span.length := by
  cases h; assumption

theorem holds (h : e.Laid) : ∀ c ∈ e.children, e.span.Holds c.span := by
  cases h; assumption

theorem named (h : e.Laid) : ∀ s ∈ e.labels, e.span.Holds s := by
  cases h; assumption

theorem apart (h : e.Laid) : e.children.Pairwise fun a b => a.span.stop ≤ b.span.start := by
  cases h; assumption

theorem inner (h : e.Laid) : ∀ c ∈ e.children, c.Laid := by
  cases h; assumption

theorem start_lt_stop (h : e.Laid) : e.span.start < e.span.stop :=
  Nat.lt_add_of_pos_right h.nonempty

/-- What lies under a laid out expression is laid out, and inside of it. -/
theorem under (hp : p.Under e) (h : e.Laid) : p.Laid ∧ e.span.Holds p.span := by
  induction hp with
  | refl => exact ⟨h, Nat.le_refl _, Nat.le_refl _⟩
  | child hc _ ih =>
    obtain ⟨hp, hstart, hstop⟩ := ih (h.inner _ hc)
    obtain ⟨hstart', hstop'⟩ := h.holds _ hc
    exact ⟨hp, Nat.le_trans hstart' hstart, Nat.le_trans hstop hstop'⟩

end Laid

theorem Fits.le (h : e.Fits a b) : a ≤ b :=
  Nat.le_trans h.start (Nat.le_trans e.span.start_le_stop h.stop)

theorem Fits.mono {a' b' : Nat} (h : e.Fits a b) (ha : a' ≤ a) (hb : b ≤ b') : e.Fits a' b' :=
  ⟨h.laid, Nat.le_trans ha h.start, Nat.le_trans h.stop hb⟩

theorem le_of_chain (h : Chain Fits a es b) : a ≤ b := by
  induction h with
  | nil h => exact h
  | cons head _ ih => exact Nat.le_trans head.le ih

theorem fits_of_chain (h : Chain Fits a es b) : ∀ e ∈ es, e.Fits a b := by
  induction h with
  | nil => exact List.forall_mem_nil _
  | cons head tail ih =>
    refine List.forall_mem_cons.mpr
      ⟨{ head with stop := Nat.le_trans head.stop (le_of_chain tail) }, fun e he => ?_⟩
    exact { ih e he with start := Nat.le_trans head.le (ih e he).start }

theorem pairwise_of_chain (h : Chain Fits a es b) :
    es.Pairwise fun a b => a.span.stop ≤ b.span.start := by
  induction h with
  | nil => exact .nil
  | cons head tail ih =>
    exact ih.cons fun e he => Nat.le_trans head.stop (fits_of_chain tail e he).start

theorem chain_mono {a' : Nat} (h : Chain Fits a es b) (ha : a' ≤ a) : Chain Fits a' es b := by
  cases h with
  | nil h => exact .nil (Nat.le_trans ha h)
  | cons head tail => exact .cons (head.mono ha (Nat.le_refl _)) tail

theorem chain_append {m : Nat} {es' : List Expr} (h : Chain Fits a es m)
    (h' : Chain Fits m es' b) : Chain Fits a (es ++ es') b := by
  induction h with
  | nil hle => exact chain_mono h' hle
  | cons head _ ih => exact .cons head (ih h')

/-- A node over expressions one behind the other. -/
theorem Laid.of_chain (h : Chain Fits a e.children b) (hstart : e.span.start ≤ a)
    (hstop : b ≤ e.span.stop) (hlt : e.span.start < e.span.stop)
    (hnamed : ∀ s ∈ e.labels, e.span.Holds s) : e.Laid :=
  .mk (Nat.pos_of_lt_add_right hlt)
    (fun c hc => ⟨Nat.le_trans hstart (fits_of_chain h c hc).start,
      Nat.le_trans (fits_of_chain h c hc).stop hstop⟩)
    hnamed (pairwise_of_chain h) fun c hc => (fits_of_chain h c hc).laid

/-- The same, between the bounds of its own span. -/
theorem Fits.of_chain (h : Chain Fits a e.children b) (hstart : e.span.start ≤ a)
    (hstop : b ≤ e.span.stop) (hlt : e.span.start < e.span.stop)
    (hnamed : ∀ s ∈ e.labels, e.span.Holds s) : e.Fits e.span.start e.span.stop :=
  ⟨.of_chain h hstart hstop hlt hnamed, Nat.le_refl _, Nat.le_refl _⟩

theorem Fits.leaf (hlt : e.span.start < e.span.stop) (hchildren : e.children = [])
    (hnamed : ∀ s ∈ e.labels, s = e.span) : e.Fits e.span.start e.span.stop := by
  refine .of_chain (a := e.span.start) (b := e.span.start) ?_ (Nat.le_refl _) (Nat.le_of_lt hlt)
    hlt fun s hs => ?_
  · rw [hchildren]
    exact .nil (Nat.le_refl _)
  · rw [hnamed s hs]
    exact ⟨Nat.le_refl _, Nat.le_refl _⟩

/-! ### What stays where it is -/

section
variable {f : Nat → Nat} (hf : ∀ p, a ≤ p → p ≤ b → f p = p)

theorem Fits.child {c : Expr} (h : e.Fits a b) (hc : c ∈ e.children) : c.Fits a b where
  laid := h.laid.inner c hc
  start := Nat.le_trans h.start (h.laid.holds c hc).1
  stop := Nat.le_trans (h.laid.holds c hc).2 h.stop

include hf

theorem Fits.span_eq (h : e.Fits a b) : e.span.relocate f = e.span :=
  Span.relocate_of_fixed (hf _ h.start (Nat.le_trans e.span.start_le_stop h.stop))
    (hf _ (Nat.le_trans h.start e.span.start_le_stop) h.stop)

theorem Fits.label_eq {s : Span} (h : e.Fits a b) (hs : s ∈ e.labels) : s.relocate f = s := by
  obtain ⟨hstart, hstop⟩ := h.laid.named s hs
  have hle := s.start_le_stop
  have := h.start
  have := h.stop
  exact Span.relocate_of_fixed (hf _ (by omega) (by omega)) (hf _ (by omega) (by omega))

theorem Fits.name_eq {n : Name} (h : e.Fits a b) (hn : n.span ∈ e.labels) : n.relocate f = n := by
  rw [Name.relocate, h.label_eq hf hn]

theorem Fits.typeName_eq {type : TypeName} (h : e.Fits a b) (ht : type.name.span ∈ e.labels) :
    type.relocate f = type := by
  rw [TypeName.relocate, h.name_eq hf ht]

end

mutual
/-- An expression laid out where no position moves stays as it is. -/
theorem Fits.relocate_eq (hf : ∀ p, a ≤ p → p ≤ b → f p = p) :
    ∀ {e : Expr}, e.Fits a b → e.relocate f = e
  | .literal v w span, h => by rw [relocate]; exact congrArg _ (h.span_eq hf)
  | .name n, h => by rw [relocate, h.name_eq hf (.head _)]
  | .typeName type, h => by rw [relocate, h.typeName_eq hf (.head _)]
  | .member e n span, h => by
    rw [relocate, (h.child (.head _)).relocate_eq hf, h.name_eq hf (.head _)]
    exact congrArg _ (h.span_eq hf)
  | .index e es span, h => by
    rw [relocate, (h.child (.head _)).relocate_eq hf,
      relocateAll_eq hf fun c hc => h.child (.tail _ hc)]
    exact congrArg _ (h.span_eq hf)
  | .call n es span, h => by
    have hes : relocateAll f es = es := relocateAll_eq hf fun c hc => h.child hc
    rw [relocate, h.name_eq hf (.head _), hes]
    exact congrArg _ (h.span_eq hf)
  | .callOn e n es span, h => by
    rw [relocate, (h.child (.head _)).relocate_eq hf, h.name_eq hf (.head _),
      relocateAll_eq hf fun c hc => h.child (.tail _ hc)]
    exact congrArg _ (h.span_eq hf)
  | .conversion type es span, h => by
    have hes : relocateAll f es = es := relocateAll_eq hf fun c hc => h.child hc
    rw [relocate, h.typeName_eq hf (.head _), hes]
    exact congrArg _ (h.span_eq hf)
  | .unary op e span, h => by
    rw [relocate, (h.child (.head _)).relocate_eq hf]
    exact congrArg _ (h.span_eq hf)
  | .binary op l r span, h => by
    rw [relocate, (h.child (.head _)).relocate_eq hf, (h.child (.tail _ (.head _))).relocate_eq hf]
    exact congrArg _ (h.span_eq hf)
  | .conditional c t e span, h => by
    rw [relocate, (h.child (.head _)).relocate_eq hf, (h.child (.tail _ (.head _))).relocate_eq hf,
      (h.child (.tail _ (.tail _ (.head _)))).relocate_eq hf]
    exact congrArg _ (h.span_eq hf)
  | .inList e es span, h => by
    rw [relocate, (h.child (.head _)).relocate_eq hf,
      relocateAll_eq hf fun c hc => h.child (.tail _ hc)]
    exact congrArg _ (h.span_eq hf)
  | .inSource e s span, h => by
    rw [relocate, (h.child (.head _)).relocate_eq hf, (h.child (.tail _ (.head _))).relocate_eq hf]
    exact congrArg _ (h.span_eq hf)
  | .newRecord ns es span, h => by
    have hes : relocateAll f es = es := relocateAll_eq hf fun c hc => h.child hc
    have hns : ns.map (Name.relocate f) = ns :=
      (List.map_congr_left fun n hn => h.name_eq hf (List.mem_map_of_mem hn)).trans (List.map_id ns)
    rw [relocate, hes, hns]
    exact congrArg _ (h.span_eq hf)
  | .newArray none es span, h => by
    have hes : relocateAll f es = es := relocateAll_eq hf fun c hc => h.child hc
    rw [relocate, hes]
    exact congrArg _ (h.span_eq hf)
  | .newArray (some type) es span, h => by
    have hes : relocateAll f es = es := relocateAll_eq hf fun c hc => h.child hc
    rw [relocate, hes, Option.map_some, h.typeName_eq hf (.head _)]
    exact congrArg _ (h.span_eq hf)
termination_by structural e => e

theorem relocateAll_eq (hf : ∀ p, a ≤ p → p ≤ b → f p = p) :
    ∀ {es : List Expr}, (∀ e ∈ es, e.Fits a b) → relocateAll f es = es
  | [], _ => rfl
  | e :: es, h => by
    rw [relocateAll, (h e (.head _)).relocate_eq hf, relocateAll_eq hf fun c hc => h c (.tail _ hc)]
termination_by structural es => es
end

end Expr
end QueryExpr
