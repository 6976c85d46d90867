/-
# Moving what has a place

A map of positions moves the bounds of every span, and with them tokens,
failures, expressions, terms and lambdas. Nothing else of these changes: their
kinds, texts and types stay, and so do the forms of trees.

A map that keeps the order of positions takes the ends of spans to ends of spans
again. One that moves every position by the same distance keeps their lengths.

Key definitions: `Span.relocate`, `Token.relocate`, `Failure.relocate`,
`Tokens.relocate`, `Expr.relocate`, `Term.relocate`, `Lambda.relocate`,
`Expr.shift`, `Lambda.shift`.
Key theorems: `Span.relocate_ofBounds`, `Span.relocate_union`,
`Span.relocate_add`, `Term.relocate_convertTo`.
-/
import Mathlib.Order.MinMax
import QueryExpr.Lambda
import QueryExpr.Token.Stream
import QueryExpr.Expr

namespace QueryExpr

variable {f : Nat → Nat}

theorem monotone_add (n : Nat) : Monotone (· + n) := fun _ _ h => Nat.add_le_add_right h n

namespace Span

variable {s : Span} {a b : Nat}

/-- The span with its bounds moved. -/
def relocate (f : Nat → Nat) (s : Span) : Span := ofBounds (f s.start) (f s.stop)

theorem start_le_stop (s : Span) : s.start ≤ s.stop := Nat.le_add_right _ _

theorem stop_relocate (hf : Monotone f) : (s.relocate f).stop = f s.stop :=
  stop_ofBounds (hf s.start_le_stop)

theorem relocate_ofBounds (h : a ≤ b) : (ofBounds a b).relocate f = ofBounds (f a) (f b) := by
  rw [relocate, stop_ofBounds h]
  rfl

theorem relocate_union (hf : Monotone f) (s t : Span) :
    (s.union t).relocate f = (s.relocate f).union (t.relocate f) := by
  have h : min s.start t.start ≤ max s.stop t.stop :=
    Nat.le_trans (Nat.min_le_left _ _) (Nat.le_trans s.start_le_stop (Nat.le_max_left _ _))
  rw [union, relocate_ofBounds h, union, stop_relocate hf, stop_relocate hf, hf.map_min, hf.map_max]
  rfl

theorem relocate_empty (f : Nat → Nat) (p : Nat) : (empty p).relocate f = empty (f p) := by
  simp [relocate, ofBounds, empty, stop]

/-- A span whose bounds stay where they are stays where it is. -/
theorem relocate_of_fixed (h : f s.start = s.start) (h' : f s.stop = s.stop) :
    s.relocate f = s := by
  rw [relocate, h, h']
  simp [ofBounds, stop]

theorem relocate_add (n : Nat) (s : Span) : s.relocate (· + n) = s.shift n := by
  simp [relocate, ofBounds, shift, stop]
  omega

end Span

/-- The name at its new place. -/
def Name.relocate (f : Nat → Nat) (n : Name) : Name := ⟨n.text, n.span.relocate f⟩

/-- The name of a type at its new place. -/
def TypeName.relocate (f : Nat → Nat) (type : TypeName) : TypeName :=
  ⟨type.name.relocate f, type.known⟩

/-- The token at its new place. -/
def Token.relocate (f : Nat → Nat) (t : Token) : Token := { t with span := t.span.relocate f }

theorem Token.kind_relocate (t : Token) : (t.relocate f).kind = t.kind := rfl

theorem Token.value_relocate (t : Token) : (t.relocate f).value = t.value := rfl

/-- The failure at its new place. -/
def Failure.relocate (f : Nat → Nat) (failure : Failure) : Failure :=
  ⟨failure.cause, failure.span.relocate f⟩

theorem Failure.relocate_add (n : Nat) (failure : Failure) :
    failure.relocate (· + n) = failure.shift n := by
  rw [relocate, Span.relocate_add, shift]

/-- An outcome with what it yields and the failure at their new places. -/
def relocated {α β : Type} (f : Nat → Nat) (h : α → β) : Except Failure α → Except Failure β
  | .ok x => .ok (h x)
  | .error failure => .error (failure.relocate f)

/-- The tokens of a text, and what they end with, at their new places. -/
def Tokens.relocate (f : Nat → Nat) (ts : Tokens) : Tokens :=
  ⟨ts.list.map (Token.relocate f), relocated f f ts.ending⟩

/-! ### Expressions -/

namespace Expr

mutual
/-- The expression with all of its parts at their new places. -/
def relocate (f : Nat → Nat) : Expr → Expr
  | .literal v w span => .literal v w (span.relocate f)
  | .name n => .name (n.relocate f)
  | .typeName type => .typeName (type.relocate f)
  | .member e n span => .member (e.relocate f) (n.relocate f) (span.relocate f)
  | .index e es span => .index (e.relocate f) (relocateAll f es) (span.relocate f)
  | .call n es span => .call (n.relocate f) (relocateAll f es) (span.relocate f)
  | .callOn e n es span =>
    .callOn (e.relocate f) (n.relocate f) (relocateAll f es) (span.relocate f)
  | .conversion type es span =>
    .conversion (type.relocate f) (relocateAll f es) (span.relocate f)
  | .unary op e span => .unary op (e.relocate f) (span.relocate f)
  | .binary op l r span => .binary op (l.relocate f) (r.relocate f) (span.relocate f)
  | .conditional c a b span =>
    .conditional (c.relocate f) (a.relocate f) (b.relocate f) (span.relocate f)
  | .inList e es span => .inList (e.relocate f) (relocateAll f es) (span.relocate f)
  | .inSource e source span => .inSource (e.relocate f) (source.relocate f) (span.relocate f)
  | .newRecord ns es span =>
    .newRecord (ns.map (Name.relocate f)) (relocateAll f es) (span.relocate f)
  | .newArray type es span =>
    .newArray (type.map (TypeName.relocate f)) (relocateAll f es) (span.relocate f)
termination_by structural e => e

/-- The expressions with all of their parts at their new places. -/
def relocateAll (f : Nat → Nat) : List Expr → List Expr
  | [] => []
  | e :: es => e.relocate f :: relocateAll f es
termination_by structural es => es
end

theorem relocateAll_eq_map (f : Nat → Nat) : ∀ es : List Expr,
    relocateAll f es = es.map (relocate f)
  | [] => rfl
  | e :: es => by rw [relocateAll, relocateAll_eq_map f es, List.map_cons]

/-- The expression with all of its parts moved to the right. -/
def shift (distance : Nat) (e : Expr) : Expr := e.relocate (· + distance)

theorem span_relocate (e : Expr) : (e.relocate f).span = e.span.relocate f := by
  cases e <;> rw [relocate] <;> rfl

theorem propertyName?_relocate (e : Expr) : (e.relocate f).propertyName? = e.propertyName? := by
  cases e <;> rw [relocate] <;> rfl

end Expr

/-! ### Terms -/

namespace Term

mutual
/-- The term with all of its parts at their new places. -/
def relocate (f : Nat → Nat) : Term → Term
  | .constant v t span => .constant v t (span.relocate f)
  | .parameter n t span => .parameter n t (span.relocate f)
  | .member e n t span => .member (e.relocate f) n t (span.relocate f)
  | .index e es t span => .index (e.relocate f) (relocateAll f es) t (span.relocate f)
  | .call e m es t span => .call (e.relocate f) m (relocateAll f es) t (span.relocate f)
  | .intrinsic op e es t span =>
    .intrinsic op (e.relocate f) (relocateAll f es) t (span.relocate f)
  | .function op es t span => .function op (relocateAll f es) t (span.relocate f)
  | .aggregate op s t span => .aggregate op (s.relocate f) t (span.relocate f)
  | .aggregateBy op s b t span =>
    .aggregateBy op (s.relocate f) (b.relocate f) t (span.relocate f)
  | .aggregateWith op s a t span =>
    .aggregateWith op (s.relocate f) (a.relocate f) t (span.relocate f)
  | .convert e t span => .convert (e.relocate f) t (span.relocate f)
  | .unary op e t span => .unary op (e.relocate f) t (span.relocate f)
  | .binary op l r t span => .binary op (l.relocate f) (r.relocate f) t (span.relocate f)
  | .conditional c a b t span =>
    .conditional (c.relocate f) (a.relocate f) (b.relocate f) t (span.relocate f)
  | .coalesce l r t span => .coalesce (l.relocate f) (r.relocate f) t (span.relocate f)
  | .inList e es t span => .inList (e.relocate f) (relocateAll f es) t (span.relocate f)
  | .inSequence e s t span => .inSequence (e.relocate f) (s.relocate f) t (span.relocate f)
  | .newRecord es t span => .newRecord (relocateAll f es) t (span.relocate f)
  | .newArray es t span => .newArray (relocateAll f es) t (span.relocate f)
  | .invoke e es t span => .invoke (e.relocate f) (relocateAll f es) t (span.relocate f)
termination_by structural e => e

/-- The terms with all of their parts at their new places. -/
def relocateAll (f : Nat → Nat) : List Term → List Term
  | [] => []
  | e :: es => e.relocate f :: relocateAll f es
termination_by structural es => es
end

theorem relocateAll_eq_map (f : Nat → Nat) : ∀ es : List Term,
    relocateAll f es = es.map (relocate f)
  | [] => rfl
  | e :: es => by rw [relocateAll, relocateAll_eq_map f es, List.map_cons]

theorem span_relocate (e : Term) : (e.relocate f).span = e.span.relocate f := by
  cases e <;> rw [relocate] <;> rfl

theorem type_relocate (e : Term) : (e.relocate f).type = e.type := by
  cases e <;> rw [relocate] <;> rfl

theorem isNullConstant_relocate (e : Term) : (e.relocate f).isNullConstant = e.isNullConstant := by
  cases e with
  | constant v => cases v <;> rw [relocate] <;> rfl
  | _ => rw [relocate]; rfl

theorem integralConstant?_relocate (e : Term) :
    (e.relocate f).integralConstant? = e.integralConstant? := by
  cases e <;> rw [relocate] <;> rfl

theorem isCallShaped_relocate (e : Term) : (e.relocate f).isCallShaped = e.isCallShaped := by
  cases e <;> rw [relocate] <;> rfl

theorem relocate_withSpan (e : Term) (span : Span) :
    (e.withSpan span).relocate f = (e.relocate f).withSpan (span.relocate f) := by
  cases e <;> simp only [withSpan, relocate]

theorem relocate_convertTo (e : Term) (t : Ty) :
    (e.convertTo t).relocate f = (e.relocate f).convertTo t := by
  unfold convertTo
  rw [type_relocate, isNullConstant_relocate, span_relocate]
  split
  · rfl
  · split <;> rw [relocate]

theorem assignmentCost?_relocate (e : Term) :
    (e.relocate f).assignmentCost? = e.assignmentCost? := by
  funext t
  rw [assignmentCost?, assignmentCost?, fits, fits, type_relocate, integralConstant?_relocate]

theorem isAssignable_relocate (e : Term) (t : Ty) :
    (e.relocate f).isAssignable t = e.isAssignable t := by
  rw [isAssignable, isAssignable, assignmentCost?_relocate]

theorem coerce?_relocate (e : Term) (t : Ty) :
    (e.relocate f).coerce? t = (e.coerce? t).map (relocate f) := by
  rw [coerce?, coerce?, isAssignable_relocate, ← relocate_convertTo]
  split <;> rfl

end Term

/-! ### Lambdas -/

namespace Lambda

/-- The lambda with all parts of its body at their new places. -/
def relocate (f : Nat → Nat) (l : Lambda) : Lambda := { l with body := l.body.relocate f }

/-- The lambda with all parts of its body moved to the right. -/
def shift (distance : Nat) (l : Lambda) : Lambda := l.relocate (· + distance)

end Lambda
end QueryExpr
