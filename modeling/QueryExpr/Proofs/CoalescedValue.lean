/-
# The value of a coalescing

A coalescing has the value of its left operand, or that of its right operand if
the left one is null. The left operand is evaluated as it stands, unless nothing
but null is of its type. Then it is brought to the type of the right operand
first; and where that is a type of numbers without null, what should give way to
the right operand is an error. Only the word `null` itself is spared.

Key definitions: `Term.isBroughtTo`.
Key theorems: `Check.coalesce_ok`, `Eval.term_convertTo_null`,
`Eval.term_coalesce_left`, `Check.value_coalesce`.
-/
import Mathlib
import QueryExpr.Eval
import QueryExpr.Lambda.Compile
import QueryExpr.Proofs.Steps
import QueryExpr.Proofs.ValueConversion

namespace QueryExpr

variable {host : Host} {l r e : Term} {t : Ty} {span : Span}

/-- Whether a term that nothing but null is of the type of is brought to another
type by a conversion that null may not pass. -/
def Term.isBroughtTo (e : Term) (t : Ty) : Bool :=
  e.type.isNull && !e.isNullConstant && t.isNumberLike

/-! ### Null and numbers -/

namespace Value

variable {v w : Value}

/-- Null is a number of a nullable type only. -/
theorem convert_null_number (h : t.isNumberLike = true) :
    convert t .null = if t.isNullable then .ok .null
      else .error (.nullReference ("conversion to '" ++ t.display ++ "'")) := by
  unfold Ty.isNumberLike at h
  unfold convert
  cases hp : t.primitive? with
  | none => rw [hp] at h; cases h
  | some p =>
    rw [hp] at h
    have hnum : p.isNumberLike = true := h
    have hnull : Value.null.isNull = true := rfl
    cases t.isNullable <;> simp [hnum, hnull]

theorem isNull_of_cast {p : Prim} (h : v.cast p = .ok w) : w.isNull = false := by
  have integer {n : Int} {s : Scalar} (hs : Scalar.ofInteger? p n = some s) : s.isNull = false := by
    cases p <;> cases hs <;> rfl
  have double {x : Float} {s : Scalar} (hs : Scalar.ofDouble? p x = some s) :
      s.isNull = false := by
    cases p <;> cases hs <;> rfl
  unfold cast at h
  split at h
  · rename_i s
    split at h
    · rename_i s' hs'
      cases h
      unfold Scalar.cast? at hs'
      split at hs'
      · exact integer hs'
      · obtain ⟨x, -, hx⟩ := Option.bind_eq_some_iff.mp hs'
        exact double hx
    · cases h
  · cases h

/-- A conversion makes nothing null. -/
theorem isNull_of_convert (h : v.convert t = .ok w) (hv : v.isNull = false) :
    w.isNull = false := by
  unfold convert at h
  simp only [hv, Bool.false_and, Bool.false_eq_true, if_false] at h
  split at h
  · cases h
    exact hv
  · split at h
    · cases h
      exact hv
    · exact isNull_of_cast h

end Value

namespace Eval

/-- A term that nothing but null is of the type of is evaluated as it stands
where it is not brought to a type of numbers. -/
theorem term_convertTo_null (host : Host) (hn : e.type.isNull = true) (t : Ty) :
    term host (e.convertTo t) =
      if e.isBroughtTo t then do ofExcept ((← term host e).convert t) else term host e := by
  unfold Term.convertTo Term.isBroughtTo
  rw [hn, Bool.true_and]
  by_cases ht : (e.type == t) = true
  · have hnum : t.isNumberLike = false := by
      cases he : e.type <;> rw [he] at hn ht <;> cases hn
      cases t <;> first | rfl | cases ht
    simp [ht, hnum]
  by_cases hc : e.isNullConstant = true
  · rw [if_neg ht, if_pos hc, hc]
    unfold Term.isNullConstant at hc
    split at hc
    · rfl
    · cases hc
  rw [if_neg ht, if_neg hc]
  by_cases hnum : t.isNumberLike = true
  · simp [hc, hnum, term]
  · -- elsewhere a conversion leaves the value as it is
    simp only [Bool.not_eq_true] at hc hnum
    have hid : ∀ v : Value, ofExcept (v.convert t) = (pure v : Eval Value) := fun v => by
      rw [Value.convert_of_not hnum]
      rfl
    simp [hc, hnum, term, hid]

/-! ### The left operand -/

theorem coalesce_apply (left right : Eval Value) (k : EvalContext) :
    coalesce left right k = match left k with
      | (.ok v, k) => if v.isNull then right k else (.ok v, k)
      | (.error x, k) => (.error x, k) := by
  unfold coalesce
  rw [Step.bind_apply]
  rcases left k with ⟨x | v, k'⟩
  · rfl
  · dsimp only
    split <;> rfl

theorem ofExcept_apply (x : Except EvalError Value) (k : EvalContext) :
    ofExcept x k = (x, k) := by
  cases x <;> rfl

/-- **A coalescing by the value of its left operand.** An error is an error of the
coalescing. A value that is not null is its value, brought to the type where the
operand is. Null gives way to the right operand, or is an error where the operand
is brought to a type without null. -/
theorem term_coalesce_left (host : Host) (l r : Term) (t : Ty) (span : Span) (k : EvalContext) :
    term host (.coalesce (if l.type.isNull then l.convertTo t else l) r t span) k =
      match term host l k with
      | (.error x, k) => (.error x, k)
      | (.ok v, k) =>
        if v.isNull then
          if l.isBroughtTo t && !t.isNullable then
            (.error (.nullReference ("conversion to '" ++ t.display ++ "'")), k)
          else term host r k
        else (if l.isBroughtTo t then v.convert t else .ok v, k) := by
  rw [term, coalesce_apply]
  by_cases hb : l.isBroughtTo t = true
  · have hparts : (l.type.isNull = true ∧ l.isNullConstant = false) ∧ t.isNumberLike = true := by
      simpa [Term.isBroughtTo] using hb
    rw [if_pos hparts.1.1, term_convertTo_null host hparts.1.1, if_pos hb, Step.bind_apply]
    rcases term host l k with ⟨x | v, k'⟩
    · rfl
    simp only [ofExcept_apply, hb, Bool.true_and, if_true]
    by_cases hv : v.isNull = true
    · rw [Value.eq_null_of_isNull hv, Value.convert_null_number hparts.2]
      cases t.isNullable <;> rfl
    · simp only [Bool.not_eq_true] at hv
      cases hw : v.convert t with
      | error x => simp [hv]
      | ok w => simp [hv, Value.isNull_of_convert hw hv]
  · have hleft : term host (if l.type.isNull then l.convertTo t else l) = term host l := by
      by_cases hn : l.type.isNull = true
      · rw [if_pos hn, term_convertTo_null host hn, if_neg hb]
      · rw [if_neg hn]
    rw [hleft]
    rcases term host l k with ⟨x | v, k'⟩
    · rfl
    · simp [hb]

end Eval

/-! ### The checked coalescing -/

namespace Check

variable {o : Options} {a b : Expr} {c d : Context}

/-- What two operands are checked to by the operator `??`. -/
theorem coalesce_ok (h : coalesce l r span c = (.ok e, d)) :
    d = c ∧ e = .coalesce (if l.type.isNull then l.convertTo e.type else l)
      (r.convertTo e.type) e.type span := by
  unfold coalesce at h
  by_cases hn : l.type.isNull = true
  · rw [if_pos hn] at h
    cases h
    exact ⟨rfl, by rw [if_pos hn]; rfl⟩
  rw [if_neg hn] at h
  split at h
  · cases h
  split at h
  · cases h
    exact ⟨rfl, by rw [if_neg hn]; rfl⟩
  split at h
  · cases h
    exact ⟨rfl, by rw [if_neg hn]; rfl⟩
  · cases h

/-- **The value of a coalescing.** Its operands are checked in order, and then it
has, wherever it is evaluated, the error of the left operand, the value of the left
operand if that is not null, and what the right operand comes to in the type of the
coalescing if it is null. But a left operand that nothing but null is of the type
of, unless it is the word `null`, is brought to the type of the coalescing if that
is one of numbers; null is an error then if it is no value of the type. -/
theorem value_coalesce (h : expr o (.binary .coalesce a b span) c = (.ok e, d)) :
    ∃ l r c', value (expr o a) c = (.ok l, c') ∧ value (expr o b) c' = (.ok r, d) ∧
      ∀ (host : Host) (k k' : EvalContext),
        (∀ x, Eval.term host l k = (.error x, k') → Eval.term host e k = (.error x, k')) ∧
        (∀ v, Eval.term host l k = (.ok v, k') → v.isNull = false →
          Eval.term host e k = (if l.isBroughtTo e.type then v.convert e.type else .ok v, k')) ∧
        (Eval.term host l k = (.ok .null, k') →
          Eval.term host e k =
            if l.isBroughtTo e.type && !e.type.isNullable then
              (.error (.nullReference ("conversion to '" ++ e.type.display ++ "'")), k')
            else Eval.term host (r.convertTo e.type) k') := by
  rw [expr, Step.bind_apply] at h
  rcases hl : value (expr o a) c with ⟨_ | l, c'⟩ <;> rw [hl] at h
  · cases h
  dsimp only at h
  rw [Step.bind_apply] at h
  rcases hr : value (expr o b) c' with ⟨_ | r, d'⟩ <;> rw [hr] at h
  · cases h
  obtain ⟨rfl, he⟩ := coalesce_ok h
  refine ⟨l, r, c', rfl, hr, fun host k k' => ?_⟩
  have hvalue := Eval.term_coalesce_left host l (r.convertTo e.type) e.type span k
  rw [← he] at hvalue
  rw [hvalue]
  refine ⟨fun x hx => ?_, fun v hv hn => ?_, fun hv => ?_⟩
  · rw [hx]
  · rw [hv]
    simp [hn]
  · rw [hv]
    rfl

/-- A number that may be null gives way to another one just if it is null. -/
theorem value_coalesce_number :
    let x : Expr := .name ⟨"x", ⟨0, 1⟩⟩
    let five : Expr := .literal (.integer 5 false .none) "5" ⟨5, 1⟩
    let c : Context := ⟨.empty, .ofTable ⟨[⟨"x", .nullable (.int .int32)⟩], none⟩⟩
    let bound (v : Value) : EvalContext := ⟨[("x", v)], 0, []⟩
    ∃ e, expr {} (.binary .coalesce x five ⟨0, 6⟩) c = (.ok e, c) ∧
      ∀ host, Eval.term host e (bound .null) = (.ok (.int32 5), bound .null) ∧
        Eval.term host e (bound (.int32 7)) = (.ok (.int32 7), bound (.int32 7)) := by
  intro x five c bound
  have hx : value (expr {} x) c = (.ok (.parameter "x" (.nullable (.int .int32)) ⟨0, 1⟩), c) := by
    with_unfolding_all rfl
  have hfive : value (expr {} five) c = (.ok (.constant (.int32 5) .int32 ⟨5, 1⟩), c) := by cbv
  have h : expr {} (.binary .coalesce x five ⟨0, 6⟩) c =
      (.ok (.coalesce (.parameter "x" (.nullable (.int .int32)) ⟨0, 1⟩)
        (.constant (.int32 5) .int32 ⟨5, 1⟩) .int32 ⟨0, 6⟩), c) := by with_unfolding_all rfl
  obtain ⟨l, r, c', hl, hr, hvalue⟩ := value_coalesce h
  cases hx.symm.trans hl
  cases hfive.symm.trans hr
  refine ⟨_, h, fun host => ⟨?_, ?_⟩⟩
  · exact (hvalue host (bound .null) (bound .null)).2.2 rfl
  · exact (hvalue host (bound (.int32 7)) (bound (.int32 7))).2.1 (.int32 7) rfl rfl

end Check

/-- Null does not always give way to the right operand: `(null ?? null) ?? 5` is
an error, though the left operand comes to null and the right one to a number. -/
theorem Lambda.invoke_coalesce_null :
    ∃ f l r t span, compile {} [] none .inferred "(null ?? null) ?? 5" .empty = (.ok f, .empty) ∧
      f.body = .coalesce (l.convertTo t) r t span ∧ r.type = t ∧
      ∀ host, (Eval.term host l (.start 0)).1 = .ok .null ∧
        (Eval.term host r (.start 0)).1 = .ok (.int32 5) ∧
        (f.invoke host [] (.start 0)).1 = .error (.nullReference "conversion to 'Int32'") := by
  have h : compile {} [] none .inferred "(null ?? null) ?? 5" .empty =
      (.ok ⟨[], .coalesce (.convert (.coalesce (.constant .null .null ⟨1, 4⟩)
        (.constant .null .null ⟨9, 4⟩) .null ⟨1, 12⟩) .int32 ⟨1, 12⟩)
        (.constant (.int32 5) .int32 ⟨18, 1⟩) .int32 ⟨1, 18⟩, .int32,
        .ofDelegate none [] .int32⟩, .empty) := by cbv
  exact ⟨_, .coalesce (.constant .null .null ⟨1, 4⟩) (.constant .null .null ⟨9, 4⟩) .null ⟨1, 12⟩,
    .constant (.int32 5) .int32 ⟨18, 1⟩, .int32, ⟨1, 18⟩, h, rfl, rfl,
    fun host => ⟨rfl, rfl, rfl⟩⟩

end QueryExpr
