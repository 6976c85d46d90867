/-
# Terms of integers

A term of integers is made of integer constants and of parameters of integer
types by the unary minus, the operators of arithmetic and conversions between
integer types. It has an exact value: operators work on integers without
bounds, quotients go towards zero, and what a node comes to is reduced to the
range of the type of the node. The reduction is a parameter here, so that the
same definition also gives the value without any.

Such a term has no value just if some divisor in it comes to zero. Where all
nodes are of one type and nothing is divided, one reduction at the end does.

Key definitions: `IntType.residue`, `Term.Integral`, `Term.Uniform`,
`Term.integer?`, `Term.divisors`.
Key theorems: `IntType.wrap_eq_residue`, `Term.Integral.integer?_eq_none`,
`Term.Uniform.integer?_eq`.
-/
import Mathlib.Data.Int.ModEq
import QueryExpr.Proofs.TermTyping

namespace QueryExpr

/-! ### Ranges of integer types -/

namespace IntType

/-- The number of bits. -/
def width : IntType → Nat
  | .sbyte | .byte => 8
  | .int16 | .uint16 => 16
  | .int32 | .uint32 => 32
  | .int64 | .uint64 => 64

/-- The integer with the same lowest bits in the two's complement range of the
type. -/
def residue (t : IntType) (n : Int) : Int :=
  if t.signed then n.bmod (2 ^ t.width) else n % (2 ^ t.width : Nat)

/-- **Wrapping around is the reduction to the two's complement range.** -/
theorem wrap_eq_residue (t : IntType) (n : Int) : t.wrap n = t.residue n := by
  cases t <;> simp [wrap, residue, min, count, signed, width, Int.bmod] <;> omega

/-- Integers that differ by a multiple of the number of members wrap to the
same. -/
theorem wrap_congr {t : IntType} {m n : Int} (h : m ≡ n [ZMOD t.count]) : t.wrap m = t.wrap n := by
  unfold wrap
  rw [Int.ModEq.sub_right t.min h]

theorem wrap_modEq (t : IntType) (n : Int) : t.wrap n ≡ n [ZMOD t.count] := t.wrap_emod n

end IntType

/-! ### Operators on integers -/

namespace Operation

/-- What an operator of arithmetic makes of two integers. Nothing is divided by
zero, and quotients go towards zero. -/
def integer? (op : Operation) (i j : Int) : Option Int :=
  match op with
  | .add => some (i + j)
  | .subtract => some (i - j)
  | .multiply => some (i * j)
  | .divide => if j = 0 then none else some (i.tdiv j)
  | .modulo => if j = 0 then none else some (i.tmod j)
  | _ => none

/-- The operators that divide. -/
def isDivision : Operation → Bool
  | .divide | .modulo => true
  | _ => false

theorem integer?_eq_none {op : Operation} (ho : op.isArithmetic = true) {i j : Int} :
    op.integer? i j = none ↔ op.isDivision = true ∧ j = 0 := by
  cases op with
  | add | subtract | multiply | divide | modulo => simp [integer?, isDivision]
  | _ => cases ho

/-- Operators that do not divide may be applied before or after wrapping
around. -/
theorem integer?_wrap {op : Operation} (ho : op.isArithmetic = true) (hd : op.isDivision = false)
    (t : IntType) (i j : Int) :
    ∃ m n, op.integer? i j = some m ∧ op.integer? (t.wrap i) (t.wrap j) = some n ∧
      t.wrap n = t.wrap m := by
  have hi := t.wrap_modEq i
  have hj := t.wrap_modEq j
  cases op with
  | add => exact ⟨_, _, rfl, rfl, IntType.wrap_congr (hi.add hj)⟩
  | subtract => exact ⟨_, _, rfl, rfl, IntType.wrap_congr (hi.sub hj)⟩
  | multiply => exact ⟨_, _, rfl, rfl, IntType.wrap_congr (hi.mul hj)⟩
  | divide | modulo => cases hd
  | _ => cases ho

end Operation

namespace Term

/-- **A term of integers**: each of its nodes has an integer type. -/
inductive Integral : Term → Prop
  | constant (n : SizedInt) (t : IntType) (span : Span) :
      Integral (.constant (.int n) (.prim (.int t)) span)
  | parameter (name : String) (t : IntType) (span : Span) :
      Integral (.parameter name (.prim (.int t)) span)
  | convert {e : Term} (t : IntType) (span : Span) :
      Integral e → Integral (.convert e (.prim (.int t)) span)
  | negate {e : Term} (t : IntType) (span : Span) :
      Integral e → Integral (.unary .negate e (.prim (.int t)) span)
  | arithmetic {op : Operation} {l r : Term} (t : IntType) (span : Span) :
      op.isArithmetic = true → Integral l → Integral r →
      Integral (.binary op l r (.prim (.int t)) span)

/-- A term of integers of one type that neither divides nor converts. -/
inductive Uniform (t : IntType) : Term → Prop
  | constant (n : SizedInt) (span : Span) : Uniform t (.constant (.int n) (.prim (.int t)) span)
  | parameter (name : String) (span : Span) : Uniform t (.parameter name (.prim (.int t)) span)
  | negate {e : Term} (span : Span) :
      Uniform t e → Uniform t (.unary .negate e (.prim (.int t)) span)
  | arithmetic {op : Operation} {l r : Term} (span : Span) :
      op.isArithmetic = true → op.isDivision = false → Uniform t l → Uniform t r →
      Uniform t (.binary op l r (.prim (.int t)) span)

/-- The value of a term of integers, for given values of names. What a node
comes to is reduced as one of its type. -/
def integer? (reduce : IntType → Int → Int) (σ : String → Int) : Term → Option Int
  | .constant (.int n) (.prim (.int t)) _ => some (reduce t n.value)
  | .parameter name (.prim (.int t)) _ => some (reduce t (σ name))
  | .convert e (.prim (.int t)) _ => (e.integer? reduce σ).map (reduce t)
  | .unary .negate e (.prim (.int t)) _ => (e.integer? reduce σ).map fun i => reduce t (-i)
  | .binary op l r (.prim (.int t)) _ =>
    (l.integer? reduce σ).bind fun i => (r.integer? reduce σ).bind fun j =>
      (op.integer? i j).map (reduce t)
  | _ => none
termination_by structural e => e

/-- The terms that something is divided by. -/
def divisors : Term → List Term
  | .convert e _ _ | .unary _ e _ _ => e.divisors
  | .binary op l r _ _ => l.divisors ++ r.divisors ++ if op.isDivision then [r] else []
  | _ => []
termination_by structural e => e

variable {reduce : IntType → Int → Int} {σ : String → Int} {e : Term}

/-- **A term of integers has no value just if one of its divisors is zero.** -/
theorem Integral.integer?_eq_none (h : Integral e) :
    e.integer? reduce σ = none ↔ ∃ d ∈ e.divisors, d.integer? reduce σ = some 0 := by
  induction h with
  | constant | parameter => simp [integer?, divisors]
  | convert t span _ ih | negate t span _ ih => simpa [integer?, divisors] using ih
  | @arithmetic op l r t span ho _ _ ihl ihr =>
    have hnone : (Term.binary op l r (.prim (.int t)) span).integer? reduce σ = none ↔
        l.integer? reduce σ = none ∨ r.integer? reduce σ = none ∨
          op.isDivision = true ∧ r.integer? reduce σ = some 0 := by
      rw [integer?]
      cases l.integer? reduce σ with
      | none => simp
      | some i =>
        cases r.integer? reduce σ with
        | none => simp
        | some j => simp [Operation.integer?_eq_none ho]
    rw [hnone, ihl, ihr]
    cases hd : op.isDivision <;> simp [divisors, hd, or_and_right, exists_or]

/-- **One reduction at the end does**, where all nodes are of one type and nothing
is divided. -/
theorem Uniform.integer?_eq {t : IntType} (h : Uniform t e) :
    ∃ i, e.integer? (fun _ n => n) σ = some i ∧ e.integer? IntType.wrap σ = some (t.wrap i) := by
  induction h with
  | constant n => exact ⟨n.value, rfl, rfl⟩
  | parameter name => exact ⟨σ name, rfl, rfl⟩
  | negate span _ ih =>
    obtain ⟨i, hi, hw⟩ := ih
    refine ⟨-i, by simp [integer?, hi], ?_⟩
    simp only [integer?, hw, Option.map_some]
    rw [IntType.wrap_congr (t.wrap_modEq i).neg]
  | @arithmetic op l r span ho hd _ _ ihl ihr =>
    obtain ⟨i, hi, hwi⟩ := ihl
    obtain ⟨j, hj, hwj⟩ := ihr
    obtain ⟨m, n, hm, hn, hmn⟩ := Operation.integer?_wrap ho hd t i j
    exact ⟨m, by simp [integer?, hi, hj, hm], by simp [integer?, hwi, hwj, hn, hmn]⟩

theorem Uniform.type {t : IntType} (h : Uniform t e) : e.type = .prim (.int t) := by
  cases h <;> rfl

theorem Integral.isCallShaped (h : Integral e) : e.isCallShaped = false := by
  cases h <;> rfl

end Term
end QueryExpr
