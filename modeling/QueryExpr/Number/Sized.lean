/-
# Integers of fixed width

Eight integer types, signed and unsigned, of 8 to 64 bits. An integer of such
a type is a number in its range. Any number is reduced into a range modulo
the number of its members (`wrap`), or brought to the nearer end of the range
(`clamp`).

Key definitions: `IntType`, `IntType.min`, `IntType.max`, `IntType.wrap`,
`IntType.clamp`, `SizedInt`.
Key theorems: `IntType.wrap_mem`, `IntType.wrap_of_mem`, `IntType.wrap_emod`.
-/

namespace QueryExpr

/-- The integer types. -/
inductive IntType
  | sbyte
  | byte
  | int16
  | uint16
  | int32
  | uint32
  | int64
  | uint64
  deriving DecidableEq, Repr

namespace IntType

/-- Whether negative numbers belong to the type. -/
def signed : IntType → Bool
  | .sbyte | .int16 | .int32 | .int64 => true
  | .byte | .uint16 | .uint32 | .uint64 => false

/-- The number of members of the type. -/
def count : IntType → Int
  | .sbyte | .byte => 256
  | .int16 | .uint16 => 65536
  | .int32 | .uint32 => 4294967296
  | .int64 | .uint64 => 18446744073709551616

/-- The least member. -/
def min (t : IntType) : Int := if t.signed then -(t.count / 2) else 0

/-- The greatest member. -/
def max (t : IntType) : Int := t.min + t.count - 1

/-- Whether `n` belongs to the type. -/
def holds (t : IntType) (n : Int) : Bool := t.min ≤ n && n ≤ t.max

/-- The member that differs from `n` by a multiple of the number of members. -/
def wrap (t : IntType) (n : Int) : Int := (n - t.min) % t.count + t.min

/-- The member nearest to `n`. -/
def clamp (t : IntType) (n : Int) : Int :=
  if n < t.min then t.min else if t.max < n then t.max else n

theorem count_pos (t : IntType) : 0 < t.count := by cases t <;> decide

theorem min_le_max (t : IntType) : t.min ≤ t.max := by cases t <;> decide

theorem holds_iff (t : IntType) (n : Int) : t.holds n = true ↔ t.min ≤ n ∧ n ≤ t.max := by
  simp [holds]

theorem wrap_mem (t : IntType) (n : Int) : t.min ≤ t.wrap n ∧ t.wrap n ≤ t.max := by
  have h := t.count_pos
  have h0 := Int.emod_nonneg (n - t.min) (by omega : t.count ≠ 0)
  have h1 := Int.emod_lt_of_pos (n - t.min) h
  simp only [wrap, max]
  omega

theorem wrap_of_mem {t : IntType} {n : Int} (h : t.min ≤ n ∧ n ≤ t.max) : t.wrap n = n := by
  have h1 : n - t.min < t.count := by have := h.2; simp only [max] at this; omega
  simp only [wrap]
  rw [Int.emod_eq_of_lt (by omega) h1]
  omega

theorem wrap_emod (t : IntType) (n : Int) : t.wrap n % t.count = n % t.count := by
  simp only [wrap]
  rw [Int.emod_add_emod]
  congr 1
  omega

theorem clamp_mem (t : IntType) (n : Int) : t.min ≤ t.clamp n ∧ t.clamp n ≤ t.max := by
  have := t.min_le_max
  simp only [clamp]
  split
  · omega
  · split <;> omega

end IntType

/-- An integer with its type. -/
structure SizedInt where
  type : IntType
  value : Int
  mem : type.min ≤ value ∧ value ≤ type.max
  deriving DecidableEq

namespace SizedInt

/-- The integer of type `t` that `n` is reduced to. -/
def wrap (t : IntType) (n : Int) : SizedInt := ⟨t, t.wrap n, t.wrap_mem n⟩

/-- The integer of type `t` nearest to `n`. -/
def clamp (t : IntType) (n : Int) : SizedInt := ⟨t, t.clamp n, t.clamp_mem n⟩

theorem ext_value {a b : SizedInt} (ht : a.type = b.type) (hv : a.value = b.value) : a = b := by
  cases a; cases b; cases ht; cases hv; rfl

@[simp] theorem wrap_type (t : IntType) (n : Int) : (wrap t n).type = t := rfl

@[simp] theorem wrap_value (t : IntType) (n : Int) : (wrap t n).value = t.wrap n := rfl

theorem wrap_self (a : SizedInt) : wrap a.type a.value = a :=
  ext_value rfl (IntType.wrap_of_mem a.mem)

end SizedInt
end QueryExpr
