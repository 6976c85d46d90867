/-
# The order of keys

Keys that are null or of one kind are in a total preorder: null is before all
others, and texts, truth values and numbers go by what they stand for. A
direction may turn that around. Rows of keys, one key for each clause, are then
in the order of the first clause that tells two rows apart.

Key definitions: `Value.Before`, `Value.Ties`, `KeyKind`, `Direction.Before`,
`RowBefore`, `compareRows`.
Key theorems: `KeyKind.Holds.compareKeys_eq`, `compareRows_eq_iff`,
`compareRows_lt_iff`, `transCmp_compareRows`.
-/
import Mathlib.Data.List.FinRange
import QueryExpr.Ordering.Sort

namespace QueryExpr

namespace Value

/-- The order of two keys: null is before all others, texts go by their
characters, false is before true, integers and characters go by their numbers. -/
inductive Before : Value → Value → Prop
  | null {v : Value} (h : v.isNull = false) : Before .null v
  | text {s t : String} (h : s < t) : Before (.string s) (.string t)
  | truth : Before (.boolean false) (.boolean true)
  | number {v w : Value} {m n : Int} (hv : v.integer? = some m) (hw : w.integer? = some n)
      (h : m < n) : Before v w

/-- Neither of two keys is before the other. -/
def Ties (v w : Value) : Prop := ¬ v.Before w ∧ ¬ w.Before v

end Value

namespace Scalar

/-- Texts compare as lists of characters do. -/
theorem compareText_eq : ∀ cs ds : List Char, compareText cs ds = compareOfLessAndEq cs ds
  | [], [] => rfl
  | [], _ :: _ => rfl
  | _ :: _, [] => rfl
  | c :: cs, d :: ds => by
    rw [compareText, compareText_eq cs ds]
    rcases Nat.lt_trichotomy c.toNat d.toNat with h | h | h
    · have hlt : c :: cs < d :: ds := List.cons_lt_cons_iff.mpr (.inl h)
      simp [compareOfLessAndEq, h, hlt]
    · obtain rfl := Char.toNat_inj.mp h
      simp [compareOfLessAndEq]
    · have hlt : ¬ c < d := Nat.lt_asymm h
      have hne : c ≠ d := fun heq => Nat.ne_of_lt h (heq ▸ rfl)
      simp [compareOfLessAndEq, List.cons_lt_cons_iff, hlt, hne, Nat.lt_asymm h, Nat.ne_of_gt h]

theorem compare_string (s t : String) :
    (string s).compare? (string t) = some (Ord.compare s t) := by
  show some _ = _
  rw [compareText_eq]
  show _ = some (compareOfLessAndEq s t)
  simp only [compareOfLessAndEq, String.toList_inj]
  rfl

end Scalar

namespace Value

variable {v w : Value}

theorem isNull_of_integer? {n : Int} (h : v.integer? = some n) : v.isNull = false := by
  cases v with
  | scalar s => cases s <;> first | rfl | cases h
  | _ => rfl

theorem compare?_of_integer? {m n : Int} (hv : v.integer? = some m) (hw : w.integer? = some n) :
    v.compare? w = some (Ord.compare m n) := by
  rcases v with s | _ | _ | _ | _
  case scalar =>
    rcases w with t | _ | _ | _ | _
    case scalar =>
      cases s <;> cases hv <;> cases t <;> cases hw <;> rfl
    all_goals cases hw
  all_goals cases hv

end Value

namespace Ordering

/-! ### Keys of one kind -/

/-- The kinds of keys that compare with each other. -/
inductive KeyKind
  | text
  | truth
  | number
  deriving DecidableEq, Repr

namespace KeyKind

variable {kind : KeyKind} {v w : Value}

/-- A key is null or of the kind. -/
inductive Holds : KeyKind → Value → Prop
  | null (kind : KeyKind) : Holds kind .null
  | text (s : String) : Holds .text (.string s)
  | truth (b : Bool) : Holds .truth (.boolean b)
  | number {v : Value} {n : Int} (h : v.integer? = some n) : Holds .number v

/-- The order of what keys of the kind stand for; null stands for nothing. -/
def compare : KeyKind → Value → Value → Ordering
  | text, v, w => Ord.compare v.string? w.string?
  | truth, v, w => Ord.compare v.boolean? w.boolean?
  | number, v, w => Ord.compare v.integer? w.integer?

instance (kind : KeyKind) : Std.TransCmp kind.compare :=
  match kind with
  | text => inferInstanceAs (Std.TransCmp (compareOn Value.string?))
  | truth => inferInstanceAs (Std.TransCmp (compareOn Value.boolean?))
  | number => inferInstanceAs (Std.TransCmp (compareOn Value.integer?))

/-- Keys of one kind are in the order of what they stand for. -/
theorem Holds.compareKeys_eq (hv : kind.Holds v) (hw : kind.Holds w) :
    v.compareKeys w = kind.compare v w := by
  cases hv with
  | null =>
    cases hw with
    | null => cases kind <;> rfl
    | number h =>
      rw [Value.compareKeys_null, Value.isNull_of_integer? h, compare, h]
      rfl
    | _ => rfl
  | text s =>
    cases hw with
    | null => rfl
    | text t =>
      show ((Scalar.string s).compare? (.string t)).getD .eq = _
      rw [Scalar.compare_string]
      rfl
  | truth b =>
    cases hw with
    | null => rfl
    | truth c => cases b <;> cases c <;> rfl
  | number hm =>
    cases hw with
    | null => 
      rw [Value.compareKeys, Value.isNull_of_integer? hm, compare, hm]
      rfl
    | number hn =>
      rw [Value.compareKeys, Value.isNull_of_integer? hm, Value.isNull_of_integer? hn,
        Value.compare?_of_integer? hm hn, compare, hm, hn]
      rfl

theorem Holds.compare_lt_iff (hv : kind.Holds v) (hw : kind.Holds w) :
    kind.compare v w = .lt ↔ v.Before w := by
  constructor
  · intro h
    cases hv with
    | null =>
      cases hw with
      | null => cases kind <;> cases h
      | number hn => exact .null (Value.isNull_of_integer? hn)
      | _ => exact .null rfl
    | text s =>
      cases hw with
      | null => cases h
      | text t => exact .text (compareOfLessAndEq_eq_lt.mp h)
    | truth b =>
      cases hw with
      | null => cases h
      | truth c => cases b <;> cases c <;> first | exact .truth | cases h
    | number hm =>
      cases hw with
      | null => rw [compare, hm] at h; cases h
      | number hn =>
        rw [compare, hm, hn] at h
        exact .number hm hn (compareOfLessAndEq_eq_lt.mp h)
  · intro h
    cases h with
    | null hnull =>
      cases hw with
      | null => cases hnull
      | number hn => rw [compare, hn]; rfl
      | _ => rfl
    | text h =>
      cases hv with
      | text => exact compareOfLessAndEq_eq_lt.mpr h
      | number hm => cases hm
    | truth =>
      cases hv with
      | truth => rfl
      | number hm => cases hm
    | number hm hn h =>
      cases hv with
      | number =>
        rw [compare, hm, hn]
        exact compareOfLessAndEq_eq_lt.mpr h
      | _ => cases hm

theorem Holds.compare_eq_iff (hv : kind.Holds v) (hw : kind.Holds w) :
    kind.compare v w = .eq ↔ v.Ties w := by
  have hlt := hv.compare_lt_iff hw
  have hgt := hw.compare_lt_iff hv
  rw [@Std.OrientedCmp.eq_swap _ kind.compare] at hgt
  rw [Value.Ties, ← hlt, ← hgt]
  cases kind.compare v w <;> simp

end KeyKind

/-! ### Keys in a direction -/

namespace Direction

variable {kind : KeyKind} {v w : Value}

/-- The order of two keys in a direction: descending, null comes last. -/
def Before : Direction → Value → Value → Prop
  | ascending, v, w => v.Before w
  | descending, v, w => w.Before v

theorem compare_eq (d : Direction) (hv : kind.Holds v) (hw : kind.Holds w) :
    d.compare v w = match d with
      | ascending => kind.compare v w
      | descending => kind.compare w v := by
  cases d with
  | ascending => exact hv.compareKeys_eq hw
  | descending => exact hw.compareKeys_eq hv

theorem compare_lt_iff (d : Direction) (hv : kind.Holds v) (hw : kind.Holds w) :
    d.compare v w = .lt ↔ d.Before v w := by
  rw [d.compare_eq hv hw]
  cases d with
  | ascending => exact hv.compare_lt_iff hw
  | descending => exact hw.compare_lt_iff hv

theorem compare_eq_iff (d : Direction) (hv : kind.Holds v) (hw : kind.Holds w) :
    d.compare v w = .eq ↔ v.Ties w := by
  rw [d.compare_eq hv hw]
  cases d with
  | ascending => exact hv.compare_eq_iff hw
  | descending => exact (hw.compare_eq_iff hv).trans And.comm

/-- Among keys of one kind a direction is a total preorder. -/
theorem transCmp_compare {ι : Type} (d : Direction) {keys : ι → Value}
    (h : ∀ i, kind.Holds (keys i)) : Std.TransCmp fun i j => d.compare (keys i) (keys j) := by
  simp only [fun i j => d.compare_eq (h i) (h j)]
  have : Std.TransCmp fun i j => kind.compare (keys i) (keys j) :=
    { eq_swap := Std.OrientedCmp.eq_swap, isLE_trans := Std.TransCmp.isLE_trans }
  cases d with
  | ascending => exact this
  | descending => exact Std.TransCmp.opposite

end Direction

/-! ### Rows of keys -/

section Rows

variable {n : Nat} {kinds : Fin n → KeyKind} {directions : Fin n → Direction}
  {a b : Fin n → Value}

/-- The order of two rows of keys: that of the first keys that one is before
the other. -/
def RowBefore (directions : Fin n → Direction) (a b : Fin n → Value) : Prop :=
  ∃ k, (∀ j < k, (a j).Ties (b j)) ∧ (directions k).Before (a k) (b k)

/-- The comparison of two rows of keys. -/
def compareRows (directions : Fin n → Direction) (a b : Fin n → Value) : Ordering :=
  compareKeyLists (List.ofFn directions) (List.ofFn a) (List.ofFn b)

theorem compareRows_succ {directions : Fin (n + 1) → Direction} {a b : Fin (n + 1) → Value} :
    compareRows directions a b = ((directions 0).compare (a 0) (b 0)).then
      (compareRows (directions ·.succ) (a ·.succ) (b ·.succ)) := by
  simp [compareRows, List.ofFn_succ, compareKeyLists]

theorem compareRows_eq_iff (ha : ∀ k, (kinds k).Holds (a k)) (hb : ∀ k, (kinds k).Holds (b k)) :
    compareRows directions a b = .eq ↔ ∀ k, (a k).Ties (b k) := by
  induction n with
  | zero => simp [compareRows, compareKeyLists]
  | succ n ih =>
    rw [compareRows_succ, Ordering.then_eq_eq, Direction.compare_eq_iff _ (ha 0) (hb 0),
      ih (fun k => ha k.succ) (fun k => hb k.succ), Fin.forall_fin_succ]

theorem compareRows_lt_iff (ha : ∀ k, (kinds k).Holds (a k)) (hb : ∀ k, (kinds k).Holds (b k)) :
    compareRows directions a b = .lt ↔ RowBefore directions a b := by
  induction n with
  | zero => simp [compareRows, compareKeyLists, RowBefore]
  | succ n ih =>
    rw [compareRows_succ, Ordering.then_eq_lt, Direction.compare_lt_iff _ (ha 0) (hb 0),
      Direction.compare_eq_iff _ (ha 0) (hb 0), ih (fun k => ha k.succ) (fun k => hb k.succ)]
    simp only [RowBefore, Fin.exists_fin_succ, Fin.forall_fin_succ]
    simp [and_assoc]

/-- Among rows of keys of one kind for each clause the comparison is a total
preorder. -/
theorem transCmp_compareRows {ι : Type} (directions : Fin n → Direction) (rows : ι → Fin n → Value)
    (h : ∀ i k, (kinds k).Holds (rows i k)) :
    Std.TransCmp fun i j => compareRows directions (rows i) (rows j) := by
  induction n with
  | zero =>
    have heq : (fun i j => compareRows directions (rows i) (rows j)) = fun _ _ => .eq := by
      funext i j
      simp [compareRows, compareKeyLists]
    rw [heq]
    exact { eq_swap := rfl, isLE_trans := fun _ _ => rfl }
  | succ n ih =>
    have hhead := (directions 0).transCmp_compare fun i => h i 0
    have htail := ih (directions ·.succ) (fun i k => rows i k.succ) fun i k => h i k.succ
    simp only [compareRows_succ]
    exact inferInstanceAs (Std.TransCmp (compareLex _ _))

end Rows

end Ordering
end QueryExpr
