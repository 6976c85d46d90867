/-
# Conversions go one way

A type that is not that of null converts to other types only that stand lower than
it does: numbers to wider ones, all types to `Object`, sequences to sequences of lower
elements, and classes to their bases and to sequences of their elements. So no two
such types convert to each other, neither at once nor by way of others.

Key definitions: `Prim.rank`, `Ty.rank`.
Key theorems: `Ty.rank_lt_of_converts`, `Ty.converts_antisymm`.
-/
import QueryExpr.Proofs.ConversionOrder

namespace QueryExpr

/-! ### Ranks -/

/-- How far the type is from the widest one. -/
def Prim.rank : Prim → Nat
  | .object => 0
  | .boolean | .string | .decimal => 1
  | .double => 2
  | .single => 3
  | .int .int64 | .int .uint64 => 4
  | .int .int32 | .int .uint32 => 5
  | .int .int16 | .int .uint16 => 6
  | .int .sbyte | .int .byte | .char => 7

/-- All predefined types. -/
def Prim.every : List Prim :=
  [.boolean, .char, .int .sbyte, .int .byte, .int .int16, .int .uint16, .int .int32,
    .int .uint32, .int .int64, .int .uint64, .single, .double, .decimal, .string, .object]

theorem Prim.mem_every (p : Prim) : p ∈ every := by
  cases p with
  | int i => cases i <;> decide
  | _ => decide

/-- What is claimed of all predefined types is tried out on each. -/
instance Prim.decidableForall {P : Prim → Prop} [DecidablePred P] : Decidable (∀ p, P p) :=
  decidable_of_iff (∀ p ∈ every, P p) ⟨fun h p => h p p.mem_every, fun h p _ => h p⟩

/-- What widens to another type ranks higher. -/
theorem Prim.rank_lt_of_widens {p q : Prim} (h : p.widens q = true) (hne : p ≠ q) :
    q.rank < p.rank := by
  revert p q
  decide +kernel

theorem Prim.rank_pos {p : Prim} (h : p ≠ .object) : 0 < p.rank := by
  revert p
  decide

namespace Ty

/-- Where the type stands: what it converts to stands lower, unless it is null. -/
def rank : Ty → Nat
  | .prim .object => 0
  | .prim p => 2 * p.rank + 2
  | .nullable p => 2 * p.rank + 1
  | .null | .record .. | .delegate .. => 1
  | .void => 0
  | .sequence e => e.rank + 1
  | .array e => e.rank + 2
  | .cls _ _ _ _ (some e) (some b) _ => max (e.rank + 1) b.rank + 1
  | .cls _ _ _ _ (some e) none _ => e.rank + 2
  | .cls _ _ _ _ none (some b) _ => b.rank + 1
  | .cls _ _ _ _ none none _ => 1
termination_by structural t => t

variable {ts : List Ty} {t u e f : Ty} {p : Prim}

theorem rank_prim (h : p ≠ .object) : (Ty.prim p).rank = 2 * p.rank + 2 := by
  cases p <;> first | rfl | exact absurd rfl h

theorem rank_pos (ho : t ≠ object) (hv : t.isVoid = false) : 0 < t.rank := by
  cases t with
  | prim p =>
    rw [rank_prim fun h => ho (congrArg _ h)]
    exact Nat.succ_pos _
  | void => cases hv
  | cls n ps ms is e b v => cases e <;> cases b <;> exact Nat.succ_pos _
  | _ => exact Nat.succ_pos _

/-- A wider type, or a nullable one, ranks lower. -/
theorem rank_lift_lt {q : Prim} {n m : Bool} (hw : p.widens q = true)
    (hnm : n = true → m = true) (hv : m = true → p.isValueType = true)
    (hne : lift p n ≠ lift q m) : (lift q m).rank < (lift p n).rank := by
  have hp : p ≠ .object := by
    rintro rfl
    cases m with
    | true => cases hv rfl
    | false =>
      cases n with
      | true => cases hnm rfl
      | false => cases q <;> first | exact hne rfl | cases hw
  have hlow (n : Bool) : 2 * p.rank + 1 ≤ (lift p n).rank := by
    cases n with
    | true => exact Nat.le_refl _
    | false =>
      show _ ≤ (Ty.prim p).rank
      rw [rank_prim hp]
      exact Nat.le_succ _
  have hhigh : (lift q m).rank ≤ 2 * q.rank + 2 := by
    cases m with
    | true => exact Nat.le_succ _
    | false => cases q <;> first | exact Nat.le_refl _ | exact Nat.zero_le _
  by_cases hpq : p = q
  · subst hpq
    cases n with
    | true =>
      obtain rfl := hnm rfl
      exact absurd rfl hne
    | false =>
      cases m with
      | false => exact absurd rfl hne
      | true =>
        show 2 * p.rank + 1 < (Ty.prim p).rank
        rw [rank_prim hp]
        exact Nat.lt_succ_self _
  · have hrank := Prim.rank_lt_of_widens hw hpq
    have := hlow n
    omega

/-- Bases rank lower. -/
theorem rank_lt_of_mem_bases : ∀ {t b : Ty}, b ∈ t.bases → b.rank < t.rank
  | .cls n ps ms is e (some b') v, b, h => by
    have hbase : b'.rank < (Ty.cls n ps ms is e (some b') v).rank := by
      cases e with
      | none => exact Nat.lt_succ_self _
      | some e => exact Nat.lt_succ_of_le (Nat.le_max_right ..)
    rcases List.mem_cons.mp h with rfl | h
    · exact hbase
    · exact Nat.lt_trans (rank_lt_of_mem_bases (t := b') h) hbase
  | .cls _ _ _ _ _ none _, b, h => by cases h
  | .prim _, b, h | .nullable _, b, h | .null, b, h | .void, b, h | .sequence _, b, h
  | .array _, b, h | .record _ _, b, h | .delegate _ _ _ _, b, h => by cases h

/-- A sequence of its elements ranks lower than a type that is none. -/
theorem rank_sequence_lt (h : t.element? = some e) :
    t = .sequence e ∨ (Ty.sequence e).rank < t.rank := by
  cases t with
  | sequence e' => cases h; exact .inl rfl
  | array e' => cases h; exact .inr (Nat.lt_succ_self _)
  | cls n ps ms is e' b v =>
    cases h
    refine .inr ?_
    cases b with
    | none => exact Nat.lt_succ_self _
    | some b => exact Nat.lt_succ_of_le (Nat.le_max_left ..)
  | _ => cases h

/-! ### One way -/

section

variable (hm : OnePerName ts)
include hm

/-- A reference to one type serves as one to a lower type. -/
theorem rank_lt_of_byReference (ht : t.Throughout (Occurs ts)) (hu : u.Throughout (Occurs ts))
    (h : convertsByReference t u = true) : t = u ∨ u.rank < t.rank := by
  by_cases htu : t = u
  · exact .inl htu
  refine .inr ?_
  rcases hm.byReference_cases ht hu h with heq | ⟨hn, rfl⟩ | hmem
  · exact absurd heq htu
  · refine rank_pos htu ?_
    cases t <;> first | rfl | cases hn
  · exact rank_lt_of_mem_bases hmem

/-- **What a type converts to ranks lower**, unless it is the type itself, or the
type is that of null. -/
theorem rank_lt_of_converts (ht : t.Throughout (Occurs ts)) (hu : u.Throughout (Occurs ts))
    (hn : t ≠ .null) (h : t.converts u = true) : t = u ∨ u.rank < t.rank := by
  by_cases htu : t = u
  · exact .inl htu
  refine .inr ?_
  rcases converts_cases h with hs | rfl | ⟨hnull, -⟩ | ⟨p, q, n, m, rfl, rfl, hw, hnm, hv⟩ |
    ⟨e, f, he, rfl, hr⟩ | ⟨e, f, rfl, rfl, hr⟩ | hb
  · exact absurd (hm.eq_of_beq ht hu hs) htu
  · refine rank_pos htu ?_
    cases t <;> first | rfl | cases h
  · exact absurd hnull hn
  · exact rank_lift_lt hw hnm hv htu
  · rcases rank_lt_of_byReference hm (ht.element he) (hu.element rfl) hr with rfl | hlt
    · exact (rank_sequence_lt he).resolve_left htu
    · have hlower : (Ty.sequence f).rank < (Ty.sequence e).rank := Nat.succ_lt_succ hlt
      rcases rank_sequence_lt he with rfl | hseq
      · exact hlower
      · exact Nat.lt_trans hlower hseq
  · rcases rank_lt_of_byReference hm (ht.element rfl) (hu.element rfl) hr with rfl | hlt
    · exact absurd rfl htu
    · exact Nat.add_lt_add_right hlt 2
  · exact rank_lt_of_mem_bases (hm.mem_bases ht hu hb)

/-- **No two types but that of null convert to each other.** -/
theorem converts_antisymm (ht : t.Throughout (Occurs ts)) (hu : u.Throughout (Occurs ts))
    (hnt : t ≠ .null) (hnu : u ≠ .null) (h : t.converts u = true) (h' : u.converts t = true) :
    t = u := by
  rcases rank_lt_of_converts hm ht hu hnt h with heq | hlt
  · exact heq
  rcases rank_lt_of_converts hm hu ht hnu h' with heq | hlt'
  · exact heq.symm
  · omega

end

end Ty
end QueryExpr
