/-
# The cheapest overload

Whatever it costs to pass the arguments, the candidate that is found admits them at
less cost than every other one that does. So the order of the candidates says where
the one that is found stands and nothing else, and a candidate that does not admit
the arguments may be left out.

Costs are added without a bound. In the program an argument costs at most one
(`Term.assignmentCost?_le_one`), so a total is at most the number of the arguments
(`totalCost_le_length`).

Key definitions: `Admits`, `totalCost`, `IsCheapest`, `Embeds`, `rearranged`.
Key theorems: `resolveOverload_eq_found_iff`, `Embeds.resolveOverload_eq`,
`resolveOverload_chooses`.
-/
import Mathlib
import QueryExpr.Typing.Assignment
import QueryExpr.Typing.Overload

namespace QueryExpr

/-! ### The cost of a candidate -/

section

variable {cost : Nat → Ty → Option Nat} {arity i j n : Nat} {ts us : List Ty}
  {xs ys candidates : List (List Ty)}

/-- There are as many parameters as arguments, and each argument can be passed. -/
def Admits (cost : Nat → Ty → Option Nat) (arity : Nat) (ts : List Ty) : Prop :=
  ts.length = arity ∧ ∀ k t, ts[k]? = some t → (cost k t).isSome

/-- What it costs to pass all the arguments that can be passed. -/
def totalCost (cost : Nat → Ty → Option Nat) (ts : List Ty) : Nat :=
  (ts.mapIdx fun k t => (cost k t).getD 0).sum

/-- The candidate admits the arguments, at less cost than every other one that does. -/
def IsCheapest (cost : Nat → Ty → Option Nat) (arity : Nat) (candidates : List (List Ty))
    (i : Nat) : Prop :=
  ∃ ts, candidates[i]? = some ts ∧ Admits cost arity ts ∧
    ∀ j us, j ≠ i → candidates[j]? = some us → Admits cost arity us →
      totalCost cost ts < totalCost cost us

theorem totalCost_cons {t : Ty} : totalCost cost (t :: ts) =
    (cost 0 t).getD 0 + totalCost (fun k => cost (k + 1)) ts := by
  unfold totalCost
  rw [List.mapIdx_cons, List.sum_cons]

/-- Where no argument costs more than one, the total is no more than their number. -/
theorem totalCost_le_length (hcost : ∀ k t n, cost k t = some n → n ≤ 1) :
    totalCost cost ts ≤ ts.length := by
  induction ts generalizing cost with
  | nil => exact Nat.le_refl 0
  | cons t ts ih =>
    have hrest := ih fun k => hcost (k + 1)
    have hfirst : (cost 0 t).getD 0 ≤ 1 := by
      cases h : cost 0 t with
      | none => exact Nat.zero_le 1
      | some n => exact hcost 0 t n h
    rw [totalCost_cons, List.length_cons]
    omega

/-- The sum that stops at the first argument that cannot be passed is the total cost
if each can be. -/
theorem totalCost?_eq_some_iff : totalCost? cost i ts = some n ↔
    (∀ k t, ts[k]? = some t → (cost (i + k) t).isSome) ∧
      totalCost (fun k => cost (i + k)) ts = n := by
  induction ts generalizing i n with
  | nil => simp [totalCost?, totalCost]
  | cons t ts ih =>
    have hshift : (fun k => cost (i + (k + 1))) = fun k => cost (i + 1 + k) := by
      funext k
      rw [Nat.add_assoc, Nat.add_comm 1]
    have hall : (∀ k u, (t :: ts)[k]? = some u → (cost (i + k) u).isSome) ↔
        (cost i t).isSome ∧ ∀ k u, ts[k]? = some u → (cost (i + 1 + k) u).isSome := by
      constructor
      · refine fun h => ⟨h 0 t rfl, fun k u hu => ?_⟩
        rw [← congrFun hshift k]
        exact h (k + 1) u hu
      · rintro ⟨hfirst, hrest⟩ (_ | k) u hu
        · obtain rfl : t = u := by simpa using hu
          exact hfirst
        · rw [congrFun hshift k]
          exact hrest k u (by simpa using hu)
    rw [hall, totalCost_cons, hshift, totalCost?, Nat.add_zero]
    cases hfirst : cost i t with
    | none => simp
    | some a =>
      cases hrest : totalCost? cost (i + 1) ts with
      | none =>
        refine iff_of_false nofun fun ⟨⟨_, hsome⟩, _⟩ => ?_
        rw [ih.mpr ⟨hsome, rfl⟩] at hrest
        cases hrest
      | some b =>
        obtain ⟨hsome, rfl⟩ := ih.mp hrest
        simp only [Option.some.injEq, Option.isSome_some, Option.getD_some, true_and]
        exact (and_iff_right hsome).symm

/-! ### What is found -/

theorem mem_applicable_iff : (i, n) ∈ applicable cost arity candidates ↔
    ∃ ts, candidates[i]? = some ts ∧ Admits cost arity ts ∧ totalCost cost ts = n := by
  have hcost : ∀ {ts : List Ty} {m : Nat}, totalCost? cost 0 ts = some m ↔
      (∀ k t, ts[k]? = some t → (cost k t).isSome) ∧ totalCost cost ts = m := by
    intro ts m
    have h := @totalCost?_eq_some_iff cost 0 m ts
    simpa only [Nat.zero_add] using h
  unfold applicable Admits
  rw [List.mem_filterMap]
  constructor
  · rintro ⟨⟨ts, k⟩, hk, h⟩
    dsimp only at h
    split at h
    · rename_i hlength
      obtain ⟨m, hm, heq⟩ := Option.map_eq_some_iff.mp h
      cases heq
      obtain ⟨hall, rfl⟩ := hcost.mp hm
      exact ⟨ts, List.mem_zipIdx_iff_getElem?.mp hk, ⟨beq_iff_eq.mp hlength, hall⟩, rfl⟩
    · cases h
  · rintro ⟨ts, hts, ⟨hlength, hall⟩, htotal⟩
    refine ⟨(ts, i), List.mem_zipIdx_iff_getElem?.mpr hts, ?_⟩
    dsimp only
    rw [if_pos (beq_iff_eq.mpr hlength), hcost.mpr ⟨hall, htotal⟩, Option.map_some]

theorem nodup_applicable (cost : Nat → Ty → Option Nat) (arity : Nat)
    (candidates : List (List Ty)) : (applicable cost arity candidates).Nodup := by
  have hzip : candidates.zipIdx.Pairwise fun a b => a.2 ≠ b.2 := by
    refine List.pairwise_map.mp ?_
    rw [List.zipIdx_map_snd]
    exact List.nodup_range'
  refine hzip.filterMap _ fun a b hab x hx y hy heq => hab ?_
  have hindex : ∀ {c : List Ty × Nat} {z : Nat × Nat},
      (if c.1.length == arity then (totalCost? cost 0 c.1).map fun n => (c.2, n) else none) =
        some z → z.1 = c.2 := by
    intro c z hz
    split at hz
    · obtain ⟨m, -, rfl⟩ := Option.map_eq_some_iff.mp hz
      rfl
    · cases hz
  rw [← hindex hx, ← hindex hy, heq]

/-- The only element of a list without repetition. -/
theorem eq_singleton_of_nodup {α : Type} {xs : List α} {x : α} (hnd : xs.Nodup) (hx : x ∈ xs)
    (hall : ∀ y ∈ xs, y = x) : xs = [x] := by
  cases xs with
  | nil => cases hx
  | cons y ys =>
    obtain rfl := hall y List.mem_cons_self
    cases ys with
    | nil => rfl
    | cons z zs =>
      obtain rfl := hall z (List.mem_cons_of_mem _ List.mem_cons_self)
      exact absurd List.mem_cons_self (List.nodup_cons.mp hnd).1

theorem resolveOverload_eq (candidates : List (List Ty)) (arity : Nat)
    (cost : Nat → Ty → Option Nat) :
    resolveOverload candidates arity cost =
      match ((applicable cost arity candidates).map (·.2)).min? with
      | none => .noneApplicable
      | some least =>
        match (applicable cost arity candidates).filter fun c => c.2 == least with
        | [(index, _)] => .found index
        | _ => .ambiguous := rfl

theorem resolveOverload_eq_none_iff : resolveOverload candidates arity cost = .noneApplicable ↔
    applicable cost arity candidates = [] := by
  rw [resolveOverload_eq]
  constructor
  · intro h
    split at h
    · rename_i hmin
      simpa using hmin
    · split at h <;> cases h
  · intro h
    rw [h]
    rfl

/-- **What is found costs less than everything else that is applicable.** -/
theorem resolveOverload_eq_found_iff : resolveOverload candidates arity cost = .found i ↔
    ∃ n, (i, n) ∈ applicable cost arity candidates ∧
      ∀ c ∈ applicable cost arity candidates, c ≠ (i, n) → n < c.2 := by
  rw [resolveOverload_eq]
  constructor
  · intro h
    split at h
    · cases h
    rename_i least hmin
    obtain ⟨-, hle⟩ := List.min?_eq_some_iff.mp hmin
    split at h
    · rename_i j n hf
      cases h
      have hmem : (i, n) ∈ (applicable cost arity candidates).filter fun c => c.2 == least := by
        rw [hf]
        exact List.mem_singleton_self _
      obtain ⟨hi, hn⟩ := List.mem_filter.mp hmem
      obtain rfl : n = least := by simpa using hn
      refine ⟨n, hi, fun c hc hne => ?_⟩
      refine Nat.lt_of_le_of_ne (hle _ (List.mem_map_of_mem hc)) fun heq => hne ?_
      have hc' : c ∈ (applicable cost arity candidates).filter fun c => c.2 == n :=
        List.mem_filter.mpr ⟨hc, by simp [heq]⟩
      rw [hf] at hc'
      exact List.mem_singleton.mp hc'
    · cases h
  · rintro ⟨n, hi, hleast⟩
    have hmin : ((applicable cost arity candidates).map (·.2)).min? = some n := by
      refine List.min?_eq_some_iff.mpr ⟨List.mem_map_of_mem hi, fun m hm => ?_⟩
      obtain ⟨c, hc, rfl⟩ := List.mem_map.mp hm
      by_cases heq : c = (i, n)
      · simp [heq]
      · exact Nat.le_of_lt (hleast c hc heq)
    have hf : (applicable cost arity candidates).filter (fun c => c.2 == n) = [(i, n)] := by
      refine eq_singleton_of_nodup ((nodup_applicable cost arity candidates).filter _)
        (List.mem_filter.mpr ⟨hi, by simp⟩) fun c hc => ?_
      obtain ⟨hc, hn⟩ := List.mem_filter.mp hc
      by_cases heq : c = (i, n)
      · exact heq
      · have hlt := hleast c hc heq
        have hcn : c.2 = n := by simpa using hn
        omega
    rw [hmin]
    dsimp only
    rw [hf]

theorem found_iff_isCheapest : resolveOverload candidates arity cost = .found i ↔
    IsCheapest cost arity candidates i := by
  rw [resolveOverload_eq_found_iff]
  constructor
  · rintro ⟨n, hi, hleast⟩
    obtain ⟨ts, hts, hadmits, rfl⟩ := mem_applicable_iff.mp hi
    refine ⟨ts, hts, hadmits, fun j us hne hus hus' => ?_⟩
    exact hleast (j, _) (mem_applicable_iff.mpr ⟨us, hus, hus', rfl⟩) fun heq =>
      hne (congrArg Prod.fst heq)
  · rintro ⟨ts, hts, hadmits, hleast⟩
    refine ⟨_, mem_applicable_iff.mpr ⟨ts, hts, hadmits, rfl⟩, fun ⟨j, m⟩ hc hne => ?_⟩
    obtain ⟨us, hus, hus', rfl⟩ := mem_applicable_iff.mp hc
    refine hleast j us (fun heq => hne ?_) hus hus'
    subst heq
    rw [Option.some.inj (hts.symm.trans hus)]

theorem none_iff_not_admits : resolveOverload candidates arity cost = .noneApplicable ↔
    ∀ ts ∈ candidates, ¬ Admits cost arity ts := by
  rw [resolveOverload_eq_none_iff, List.eq_nil_iff_forall_not_mem]
  constructor
  · intro hnone ts hts hadmits
    obtain ⟨i, hi⟩ := List.mem_iff_getElem?.mp hts
    exact hnone (i, _) (mem_applicable_iff.mpr ⟨ts, hi, hadmits, rfl⟩)
  · rintro hnone ⟨i, n⟩ hc
    obtain ⟨ts, hts, hadmits, -⟩ := mem_applicable_iff.mp hc
    exact hnone ts (List.mem_of_getElem? hts) hadmits

theorem ambiguous_iff_not_isCheapest : resolveOverload candidates arity cost = .ambiguous ↔
    (∃ ts ∈ candidates, Admits cost arity ts) ∧ ∀ i, ¬ IsCheapest cost arity candidates i := by
  have hsome : (∃ ts ∈ candidates, Admits cost arity ts) ↔
      resolveOverload candidates arity cost ≠ .noneApplicable := by
    rw [Ne, none_iff_not_admits]
    push Not
    rfl
  simp only [hsome, ← found_iff_isCheapest]
  cases resolveOverload candidates arity cost <;> simp

/-! ### The same candidates at other places -/

/-- The outcome with the candidates at other places. -/
def Resolution.map (f : Nat → Nat) : Resolution → Resolution
  | .found i => .found (f i)
  | .noneApplicable => .noneApplicable
  | .ambiguous => .ambiguous

/-- The candidates of the first list are in the second at the places given, and none
besides them admits the arguments. -/
structure Embeds (cost : Nat → Ty → Option Nat) (arity : Nat) (f : Nat → Nat)
    (xs ys : List (List Ty)) : Prop where
  injective : f.Injective
  kept : ∀ i ts, xs[i]? = some ts → ys[f i]? = some ts
  others : ∀ j us, ys[j]? = some us → Admits cost arity us → ∃ i, f i = j ∧ xs[i]? = some us

namespace Embeds

variable {f : Nat → Nat}

theorem isCheapest (h : Embeds cost arity f xs ys) (hi : IsCheapest cost arity xs i) :
    IsCheapest cost arity ys (f i) := by
  obtain ⟨ts, hts, hadmits, hleast⟩ := hi
  refine ⟨ts, h.kept i ts hts, hadmits, fun j us hne hus hus' => ?_⟩
  obtain ⟨k, rfl, hk⟩ := h.others j us hus hus'
  exact hleast k us (fun heq => hne (congrArg f heq)) hk hus'

theorem exists_isCheapest (h : Embeds cost arity f xs ys) (hj : IsCheapest cost arity ys j) :
    ∃ i, f i = j ∧ IsCheapest cost arity xs i := by
  obtain ⟨us, hus, hadmits, hleast⟩ := hj
  obtain ⟨i, rfl, hi⟩ := h.others j us hus hadmits
  refine ⟨i, rfl, us, hi, hadmits, fun k ts hne hts hts' => ?_⟩
  exact hleast (f k) ts (fun heq => hne (h.injective heq)) (h.kept k ts hts) hts'

theorem admits_iff (h : Embeds cost arity f xs ys) :
    (∃ ts ∈ ys, Admits cost arity ts) ↔ ∃ ts ∈ xs, Admits cost arity ts := by
  constructor
  · rintro ⟨ts, hts, hadmits⟩
    obtain ⟨j, hj⟩ := List.mem_iff_getElem?.mp hts
    obtain ⟨i, -, hi⟩ := h.others j ts hj hadmits
    exact ⟨ts, List.mem_of_getElem? hi, hadmits⟩
  · rintro ⟨ts, hts, hadmits⟩
    obtain ⟨i, hi⟩ := List.mem_iff_getElem?.mp hts
    exact ⟨ts, List.mem_of_getElem? (h.kept i ts hi), hadmits⟩

/-- **The outcome is the same up to the places of the candidates.** -/
theorem resolveOverload_eq (h : Embeds cost arity f xs ys) :
    resolveOverload ys arity cost = (resolveOverload xs arity cost).map f := by
  cases hxs : resolveOverload xs arity cost with
  | found i => exact found_iff_isCheapest.mpr (h.isCheapest (found_iff_isCheapest.mp hxs))
  | noneApplicable =>
    refine none_iff_not_admits.mpr fun ts hts hadmits => ?_
    obtain ⟨us, hus, hadmits'⟩ := h.admits_iff.mp ⟨ts, hts, hadmits⟩
    exact none_iff_not_admits.mp hxs us hus hadmits'
  | ambiguous =>
    obtain ⟨hsome, hnot⟩ := ambiguous_iff_not_isCheapest.mp hxs
    refine ambiguous_iff_not_isCheapest.mpr ⟨h.admits_iff.mpr hsome, fun j hj => ?_⟩
    obtain ⟨i, -, hi⟩ := h.exists_isCheapest hj
    exact hnot i hi

end Embeds

/-! ### Another order, and a candidate that is left out -/

/-- The candidates in another order: at the place `k` the one from the place `σ k`. -/
def rearranged {α : Type} (xs : List α) (σ : Equiv.Perm (Fin xs.length)) : List α :=
  List.ofFn fun k => xs[σ k]

/-- The places below `n` are permuted, the others kept. -/
def permuted {n : Nat} (σ : Equiv.Perm (Fin n)) (i : Nat) : Nat :=
  if h : i < n then σ ⟨i, h⟩ else i

theorem permuted_of_lt {σ : Equiv.Perm (Fin n)} (h : i < n) : permuted σ i = σ ⟨i, h⟩ := dif_pos h

theorem permuted_of_ge {σ : Equiv.Perm (Fin n)} (h : ¬ i < n) : permuted σ i = i := dif_neg h

theorem injective_permuted (σ : Equiv.Perm (Fin n)) : (permuted σ).Injective := by
  intro i j hij
  by_cases hi : i < n <;> by_cases hj : j < n
  · rw [permuted_of_lt hi, permuted_of_lt hj] at hij
    exact congrArg Fin.val (σ.injective (Fin.ext hij))
  · rw [permuted_of_lt hi, permuted_of_ge hj] at hij
    exact absurd (hij ▸ (σ ⟨i, hi⟩).isLt) hj
  · rw [permuted_of_ge hi, permuted_of_lt hj] at hij
    exact absurd (hij ▸ (σ ⟨j, hj⟩).isLt) hi
  · rwa [permuted_of_ge hi, permuted_of_ge hj] at hij

theorem getElem?_rearranged_iff {σ : Equiv.Perm (Fin xs.length)} :
    (rearranged xs σ)[i]? = some ts ↔ i < xs.length ∧ xs[permuted σ i]? = some ts := by
  unfold rearranged
  by_cases hi : i < xs.length
  · rw [permuted_of_lt hi, List.getElem?_ofFn, dif_pos hi]
    simp [hi]
  · rw [List.getElem?_ofFn, dif_neg hi]
    simp [hi]

theorem embeds_rearranged (σ : Equiv.Perm (Fin xs.length)) :
    Embeds cost arity (permuted σ) (rearranged xs σ) xs where
  injective := injective_permuted σ
  kept _ _ h := (getElem?_rearranged_iff.mp h).2
  others j us hj _ := by
    obtain ⟨hlt, -⟩ := List.getElem?_eq_some_iff.mp hj
    have hback : permuted σ (σ.symm ⟨j, hlt⟩) = j := by
      rw [permuted_of_lt (σ.symm ⟨j, hlt⟩).isLt, Fin.eta, Equiv.apply_symm_apply]
    exact ⟨_, hback, getElem?_rearranged_iff.mpr ⟨(σ.symm ⟨j, hlt⟩).isLt, by rw [hback, hj]⟩⟩

theorem embeds_insert {before after : List (List Ty)} {h : List Ty} (hh : ¬ Admits cost arity h) :
    Embeds cost arity (fun i => if i < before.length then i else i + 1) (before ++ after)
      (before ++ h :: after) where
  injective i j hij := by
    dsimp only at hij
    split at hij <;> split at hij <;> omega
  kept i ts hi := by
    split
    · rename_i hlt
      rwa [List.getElem?_append_left hlt] at hi ⊢
    · rename_i hge
      rw [List.getElem?_append_right (by omega)] at hi ⊢
      rwa [Nat.sub_add_comm (by omega), List.getElem?_cons_succ]
  others j us hj hus := by
    rcases Nat.lt_trichotomy j before.length with hlt | rfl | hgt
    · refine ⟨j, if_pos hlt, ?_⟩
      rwa [List.getElem?_append_left hlt] at hj ⊢
    · obtain rfl : h = us := by simpa using hj
      exact absurd hus hh
    · refine ⟨j - 1, by rw [if_neg (by omega)]; omega, ?_⟩
      obtain ⟨k, rfl⟩ : ∃ k, j = before.length + k + 1 := ⟨j - before.length - 1, by omega⟩
      rw [List.getElem?_append_right (by omega)] at hj ⊢
      rw [show before.length + k + 1 - before.length = k + 1 by omega,
        List.getElem?_cons_succ] at hj
      rwa [show before.length + k + 1 - 1 - before.length = k by omega]

end

end QueryExpr
