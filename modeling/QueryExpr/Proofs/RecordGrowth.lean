/-
# How the record types of a cache grow

Equality of signatures is an equivalence, and equal signatures have the same
names. A cache that grows by requests loses no record type, and the record
type found for a signature stays the one found for it: a new one is made only
for a signature that is equal to none before.

Key definitions: `RecordCache.Grows`.
Key theorems: `Properties.same_trans`, `RecordCache.request_outcomes`,
`RecordCache.Grows.mem`, `RecordCache.Grows.find?`,
`RecordCache.Grows.request_again`, `RecordCache.Grows.fresh`.
-/
import QueryExpr.Proofs.TypeParts
import QueryExpr.Record

namespace QueryExpr

/-! ### Equal signatures -/

namespace Properties

theorem same_refl : ∀ ps : Properties, ps.same ps = true
  | [] => rfl
  | (n, t) :: ps => by simp [same, same_refl ps]

theorem same_symm : ∀ {ps qs : Properties}, ps.same qs = true → qs.same ps = true
  | [], [], _ => rfl
  | [], _ :: _, h => by cases h
  | _ :: _, [], h => by cases h
  | (n, t) :: ps, (m, u) :: qs, h => by
    simp only [same, Bool.and_eq_true, beq_iff_eq] at h ⊢
    exact ⟨⟨h.1.1.symm, Ty.beq_symm h.1.2⟩, same_symm h.2⟩

theorem same_trans : ∀ {ps qs rs : Properties},
    ps.same qs = true → qs.same rs = true → ps.same rs = true
  | [], [], _, _, h' => h'
  | [], _ :: _, _, h, _ => by cases h
  | _ :: _, [], _, h, _ => by cases h
  | _ :: _, _ :: _, [], _, h' => by cases h'
  | (n, t) :: ps, (m, u) :: qs, (k, v) :: rs, h, h' => by
    simp only [same, Bool.and_eq_true, beq_iff_eq] at h h' ⊢
    exact ⟨⟨h.1.1.trans h'.1.1, Ty.beq_trans h.1.2 h'.1.2⟩, same_trans h.2 h'.2⟩

theorem names_of_same : ∀ {ps qs : Properties}, ps.same qs = true →
    ps.map (·.1) = qs.map (·.1)
  | [], [], _ => rfl
  | [], _ :: _, h => by cases h
  | _ :: _, [], h => by cases h
  | (n, t) :: ps, (m, u) :: qs, h => by
    simp only [same, Bool.and_eq_true, beq_iff_eq] at h
    simp only [List.map_cons, h.1.1, names_of_same h.2]

/-- Whether a signature is faulty is a matter of its names. -/
theorem faultAfter_of_names : ∀ {ps qs : Properties} (seen : List String),
    ps.map (·.1) = qs.map (·.1) → ps.faultAfter seen = qs.faultAfter seen
  | [], [], _, _ => rfl
  | [], _ :: _, _, h => by cases h
  | _ :: _, [], _, h => by cases h
  | (n, t) :: ps, (m, u) :: qs, seen, h => by
    simp only [List.map_cons, List.cons.injEq] at h
    obtain ⟨rfl, h⟩ := h
    simp only [faultAfter, faultAfter_of_names (seen ++ [n]) h]

theorem fault_of_same {ps qs : Properties} (h : ps.same qs = true) : ps.fault = qs.fault :=
  faultAfter_of_names [] (names_of_same h)

end Properties

/-! ### Growth -/

/-- The second cache comes from the first by requests. -/
inductive RecordCache.Grows (c : RecordCache) : RecordCache → Prop
  | refl : Grows c c
  | request {d : RecordCache} (ps : Properties) : Grows c d → Grows c (d.request ps).2

namespace RecordCache

variable {c d e : RecordCache} {ps qs : Properties} {r : RecordType}

theorem Grows.trans (h : c.Grows d) (h' : d.Grows e) : c.Grows e := by
  induction h' with
  | refl => exact h
  | request ps _ ih => exact ih.request ps

/-- **What a request comes to**: what is found, a fault, or a new record type
with the next number. -/
theorem request_outcomes (c : RecordCache) (ps : Properties) :
    (∃ r, c.find? ps = some r ∧ c.request ps = (.ok r, c)) ∨
    (∃ cause, c.find? ps = none ∧ ps.fault = some cause ∧ c.request ps = (.error cause, c)) ∨
    (c.find? ps = none ∧ ps.fault = none ∧
      c.request ps = (.ok ⟨c.synthesized + 1, ps⟩,
        ⟨⟨c.synthesized + 1, ps⟩ :: c.entries, c.synthesized + 1⟩)) := by
  unfold request
  cases hf : c.find? ps with
  | some r => exact .inl ⟨r, rfl, rfl⟩
  | none =>
    cases hc : ps.fault with
    | some cause => exact .inr (.inl ⟨cause, rfl, rfl, rfl⟩)
    | none => exact .inr (.inr ⟨rfl, rfl, rfl⟩)

/-- A request adds a record type with the next number, or nothing. -/
theorem request_cases (c : RecordCache) (ps : Properties) :
    (c.request ps).2 = c ∨
      (c.request ps).2 = ⟨⟨c.synthesized + 1, ps⟩ :: c.entries, c.synthesized + 1⟩ := by
  rcases c.request_outcomes ps with ⟨r, -, h⟩ | ⟨cause, -, -, h⟩ | ⟨-, -, h⟩ <;> rw [h]
  · exact .inl rfl
  · exact .inl rfl
  · exact .inr rfl

/-- What is found for a signature is in the cache, with an equal one. -/
theorem find?_ok (h : c.find? ps = some r) : ps.same r.properties = true ∧ r ∈ c.entries := by
  unfold find? at h
  have hs := List.find?_some h
  exact ⟨hs, List.mem_of_find?_eq_some h⟩

/-- A record type of another signature makes no difference to what is found. -/
theorem find?_cons_of_not_same {es : List RecordType} {n : Nat}
    (h : ¬ ps.same r.properties = true) :
    (⟨r :: es, n⟩ : RecordCache).find? ps = (⟨es, n⟩ : RecordCache).find? ps := by
  unfold find?
  exact List.find?_cons_of_neg h

theorem find?_isSome_of_mem (h : r ∈ c.entries) (hs : ps.same r.properties = true) :
    (c.find? ps).isSome = true :=
  List.find?_isSome.mpr ⟨r, h, hs⟩

/-- What is found is the same for equal signatures. -/
theorem find?_of_same (h : ps.same qs = true) : c.find? ps = c.find? qs := by
  unfold find?
  congr 1
  funext r
  refine Bool.eq_iff_iff.mpr ⟨fun hr => ?_, fun hr => ?_⟩
  · exact Properties.same_trans (Properties.same_symm h) hr
  · exact Properties.same_trans h hr

/-- What is requested is found in the cache afterwards. -/
theorem find?_of_request (h : c.request ps = (.ok r, d)) : d.find? ps = some r := by
  rcases c.request_outcomes ps with ⟨r', hf, h'⟩ | ⟨cause, -, -, h'⟩ | ⟨-, -, h'⟩ <;>
    rw [h'] at h <;> cases h
  · exact hf
  · exact List.find?_cons_of_pos ps.same_refl

theorem request_ok (h : c.request ps = (.ok r, d)) :
    ps.same r.properties = true ∧ r ∈ d.entries := find?_ok (find?_of_request h)

theorem mem_request (ps : Properties) (h : r ∈ c.entries) : r ∈ (c.request ps).2.entries := by
  rcases c.request_cases ps with h' | h' <;> rw [h']
  · exact h
  · exact List.mem_cons_of_mem _ h

/-- No record type is lost. -/
theorem Grows.mem (h : c.Grows d) (hr : r ∈ c.entries) : r ∈ d.entries := by
  induction h with
  | refl => exact hr
  | request ps _ ih => exact mem_request ps ih

/-- A record type is made only if none is found, so that what is found for
another signature stays what it was. -/
theorem find?_request (qs : Properties) (h : c.find? ps = some r) :
    (c.request qs).2.find? ps = some r := by
  rcases c.request_outcomes qs with ⟨r', -, h'⟩ | ⟨cause, -, -, h'⟩ | ⟨hq, -, h'⟩ <;> rw [h']
  · exact h
  · exact h
  · have hne : ¬ ps.same qs = true := by
      intro hs
      rw [← find?_of_same hs, h] at hq
      cases hq
    rw [find?_cons_of_not_same hne]
    exact h

/-- **What is found for a signature is found for it ever after.** -/
theorem Grows.find? (h : c.Grows d) (hr : c.find? ps = some r) : d.find? ps = some r := by
  induction h with
  | refl => exact hr
  | request qs _ ih => exact find?_request qs ih

/-- A signature that is faulty is found just if it was there from the start. -/
theorem Grows.find?_fault (h : c.Grows d) {cause : Cause} (hf : ps.fault = some cause)
    (hr : c.find? ps = none) : d.find? ps = none := by
  induction h with
  | refl => exact hr
  | @request d qs _ ih =>
    rcases d.request_outcomes qs with ⟨r', -, h'⟩ | ⟨cause', -, -, h'⟩ | ⟨-, hq, h'⟩ <;> rw [h']
    · exact ih
    · exact ih
    · have hne : ¬ ps.same qs = true := by
        intro hs
        rw [Properties.fault_of_same hs, hq] at hf
        cases hf
      rw [find?_cons_of_not_same hne]
      exact ih

/-- **A request comes to the same whenever it is made again**, and then leaves
the cache as it is. -/
theorem Grows.request_again (h : (c.request ps).2.Grows d) :
    d.request ps = ((c.request ps).1, d) := by
  rcases c.request_outcomes ps with ⟨r, -, h'⟩ | ⟨cause, hn, hf, h'⟩ | ⟨-, -, h'⟩
  · rw [h'] at h ⊢
    exact request_hit (h.find? (find?_of_request h'))
  · rw [h'] at h ⊢
    exact request_invalid (h.find?_fault hf hn) hf
  · rw [h'] at h ⊢
    exact request_hit (h.find? (find?_of_request h'))

/-! ### Numbers -/

/-- A record type that is new has a new number. -/
theorem Grows.fresh (h : c.Grows d) :
    c.synthesized ≤ d.synthesized ∧ ∀ r ∈ d.entries,
      r ∈ c.entries ∨ c.synthesized < r.id ∧ r.id ≤ d.synthesized := by
  induction h with
  | refl => exact ⟨Nat.le_refl _, fun r hr => .inl hr⟩
  | @request d ps _ ih =>
    rcases d.request_cases ps with h' | h' <;> rw [h']
    · exact ih
    · obtain ⟨hle, ih⟩ := ih
      refine ⟨Nat.le_succ_of_le hle, fun r hr => ?_⟩
      rcases List.mem_cons.mp hr with rfl | hr
      · exact .inr ⟨Nat.lt_succ_of_le hle, Nat.le_refl _⟩
      · rcases ih r hr with hr | ⟨h1, h2⟩
        · exact .inl hr
        · exact .inr ⟨h1, Nat.le_succ_of_le h2⟩

/-- Record types of one number are one, if they were so at first. -/
theorem Grows.one (h : c.Grows d) (hc : ∀ r ∈ c.entries, r.id ≤ c.synthesized)
    (h1 : ∀ r ∈ c.entries, ∀ r' ∈ c.entries, r.id = r'.id → r = r') :
    ∀ r ∈ d.entries, ∀ r' ∈ d.entries, r.id = r'.id → r = r' := by
  induction h with
  | refl => exact h1
  | @request d ps hd ih =>
    rcases d.request_cases ps with h' | h' <;> rw [h']
    · exact ih
    · have hlt : ∀ r ∈ d.entries, r.id < d.synthesized + 1 := by
        intro r hr
        obtain ⟨hle, hfresh⟩ := hd.fresh
        rcases hfresh r hr with hr | ⟨-, hr⟩
        · have := hc r hr
          omega
        · omega
      intro r hr r' hr' hid
      rcases List.mem_cons.mp hr with rfl | hr <;> rcases List.mem_cons.mp hr' with rfl | hr'
      · rfl
      · have := hlt r' hr'
        simp only at hid
        omega
      · have := hlt r hr
        simp only at hid
        omega
      · exact ih r hr r' hr' hid

end RecordCache
end QueryExpr
