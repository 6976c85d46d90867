/-
# Numbers brought to one type

Several numbers are brought to one type two at a time. What comes of that is a type
that all of them widen to, but not always the narrowest: two different types among
`Byte`, `UInt16` and `Char` are brought to the signed `Int32`, which no unsigned type
holds, and a signed type and `UInt64` are brought to `Decimal`, where a `Single` or
`Double` would have held both. Types for which neither matters are brought to the same
type in every order, and all others are not.

Key definitions: `Prim.promoted`, `Prim.promotedAll`, `Prim.Mixed`.
Key theorems: `Prim.promotedAll_perm`, `Prim.exists_perm_of_mixed`.
-/
import QueryExpr.Proofs.RankedConversions

namespace QueryExpr

/-! ### Lists in another order -/

section

variable {α β : Type} {a b : α} {l : List α}

/-- What is in a list comes first in another order. -/
theorem exists_perm_cons (h : a ∈ l) : ∃ m, (a :: m).Perm l := by
  obtain ⟨s, t, rfl⟩ := List.append_of_mem h
  exact ⟨s ++ t, List.perm_middle.symm⟩

theorem exists_perm_cons_cons (ha : a ∈ l) (hb : b ∈ l) (hne : a ≠ b) :
    ∃ m, (a :: b :: m).Perm l := by
  obtain ⟨k, hk⟩ := exists_perm_cons ha
  have hmem : b ∈ k := (List.mem_cons.mp (hk.mem_iff.mpr hb)).resolve_left (Ne.symm hne)
  obtain ⟨m, hm⟩ := exists_perm_cons hmem
  exact ⟨m, (hm.cons a).trans hk⟩

/-- Another order of what is taken from a list is taken from the list in another order. -/
theorem exists_perm_filterMap {f : α → Option β} {m : List β} (h : m.Perm (l.filterMap f)) :
    ∃ k : List α, k.Perm l ∧ k.filterMap f = m := by
  induction m generalizing l with
  | nil => exact ⟨l, .refl l, List.nil_perm.mp h⟩
  | cons b m ih =>
    obtain ⟨a, ha, hb⟩ := List.mem_filterMap.mp (h.mem_iff.mp List.mem_cons_self)
    obtain ⟨k, hk⟩ := exists_perm_cons ha
    have htail : m.Perm (k.filterMap f) := by
      have hfilter := h.trans (hk.filterMap f).symm
      rw [List.filterMap_cons_some hb] at hfilter
      exact hfilter.cons_inv
    obtain ⟨k', hk', hm⟩ := ih htail
    exact ⟨a :: k', (hk'.cons a).trans hk, by rw [List.filterMap_cons_some hb, hm]⟩

end

namespace Prim

/-- The type that two numbers are brought to. -/
def promoted (p q : Prim) : Prim :=
  if p == q then p
  else
    let integers := p.isIntegerLike && q.isIntegerLike
    ((Ty.promotions.filter fun c => !(integers && (c == .single || c == .double))).find?
      fun c => p.widens c && q.widens c).getD .decimal

/-- The type that several numbers are brought to, from the first one on. -/
def promotedAll (p : Prim) (ps : List Prim) : Prim := ps.foldl promoted p

/-- The unsigned types that `Int32` holds. -/
def isSmall : Prim → Bool
  | .char | .int .byte | .int .uint16 => true
  | _ => false

/-- The integers that are never negative. -/
def isUnsigned : Prim → Bool
  | .char | .int .byte | .int .uint16 | .int .uint32 | .int .uint64 => true
  | _ => false

/-- The integers that may be negative. -/
def isSigned : Prim → Bool
  | .int .sbyte | .int .int16 | .int .int32 | .int .int64 => true
  | _ => false

/-- Two different ones are among the unsigned types that `Int32` holds. -/
def TwoSmall (ps : List Prim) : Prop :=
  ∃ p ∈ ps, ∃ q ∈ ps, p ≠ q ∧ p.isSmall = true ∧ q.isSmall = true

/-- Numbers that are brought to one type or another, as they are ordered. -/
def Mixed (ps : List Prim) : Prop :=
  (TwoSmall ps ∧ (.int .uint32 ∈ ps ∨ .int .uint64 ∈ ps) ∧ ∀ p ∈ ps, p.isUnsigned = true) ∨
    .int .uint64 ∈ ps ∧ ((∃ p ∈ ps, p.isSigned = true) ∨ TwoSmall ps) ∧
      (.single ∈ ps ∨ .double ∈ ps) ∧ .decimal ∉ ps

variable {p q r c : Prim} {ps qs : List Prim}

/-! ### Two numbers -/

theorem isUnsigned_of_isSmall (h : p.isSmall = true) : p.isUnsigned = true := by
  revert p
  decide

theorem promoted_comm (p q : Prim) : promoted p q = promoted q p := by
  revert p q
  decide +kernel

theorem promoted_self (p : Prim) : promoted p p = p := by simp [promoted]

/-- Both numbers widen to the type that they are brought to. -/
theorem widens_promoted (hp : p.isNumberLike = true) (hq : q.isNumberLike = true) :
    p.widens (promoted p q) = true ∧ q.widens (promoted p q) = true ∧
      (promoted p q).isNumberLike = true := by
  revert p q
  decide +kernel

/-- What numbers are brought to is one of their types, or a signed one, or `Decimal`. -/
theorem promoted_cases (p q : Prim) :
    promoted p q = p ∨ promoted p q = q ∨ promoted p q = .int .int32 ∨
      promoted p q = .int .int64 ∨ promoted p q = .decimal := by
  revert p q
  decide +kernel

/-- Only signed types, and different small ones, are brought to a signed type. -/
theorem promoted_signed (h : (promoted p q).isSigned = true) :
    p.isSigned = true ∨ q.isSigned = true ∨ p ≠ q ∧ p.isSmall = true ∧ q.isSmall = true := by
  revert p q
  decide +kernel

/-- Two different types are brought to one for operands. -/
theorem promoted_mem (h : p ≠ q) : promoted p q ∈ Ty.promotions := by
  revert p q
  decide +kernel

/-- **What two numbers are brought to widens to whatever both widen to**, but for two
cases: small unsigned types leave the unsigned ones, and `UInt64` with a signed type
leaves the binary floating-point types. -/
theorem promoted_widens (hc : c ∈ Ty.promotions) (hp : p.widens c = true)
    (hq : q.widens c = true) :
    (promoted p q).widens c = true ∨
      (p ≠ q ∧ p.isSmall = true ∧ q.isSmall = true ∧ (c = .int .uint32 ∨ c = .int .uint64)) ∨
      ((p = .int .uint64 ∧ q.isSigned = true ∨ p.isSigned = true ∧ q = .int .uint64) ∧
        (c = .single ∨ c = .double)) := by
  revert p q c
  decide +kernel

/-- Types that widen to each other are one. -/
theorem widens_antisymm (h : p.widens q = true) (h' : q.widens p = true) : p = q := by
  by_contra hne
  exact Nat.lt_asymm (rank_lt_of_widens h hne) (rank_lt_of_widens h' (Ne.symm hne))

/-- What widens to an unsigned type is unsigned. -/
theorem isUnsigned_of_widens (h : p.widens c = true) (hc : c.isUnsigned = true) :
    p.isUnsigned = true := by
  revert p c
  decide +kernel

/-! ### Several numbers -/

/-- Types that some of the given ones may be brought to. -/
structure Reached (ps : List Prim) (c : Prim) : Prop where
  origin : c ∈ ps ∨ c = .int .int32 ∨ c = .int .int64 ∨ c = .decimal
  signed : c.isSigned = true → (∃ p ∈ ps, p.isSigned = true) ∨ TwoSmall ps

namespace Reached

theorem of_mem (h : p ∈ ps) : Reached ps p := ⟨.inl h, fun hs => .inl ⟨p, h, hs⟩⟩

theorem mem_of_isUnsigned (h : Reached ps c) (hc : c.isUnsigned = true) : c ∈ ps := by
  rcases h.origin with hmem | rfl | rfl | rfl
  · exact hmem
  all_goals cases hc

theorem promoted (h : Reached ps c) (hq : q ∈ ps) : Reached ps (c.promoted q) where
  origin := by
    rcases promoted_cases c q with hc | hc | hc
    · rw [hc]; exact h.origin
    · rw [hc]; exact .inl hq
    · exact .inr hc
  signed hs := by
    rcases promoted_signed hs with hc | hq' | ⟨hne, hc, hq'⟩
    · exact h.signed hc
    · exact .inl ⟨q, hq, hq'⟩
    · have hmem : c ∈ ps := h.mem_of_isUnsigned (isUnsigned_of_isSmall hc)
      exact .inr ⟨c, hmem, q, hq, hne, hc, hq'⟩

theorem promotedAll (h : Reached ps c) (hqs : ∀ q ∈ qs, q ∈ ps) :
    Reached ps (c.promotedAll qs) := by
  induction qs generalizing c with
  | nil => exact h
  | cons q qs ih =>
    obtain ⟨hq, hqs⟩ := List.forall_mem_cons.mp hqs
    exact ih (h.promoted hq) hqs

end Reached

/-- All numbers widen to what they are brought to, which is a number. -/
theorem widens_promotedAll (hp : p.isNumberLike = true) (hps : ∀ q ∈ ps, q.isNumberLike = true) :
    (promotedAll p ps).isNumberLike = true ∧ ∀ q ∈ p :: ps, q.widens (promotedAll p ps) = true := by
  induction ps generalizing p with
  | nil => exact ⟨hp, List.forall_mem_singleton.mpr p.widens_refl⟩
  | cons q ps ih =>
    obtain ⟨hq, hps⟩ := List.forall_mem_cons.mp hps
    obtain ⟨hpc, hqc, hc⟩ := widens_promoted hp hq
    obtain ⟨hn, hall⟩ := ih hc hps
    obtain ⟨hfirst, hrest⟩ := List.forall_mem_cons.mp hall
    exact ⟨hn, List.forall_mem_cons.mpr ⟨widens_trans hpc hfirst,
      List.forall_mem_cons.mpr ⟨widens_trans hqc hfirst, hrest⟩⟩⟩

theorem promotedAll_same (h : ∀ q ∈ ps, q = p) : promotedAll p ps = p := by
  induction ps with
  | nil => rfl
  | cons q ps ih =>
    obtain ⟨rfl, hps⟩ := List.forall_mem_cons.mp h
    show promotedAll (promoted q q) ps = q
    rw [promoted_self, ih hps]

/-- Numbers of different types are brought to one for operands. -/
theorem promotedAll_mem (h : p ∈ Ty.promotions ∨ ∃ q ∈ ps, q ≠ p) :
    promotedAll p ps ∈ Ty.promotions := by
  induction ps generalizing p with
  | nil => exact h.resolve_right fun ⟨q, hq, _⟩ => by cases hq
  | cons q ps ih =>
    refine ih ?_
    by_cases hpq : p = q
    · subst hpq
      rw [promoted_self]
      refine h.imp_right fun ⟨r, hr, hne⟩ => ⟨r, ?_, hne⟩
      exact (List.mem_cons.mp hr).resolve_left hne
    · exact .inl (promoted_mem hpq)

/-- What is reached widens to every type that is reached from all numbers, if no order
matters. -/
theorem promotedAll_widens (hmixed : ¬ Mixed ps) (hc : Reached ps c) (hmem : c ∈ Ty.promotions)
    (hwidens : ∀ p ∈ ps, p.widens c = true) (hp : Reached ps p) (hpc : p.widens c = true)
    (hqs : ∀ q ∈ qs, q ∈ ps) : (promotedAll p qs).widens c = true := by
  induction qs generalizing p with
  | nil => exact hpc
  | cons q qs ih =>
    obtain ⟨hq, hqs⟩ := List.forall_mem_cons.mp hqs
    refine ih (hp.promoted hq) ?_ hqs
    rcases promoted_widens hmem hpc (hwidens q hq) with h | ⟨hne, hps, hqs, h⟩ | ⟨h, hf⟩
    · exact h
    · have hcu : c.isUnsigned = true := by rcases h with rfl | rfl <;> rfl
      have hpu : p.isUnsigned = true := isUnsigned_of_widens hpc hcu
      refine absurd (.inl ⟨⟨p, hp.mem_of_isUnsigned hpu, q, hq, hne, hps, hqs⟩, ?_,
        fun r hr => isUnsigned_of_widens (hwidens r hr) hcu⟩) hmixed
      have hcm := hc.mem_of_isUnsigned hcu
      rcases h with rfl | rfl
      · exact .inl hcm
      · exact .inr hcm
    · refine absurd (.inr ?_) hmixed
      have hcm : c ∈ ps := by
        rcases hc.origin with hcm | rfl | rfl | rfl
        · exact hcm
        all_goals rcases hf with hf | hf <;> cases hf
      refine ⟨?_, ?_, ?_, fun hd => ?_⟩
      · rcases h with ⟨rfl, -⟩ | ⟨-, rfl⟩
        · exact hp.mem_of_isUnsigned rfl
        · exact hq
      · rcases h with ⟨-, hs⟩ | ⟨hs, -⟩
        · exact .inl ⟨q, hq, hs⟩
        · exact hp.signed hs
      · rcases hf with rfl | rfl
        · exact .inl hcm
        · exact .inr hcm
      · have := hwidens _ hd
        rcases hf with rfl | rfl <;> cases this

/-- **Numbers that do not mix are brought to one type in every order.** -/
theorem promotedAll_perm (h : (p :: ps).Perm (q :: qs))
    (hn : ∀ r ∈ p :: ps, r.isNumberLike = true) (hmixed : ¬ Mixed (p :: ps)) :
    promotedAll p ps = promotedAll q qs := by
  have hsub {r : Prim} (hr : r ∈ q :: qs) : r ∈ p :: ps := h.mem_iff.mpr hr
  by_cases hsame : ∀ r ∈ ps, r = p
  · have hall : ∀ r ∈ q :: qs, r = p := fun r hr => by
      rcases List.mem_cons.mp (hsub hr) with rfl | hr
      · rfl
      · exact hsame r hr
    obtain ⟨rfl, hqs⟩ := List.forall_mem_cons.mp hall
    rw [promotedAll_same hsame, promotedAll_same hqs]
  · have hdiffer : ∃ r ∈ ps, r ≠ p := by simpa using hsame
    have hdiffer' : ∃ r ∈ qs, r ≠ q := by
      by_contra hnone
      have hqs : ∀ r ∈ q :: qs, r = q := fun r hr => by
        rcases List.mem_cons.mp hr with rfl | hr
        · rfl
        · by_contra hne
          exact hnone ⟨r, hr, hne⟩
      obtain ⟨r, hr, hne⟩ := hdiffer
      have hp := hqs p (h.mem_iff.mp List.mem_cons_self)
      have hr := hqs r (h.mem_iff.mp (List.mem_cons_of_mem _ hr))
      exact hne (hr.trans hp.symm)
    have hfirst : ∀ r ∈ p :: ps, r.widens (promotedAll p ps) = true :=
      (widens_promotedAll (hn p List.mem_cons_self)
        fun r hr => hn r (List.mem_cons_of_mem _ hr)).2
    have hsecond : ∀ r ∈ p :: ps, r.widens (promotedAll q qs) = true := fun r hr =>
      (widens_promotedAll (hn q (hsub List.mem_cons_self))
        fun r hr => hn r (hsub (List.mem_cons_of_mem _ hr))).2 r (h.mem_iff.mp hr)
    have hp : Reached (p :: ps) p := .of_mem List.mem_cons_self
    have hq : Reached (p :: ps) q := .of_mem (hsub List.mem_cons_self)
    have hps : ∀ r ∈ ps, r ∈ p :: ps := fun r hr => List.mem_cons_of_mem _ hr
    have hqs : ∀ r ∈ qs, r ∈ p :: ps := fun r hr => hsub (List.mem_cons_of_mem _ hr)
    exact widens_antisymm
      (promotedAll_widens hmixed (hq.promotedAll hqs) (promotedAll_mem (.inr hdiffer')) hsecond hp
        (hsecond p List.mem_cons_self) hps)
      (promotedAll_widens hmixed (hp.promotedAll hps) (promotedAll_mem (.inr hdiffer)) hfirst hq
        (hfirst q (hsub List.mem_cons_self)) hqs)

/-! ### Numbers that mix -/

/-- What numbers are brought to stays among types that none of them leads out of. -/
theorem promotedAll_stays {P : Prim → Prop} (hp : P p)
    (hps : ∀ q ∈ ps, ∀ c, P c → P (promoted c q)) :
    P (promotedAll p ps) := by
  induction ps generalizing p with
  | nil => exact hp
  | cons q ps ih =>
    obtain ⟨hq, hps⟩ := List.forall_mem_cons.mp hps
    exact ih (hq p hp) hps

/-- Signed types and `Decimal` are not left for unsigned numbers. -/
theorem promoted_stays_signed (hc : c.isSigned = true ∨ c = .decimal)
    (hq : q.isUnsigned = true) :
    (promoted c q).isSigned = true ∨ promoted c q = .decimal := by
  revert c q
  decide +kernel

theorem promoted_small (hne : p ≠ q) (hp : p.isSmall = true) (hq : q.isSmall = true) :
    promoted p q = .int .int32 := by
  revert p q
  decide +kernel

/-- `UInt32` and `UInt64` are not left for what widens to them. -/
theorem promoted_large (hc : c = .int .uint32 ∨ c = .int .uint64) (hq : q.widens c = true) :
    promoted c q = c := by
  revert c q
  decide +kernel

theorem promoted_signed_long (h : p.isSigned = true) :
    promoted (.int .uint64) p = .decimal := by
  revert p
  decide

/-- Unsigned numbers widen to the largest type among them. -/
theorem exists_largest (hlarge : .int .uint32 ∈ ps ∨ .int .uint64 ∈ ps)
    (hps : ∀ p ∈ ps, p.isUnsigned = true) :
    ∃ c ∈ ps, (c = .int .uint32 ∨ c = .int .uint64) ∧ ∀ p ∈ ps, p.widens c = true := by
  have hall : ∀ p : Prim, p.isUnsigned = true → p.widens (.int .uint64) = true ∧
      (p = .int .uint64 ∨ p.widens (.int .uint32) = true) := by decide
  by_cases hlong : .int .uint64 ∈ ps
  · exact ⟨_, hlong, .inr rfl, fun p hp => (hall p (hps p hp)).1⟩
  · refine ⟨_, hlarge.resolve_right hlong, .inl rfl, fun p hp => ?_⟩
    exact (hall p (hps p hp)).2.resolve_left fun h => hlong (h ▸ hp)

theorem promoted_decimal (hq : q.isNumberLike = true) : promoted .decimal q = .decimal := by
  revert q
  decide

theorem promotedAll_decimal (hps : ∀ q ∈ ps, q.isNumberLike = true) :
    promotedAll .decimal ps = .decimal :=
  promotedAll_stays (P := (· = .decimal)) rfl fun q hq _ hc => hc ▸ promoted_decimal (hps q hq)

/-- Binary floating-point types are left for `Decimal` alone. -/
theorem promoted_floating (hc : c = .single ∨ c = .double) (hq : q.isNumberLike = true)
    (hd : q ≠ .decimal) : promoted c q = .single ∨ promoted c q = .double := by
  revert c q
  decide +kernel

/-- **Numbers that mix are brought to different types in different orders.** -/
theorem exists_perm_of_mixed (hn : ∀ r ∈ ps, r.isNumberLike = true) (h : Mixed ps) :
    ∃ p qs p' qs', (p :: qs).Perm ps ∧ (p' :: qs').Perm ps ∧
      promotedAll p qs ≠ promotedAll p' qs' := by
  rcases h with ⟨⟨p, hp, q, hq, hne, hps, hqs⟩, hlarge, hunsigned⟩ | ⟨hlong, hsigned, hfloat, hd⟩
  · -- the two small types first, or else the largest type first
    obtain ⟨rs, hrs⟩ := exists_perm_cons_cons hp hq hne
    obtain ⟨c, hc, hlarge, hwidens⟩ := exists_largest hlarge hunsigned
    obtain ⟨rs', hrs'⟩ := exists_perm_cons hc
    refine ⟨p, q :: rs, c, rs', hrs, hrs', ?_⟩
    have hstart : promotedAll p (q :: rs) = promotedAll (.int .int32) rs :=
      congrArg (promotedAll · rs) (promoted_small hne hps hqs)
    have hfirst : (promotedAll (.int .int32) rs).isSigned = true ∨
        promotedAll (.int .int32) rs = .decimal :=
      promotedAll_stays (P := fun c => c.isSigned = true ∨ c = .decimal) (.inl rfl)
        fun r hr c hc => promoted_stays_signed hc <| hunsigned r <|
          hrs.mem_iff.mp (List.mem_cons_of_mem _ (List.mem_cons_of_mem _ hr))
    have hsecond : promotedAll c rs' = c :=
      promotedAll_stays (P := (· = c)) rfl fun r hr d hd => by
        rw [hd]
        exact promoted_large hlarge (hwidens r (hrs'.mem_iff.mp (List.mem_cons_of_mem _ hr)))
    rw [hsecond, hstart]
    rintro heq
    rw [heq] at hfirst
    rcases hlarge with rfl | rfl <;> rcases hfirst with h | h <;> cases h
  · -- `UInt64` with what is signed first, or else a floating-point type first
    have hfirst : ∃ p qs, (p :: qs).Perm ps ∧ promotedAll p qs = .decimal := by
      rcases hsigned with ⟨r, hr, hs⟩ | ⟨p, hp, q, hq, hne, hps, hqs⟩
      · have hne : Prim.int .uint64 ≠ r := by
          rintro rfl
          cases hs
        obtain ⟨rs, hrs⟩ := exists_perm_cons_cons hlong hr hne
        refine ⟨_, _, hrs, ?_⟩
        show promotedAll (promoted (.int .uint64) r) rs = .decimal
        rw [promoted_signed_long hs]
        exact promotedAll_decimal fun t ht =>
          hn t (hrs.mem_iff.mp (List.mem_cons_of_mem _ (List.mem_cons_of_mem _ ht)))
      · obtain ⟨rs, hrs⟩ := exists_perm_cons_cons hp hq hne
        have hmem : Prim.int .uint64 ∈ rs := by
          rcases List.mem_cons.mp (hrs.mem_iff.mpr hlong) with rfl | h
          · cases hps
          rcases List.mem_cons.mp h with rfl | h
          · cases hqs
          · exact h
        obtain ⟨ts, hts⟩ := exists_perm_cons hmem
        have hall : (p :: q :: .int .uint64 :: ts).Perm ps := ((hts.cons q).cons p).trans hrs
        refine ⟨_, _, hall, ?_⟩
        show promotedAll (promoted (promoted p q) (.int .uint64)) ts = .decimal
        rw [promoted_small hne hps hqs]
        exact promotedAll_decimal fun t ht => hn t (hrs.mem_iff.mp
          (List.mem_cons_of_mem _ (List.mem_cons_of_mem _ (hts.mem_iff.mp
            (List.mem_cons_of_mem _ ht)))))
    obtain ⟨f, hf, hfloat⟩ : ∃ f ∈ ps, f = .single ∨ f = .double :=
      hfloat.elim (fun h => ⟨_, h, .inl rfl⟩) fun h => ⟨_, h, .inr rfl⟩
    obtain ⟨p, qs, hperm, hdecimal⟩ := hfirst
    obtain ⟨rs, hrs⟩ := exists_perm_cons hf
    refine ⟨p, qs, f, rs, hperm, hrs, ?_⟩
    have hsecond : promotedAll f rs = .single ∨ promotedAll f rs = .double :=
      promotedAll_stays (P := fun c => c = .single ∨ c = .double) hfloat fun r hr c hc => by
        have hmem : r ∈ ps := hrs.mem_iff.mp (List.mem_cons_of_mem _ hr)
        exact promoted_floating hc (hn r hmem) fun h => hd (h ▸ hmem)
    rw [hdecimal]
    rintro heq
    rw [← heq] at hsecond
    rcases hsecond with h | h <;> cases h

end Prim
end QueryExpr
