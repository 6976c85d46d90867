/-
# Singles survive as doubles

Each finite number of a format has one pattern: with as many significant bits as
there are, or with the least exponent. A fraction that is such a number rounds
to its pattern. So the parts of a pattern give the pattern back, and a number
that both formats have may go from one to the other and back. In this way a
single becomes a double and the same single again.

Key definitions: `Binary.Format.Holds`, `Binary.Format.signed`.
Key theorems: `Binary.Format.nearestMagnitude_eq`, `Binary.Format.pack_eq`,
`Binary.narrow_widen`.
-/
import Mathlib
import QueryExpr.Number.Binary

namespace QueryExpr.Binary

namespace Format

variable {f : Format} {m num den : Nat} {e : Int} {negative : Bool} {bits : Nat}

/-- The number `m` times two to the power `e` is one of the format, written as in
its pattern. -/
structure Holds (f : Format) (m : Nat) (e : Int) : Prop where
  lt : m < 2 * f.fractions
  least : f.leastExponent ≤ e
  normal : f.fractions ≤ m ∨ e = f.leastExponent
  finite : (e - f.leastExponent).toNat + 1 < f.infiniteField

/-- The pattern of a number without its sign. -/
def magnitude (f : Format) (m : Nat) (e : Int) : Nat :=
  (e - f.leastExponent).toNat * f.fractions + m

/-- A pattern with a sign. -/
def signed (f : Format) (negative : Bool) (n : Nat) : Nat :=
  (if negative then f.signBit else 0) + n

theorem fractions_pos (f : Format) : 0 < f.fractions := Nat.pow_pos (by decide)

/-! ### Patterns -/

/-- A pattern is taken apart into its sign and its two fields. -/
theorem parts_fields {field fraction : Nat} (hfield : field < Nat.pow 2 f.exponentBits)
    (hfraction : fraction < f.fractions) :
    f.parts (f.signed negative (field * f.fractions + fraction)) =
      if field == f.infiniteField then if fraction == 0 then .infinite negative else .nan
      else if field == 0 then .finite negative fraction f.leastExponent
      else .finite negative (f.fractions + fraction) (f.leastExponent + field - 1) := by
  have hpos := f.fractions_pos
  have hlt : field * f.fractions + fraction < f.signBit := by
    calc field * f.fractions + fraction < (field + 1) * f.fractions := by
          rw [Nat.add_mul]
          omega
      _ ≤ Nat.pow 2 f.exponentBits * f.fractions := Nat.mul_le_mul_right _ hfield
      _ = f.signBit := Nat.mul_comm _ _
  have hneg : (decide (f.signBit ≤ f.signed negative (field * f.fractions + fraction))) =
      negative := by
    cases negative <;> simp [signed, hlt]
  have hmod : f.signed negative (field * f.fractions + fraction) % f.signBit =
      field * f.fractions + fraction := by
    cases negative <;> simp [signed, Nat.mod_eq_of_lt hlt]
  have hdiv : (field * f.fractions + fraction) / f.fractions = field := by
    rw [Nat.mul_comm, Nat.mul_add_div hpos, Nat.div_eq_of_lt hfraction, Nat.add_zero]
  have hrem : (field * f.fractions + fraction) % f.fractions = fraction := by
    rw [Nat.mul_comm, Nat.mul_add_mod, Nat.mod_eq_of_lt hfraction]
  simp only [parts, hneg, hmod, hdiv, hrem]

/-- Every pattern has a sign and two fields. -/
theorem fields_exist (h : bits < 2 * f.signBit) :
    ∃ negative field fraction, field < Nat.pow 2 f.exponentBits ∧ fraction < f.fractions ∧
      bits = f.signed negative (field * f.fractions + fraction) := by
  have hpos := f.fractions_pos
  have hsign : f.signBit = f.fractions * Nat.pow 2 f.exponentBits := rfl
  have fields {n : Nat} (hn : n < f.signBit) : n / f.fractions < Nat.pow 2 f.exponentBits ∧
      n % f.fractions < f.fractions ∧ n = n / f.fractions * f.fractions + n % f.fractions :=
    ⟨Nat.div_lt_of_lt_mul (hsign ▸ hn), Nat.mod_lt _ hpos, (Nat.div_add_mod' _ _).symm⟩
  by_cases hneg : f.signBit ≤ bits
  · obtain ⟨h1, h2, h3⟩ := fields (n := bits - f.signBit) (by omega)
    refine ⟨true, _, _, h1, h2, ?_⟩
    rw [← h3]
    simp only [signed, if_true]
    omega
  · obtain ⟨h1, h2, h3⟩ := fields (n := bits) (by omega)
    refine ⟨false, _, _, h1, h2, ?_⟩
    rw [← h3]
    simp [signed]

theorem parts_magnitude (h : f.Holds m e) :
    f.parts (f.signed negative (f.magnitude m e)) = .finite negative m e := by
  have hinfinite : f.infiniteField = Nat.pow 2 f.exponentBits - 1 := rfl
  have hlt := h.lt
  have hleast := h.least
  have hfinite := h.finite
  by_cases hm : f.fractions ≤ m
  · -- the field of the exponent counts one more
    have hn : f.magnitude m e =
        ((e - f.leastExponent).toNat + 1) * f.fractions + (m - f.fractions) := by
      simp only [magnitude, Nat.add_mul, Nat.one_mul]
      omega
    rw [hn, parts_fields (by omega) (by omega)]
    have h1 : ((e - f.leastExponent).toNat + 1 == f.infiniteField) = false := by
      simpa using (Nat.ne_of_lt hfinite)
    rw [h1]
    simp only [Bool.false_eq_true, if_false, Nat.add_one_ne_zero, beq_iff_eq]
    congr 1 <;> omega
  · have he : e = f.leastExponent := h.normal.resolve_left hm
    have hn : f.magnitude m e = 0 * f.fractions + m := by simp [magnitude, he]
    rw [hn, parts_fields (by omega) (by omega)]
    have h1 : ((0 : Nat) == f.infiniteField) = false := by
      have : 0 ≠ f.infiniteField := by omega
      simpa using this
    simp [h1, he]

/-- The number of a finite pattern is one of the format, and the pattern is its. -/
theorem holds_of_parts (hf : 1 < f.infiniteField) (hb : bits < 2 * f.signBit)
    (h : f.parts bits = .finite negative m e) :
    f.Holds m e ∧ bits = f.signed negative (f.magnitude m e) := by
  obtain ⟨s, field, fraction, hfield, hfraction, rfl⟩ := fields_exist hb
  have hinfinite : f.infiniteField = Nat.pow 2 f.exponentBits - 1 := rfl
  rw [parts_fields hfield hfraction] at h
  split at h
  · split at h <;> cases h
  · rename_i hne
    have hne : field ≠ f.infiniteField := by simpa using hne
    split at h
    · rename_i h0
      have h0 : field = 0 := by simpa using h0
      cases h
      refine ⟨⟨by omega, le_refl _, .inr rfl, by simpa using hf⟩, ?_⟩
      simp [magnitude, h0]
    · rename_i h0
      have h0 : field ≠ 0 := by simpa using h0
      cases h
      have hsub : (f.leastExponent + field - 1 - f.leastExponent).toNat + 1 = field := by omega
      refine ⟨⟨by omega, by omega, .inl (by omega), by omega⟩, ?_⟩
      simp only [magnitude]
      generalize (f.leastExponent + field - 1 - f.leastExponent).toNat = j at hsub
      subst hsub
      rw [Nat.add_mul]
      congr 1
      omega

theorem infinite_of_parts (hb : bits < 2 * f.signBit) (h : f.parts bits = .infinite negative) :
    bits = f.pack (.infinite negative) := by
  obtain ⟨s, field, fraction, hfield, hfraction, rfl⟩ := fields_exist hb
  rw [parts_fields hfield hfraction] at h
  split at h
  · rename_i hinfinite
    split at h
    · rename_i hzero
      cases h
      have hinfinite : field = f.infiniteField := by simpa using hinfinite
      have hzero : fraction = 0 := by simpa using hzero
      rw [hinfinite, hzero]
      rfl
    · cases h
  · split at h <;> cases h

/-! ### Rounding -/

theorem scaled_pos (num : Nat) (hden : 0 < den) (e : Int) : 0 < (scaled num den e).2 :=
  Nat.mul_pos hden (Nat.pow_pos (by decide))

theorem scaled_eq (num den : Nat) (e : Int) :
    ((scaled num den e).1 : ℚ) / (scaled num den e).2 = num / den * 2 ^ (-e) := by
  obtain ⟨n, rfl | rfl⟩ := e.eq_nat_or_neg
  · have h : (-(n : Int)).toNat = 0 := by omega
    simp [scaled, h, div_eq_mul_inv, mul_assoc, mul_comm]
  · have h : (-(n : Int)).toNat = 0 := by omega
    simp [scaled, h, div_eq_mul_inv, mul_right_comm]

theorem roundDiv_mul (hden : 0 < den) (n : Nat) : roundDiv (n * den) den = n := by
  simp [roundDiv, Nat.mul_div_cancel _ hden, hden]

/-- Between which powers of two a fraction lies, by the lengths of its sides. -/
theorem log2_bounds (hnum : 0 < num) (hden : 0 < den) :
    (2 : ℚ) ^ ((num.log2 : Int) - den.log2 - 1) < num / den ∧
      (num : ℚ) / den < 2 ^ ((num.log2 : Int) - den.log2 + 1) := by
  have hd : (0 : ℚ) < den := by exact_mod_cast hden
  have h1 : (2 : ℚ) ^ (num.log2 : Int) ≤ num := by
    rw [zpow_natCast]
    exact_mod_cast Nat.log2_self_le hnum.ne'
  have h2 : (num : ℚ) < 2 ^ ((num.log2 : Int) + 1) := by
    rw [← Nat.cast_succ, zpow_natCast]
    exact_mod_cast Nat.lt_log2_self
  have h3 : (2 : ℚ) ^ (den.log2 : Int) ≤ den := by
    rw [zpow_natCast]
    exact_mod_cast Nat.log2_self_le hden.ne'
  have h4 : (den : ℚ) < 2 ^ ((den.log2 : Int) + 1) := by
    rw [← Nat.cast_succ, zpow_natCast]
    exact_mod_cast Nat.lt_log2_self
  constructor
  · rw [lt_div_iff₀ hd]
    calc (2 : ℚ) ^ ((num.log2 : Int) - den.log2 - 1) * den
        < 2 ^ ((num.log2 : Int) - den.log2 - 1) * 2 ^ ((den.log2 : Int) + 1) := by gcongr
      _ = 2 ^ (num.log2 : Int) := by
        rw [← zpow_add₀ (by norm_num)]
        congr 1
        ring
      _ ≤ num := h1
  · rw [div_lt_iff₀ hd]
    calc (num : ℚ) < 2 ^ ((num.log2 : Int) + 1) := h2
      _ = 2 ^ ((num.log2 : Int) - den.log2 + 1) * 2 ^ (den.log2 : Int) := by
        rw [← zpow_add₀ (by norm_num)]
        congr 1
        ring
      _ ≤ 2 ^ ((num.log2 : Int) - den.log2 + 1) * den := by gcongr

/-- The exponent at which a fraction has as many significant bits as the format:
the one tried first, or the next one. -/
theorem fitted_bounds (f : Format) (hnum : 0 < num) (hden : 0 < den) {low fitted : Int}
    (hlow : low = (num.log2 : Int) - den.log2 - f.precision)
    (hfitted : fitted = if (scaled num den low).1 / (scaled num den low).2 < Nat.pow 2 f.precision
      then low else low + 1) :
    (2 : ℚ) ^ (fitted + f.precision - 1) ≤ num / den ∧
      (num : ℚ) / den < 2 ^ (fitted + f.precision) := by
  obtain ⟨hl, hu⟩ := log2_bounds hnum hden
  have hd := scaled_pos num hden low
  -- the quotient has no more bits than the format just if the fraction is below the power of two
  have hsplit : (scaled num den low).1 / (scaled num den low).2 < Nat.pow 2 f.precision ↔
      (num : ℚ) / den < 2 ^ (low + f.precision) := by
    rw [Nat.div_lt_iff_lt_mul hd]
    have hdq : (0 : ℚ) < (scaled num den low).2 := by exact_mod_cast hd
    have hx : (num : ℚ) / den = (scaled num den low).1 / (scaled num den low).2 * 2 ^ low := by
      rw [scaled_eq, mul_assoc, ← zpow_add₀ (by norm_num), neg_add_cancel, zpow_zero, mul_one]
    have hpow : (2 : ℚ) ^ (low + f.precision) = 2 ^ f.precision * 2 ^ low := by
      rw [add_comm, zpow_add₀ (by norm_num), zpow_natCast]
    rw [hx, hpow, mul_lt_mul_iff_left₀ (by positivity), div_lt_iff₀ hdq]
    exact_mod_cast Iff.rfl
  rw [hfitted]
  split
  · rename_i h
    refine ⟨?_, hsplit.mp h⟩
    have : low + f.precision - 1 = (num.log2 : Int) - den.log2 - 1 := by omega
    rw [this]
    exact hl.le
  · rename_i h
    have hge := not_lt.mp fun hlt => h (hsplit.mpr hlt)
    refine ⟨?_, ?_⟩
    · rwa [show low + 1 + (f.precision : Int) - 1 = low + f.precision by ring]
    · rwa [show low + 1 + (f.precision : Int) = (num.log2 : Int) - den.log2 + 1 by omega]

theorem two_fractions (hp : 0 < f.precision) : 2 * f.fractions = 2 ^ f.precision := by
  have h : f.fractions = 2 ^ (f.precision - 1) := rfl
  rw [h, ← Nat.pow_succ', Nat.succ_eq_add_one, Nat.sub_add_cancel hp]

theorem Holds.magnitude_lt (h : f.Holds m e) : f.magnitude m e < f.infinity := by
  have hlt := h.lt
  have hfinite : (e - f.leastExponent).toNat + 2 ≤ f.infiniteField := h.finite
  calc f.magnitude m e < ((e - f.leastExponent).toNat + 2) * f.fractions := by
        rw [magnitude, Nat.add_mul]
        omega
    _ ≤ f.infinity := Nat.mul_le_mul_right _ hfinite

theorem Holds.signed_lt (h : f.Holds m e) :
    f.signed negative (f.magnitude m e) < 2 * f.signBit := by
  have hlt : f.infinity ≤ f.signBit := by
    rw [infinity, signBit, Nat.mul_comm]
    exact Nat.mul_le_mul_left _ (Nat.sub_le _ _)
  have := h.magnitude_lt
  cases negative <;> simp only [signed, Bool.false_eq_true, if_false, if_true] <;> omega

/-- At its own exponent a number is a quotient without a remainder. -/
theorem roundDiv_scaled (hden : 0 < den) (hx : (num : ℚ) / den = m * 2 ^ e) :
    roundDiv (scaled num den e).1 (scaled num den e).2 = m := by
  have hd := scaled_pos num hden e
  have hdq : (0 : ℚ) < (scaled num den e).2 := by exact_mod_cast hd
  have hq : ((scaled num den e).1 : ℚ) / (scaled num den e).2 = m := by
    rw [scaled_eq, hx, mul_assoc, ← zpow_add₀ (by norm_num), add_neg_cancel, zpow_zero, mul_one]
  have hn : (scaled num den e).1 = m * (scaled num den e).2 := by
    rw [div_eq_iff hdq.ne'] at hq
    exact_mod_cast hq
  rw [hn, roundDiv_mul hd]

/-- The exponent of a number is the one at which it has as many significant bits as
the format, or the least one. -/
theorem Holds.exponent_eq (hp : 0 < f.precision) (h : f.Holds m e) {fitted : Int}
    (hl : (2 : ℚ) ^ (fitted + f.precision - 1) ≤ m * 2 ^ e)
    (hu : (m : ℚ) * 2 ^ e < 2 ^ (fitted + f.precision)) : max fitted f.leastExponent = e := by
  have hpow : (0 : ℚ) < 2 ^ e := by positivity
  have hle : fitted ≤ e := by
    have hm : (m : ℚ) < 2 ^ f.precision := by
      have := h.lt
      rw [two_fractions hp] at this
      exact_mod_cast this
    have hlt : (2 : ℚ) ^ (fitted + f.precision - 1) < 2 ^ (e + f.precision) := by
      calc (2 : ℚ) ^ (fitted + f.precision - 1) ≤ m * 2 ^ e := hl
        _ < 2 ^ f.precision * 2 ^ e := by gcongr
        _ = 2 ^ (e + f.precision) := by
          rw [zpow_add₀ (by norm_num), zpow_natCast, mul_comm]
    have := (zpow_lt_zpow_iff_right₀ (by norm_num : (1 : ℚ) < 2)).mp hlt
    omega
  -- with fewer bits than the format has the least exponent is taken
  rcases h.normal with hm | he
  · have hm : (2 : ℚ) ^ (f.precision - 1) ≤ m := by exact_mod_cast hm
    have hlt : (2 : ℚ) ^ (e + f.precision - 1) < 2 ^ (fitted + f.precision) := by
      calc (2 : ℚ) ^ (e + f.precision - 1) = 2 ^ (f.precision - 1) * 2 ^ e := by
            rw [← zpow_natCast, ← zpow_add₀ (by norm_num)]
            congr 1
            push_cast [Nat.cast_sub (show 1 ≤ f.precision from hp)]
            ring
        _ ≤ m * 2 ^ e := by gcongr
        _ < 2 ^ (fitted + f.precision) := hu
    have := (zpow_lt_zpow_iff_right₀ (by norm_num : (1 : ℚ) < 2)).mp hlt
    have := h.least
    omega
  · omega

/-- **A fraction that is a number of the format rounds to its pattern.** -/
theorem nearestMagnitude_eq (hp : 0 < f.precision) (hden : 0 < den) (h : f.Holds m e)
    (hx : (num : ℚ) / den = m * 2 ^ e) : f.nearestMagnitude num den = f.magnitude m e := by
  rcases Nat.eq_zero_or_pos num with rfl | hnum
  · -- zero has the least exponent
    have hm : m = 0 := by
      have hpow : (2 : ℚ) ^ e ≠ 0 := by positivity
      have : (m : ℚ) * 2 ^ e = 0 := by rw [← hx]; simp
      exact_mod_cast (mul_eq_zero.mp this).resolve_right hpow
    have he : e = f.leastExponent :=
      h.normal.resolve_left (by have := f.fractions_pos; omega)
    simp [nearestMagnitude, magnitude, hm, he]
  generalize hlow : (num.log2 : Int) - den.log2 - f.precision = low
  generalize hfitted : (if (scaled num den low).1 / (scaled num den low).2 <
    Nat.pow 2 f.precision then low else low + 1) = fitted
  obtain ⟨hl, hu⟩ := fitted_bounds f hnum hden hlow.symm hfitted.symm
  have hmax : max fitted f.leastExponent = e := h.exponent_eq hp (hx ▸ hl) (hx ▸ hu)
  have hn0 : (num == 0) = false := by simpa using hnum.ne'
  simp only [nearestMagnitude, hn0, Bool.false_eq_true, if_false, hlow, hfitted, hmax,
    roundDiv_scaled hden hx]
  exact Nat.min_eq_right h.magnitude_lt.le

/-- A number in whatever form is packed into the pattern of the format. -/
theorem pack_eq {M : Nat} {E : Int} (hp : 0 < f.precision) (h : f.Holds M E)
    (hx : (m : ℚ) * 2 ^ e = M * 2 ^ E) :
    f.pack (.finite negative m e) = f.signed negative (f.magnitude M E) := by
  have hvalue : ((scaled m 1 (-e)).1 : ℚ) / (scaled m 1 (-e)).2 = M * 2 ^ E := by
    rw [scaled_eq, ← hx, neg_neg, Nat.cast_one, div_one]
  have hden := scaled_pos m Nat.one_pos (-e)
  exact congrArg (f.signed negative) (nearestMagnitude_eq hp hden h hvalue)

/-- A single is also a double, with further zeros behind its bits. -/
theorem Holds.double_of_single (h : single.Holds m e) :
    ∃ M E, double.Holds M E ∧ (m : ℚ) * 2 ^ e = M * 2 ^ E := by
  have hlt : m < 2 ^ 24 := h.lt
  have hleast : -149 ≤ e := h.least
  have hfinite : (e - -149).toNat + 1 < 255 := h.finite
  have hd : double.leastExponent = -1074 := by decide
  have hfractions : double.fractions = 2 ^ 52 := by decide
  have hfield : double.infiniteField = 2047 := by decide
  rcases Nat.eq_zero_or_pos m with rfl | hm
  · exact ⟨0, -1074, ⟨by decide, by decide, .inr (by decide), by decide⟩, by simp⟩
  · have hlog : m.log2 < 24 := (Nat.log2_lt hm.ne').mpr hlt
    have h1 := Nat.log2_self_le hm.ne'
    have h2 : m < 2 ^ (m.log2 + 1) := Nat.lt_log2_self
    have hsplit : 2 ^ 52 = 2 ^ m.log2 * 2 ^ (52 - m.log2) := by
      rw [← Nat.pow_add]
      congr 1
      omega
    refine ⟨m * 2 ^ (52 - m.log2), e - (52 - m.log2 : Nat), ⟨?_, ?_, .inl ?_, ?_⟩, ?_⟩
    · calc m * 2 ^ (52 - m.log2) < 2 ^ (m.log2 + 1) * 2 ^ (52 - m.log2) := by gcongr
        _ = 2 * double.fractions := by rw [hfractions, hsplit, Nat.pow_succ]; ring
    · rw [hd]
      omega
    · rw [hfractions, hsplit]
      gcongr
    · rw [hd, hfield]
      omega
    · push_cast
      rw [mul_assoc, ← zpow_natCast, ← zpow_add₀ (by norm_num)]
      congr 2
      omega

end Format

/-! ### Doubles and singles -/

open Float.Model (UnpackedFloat)

/-- The format of a model of the machine's numbers. -/
def Format.ofModel (spec : Float.Model.Format) : Format :=
  ⟨spec.mantissaBitsWithoutImplicit + 1, spec.exponentBits⟩

/-- What is no number for the machine is none here. -/
theorem isNaNBits_iff (spec : Float.Model.Format) (b : BitVec spec.numBits) :
    UnpackedFloat.isNaNBits b = true ↔ (Format.ofModel spec).parts b.toNat = .nan := by
  have hexp : UnpackedFloat.unpackExponent b = -BitVec.ofNat spec.exponentBits 1 ↔
      b.toNat / 2 ^ spec.mantissaBitsWithoutImplicit % 2 ^ spec.exponentBits =
        2 ^ spec.exponentBits - 1 := by
    have hbits : spec.mantissaBitsWithoutImplicit + spec.exponentBits - 1 -
        spec.mantissaBitsWithoutImplicit + 1 = spec.exponentBits := by
      have := spec.he
      omega
    have hone : 1 % 2 ^ spec.exponentBits = 1 := Nat.mod_eq_of_lt (Nat.one_lt_two_pow spec.he.ne')
    have hpred : (2 ^ spec.exponentBits - 1) % 2 ^ spec.exponentBits = 2 ^ spec.exponentBits - 1 :=
      Nat.mod_eq_of_lt (Nat.sub_lt (Nat.two_pow_pos _) Nat.one_pos)
    rw [← BitVec.toNat_inj]
    simp [UnpackedFloat.unpackExponent, Nat.shiftRight_eq_div_pow, hbits, hone, hpred]
  have hman : UnpackedFloat.unpackMantissa b = BitVec.ofNat spec.mantissaBitsWithoutImplicit 0 ↔
      b.toNat % 2 ^ spec.mantissaBitsWithoutImplicit = 0 := by
    rw [← BitVec.toNat_inj]
    simp [UnpackedFloat.unpackMantissa, Nat.sub_add_cancel spec.hm]
  have hfield : b.toNat % (2 ^ spec.mantissaBitsWithoutImplicit * 2 ^ spec.exponentBits) /
      2 ^ spec.mantissaBitsWithoutImplicit =
        b.toNat / 2 ^ spec.mantissaBitsWithoutImplicit % 2 ^ spec.exponentBits :=
    Nat.mod_mul_right_div_self _ _ _
  have hfraction : b.toNat % (2 ^ spec.mantissaBitsWithoutImplicit * 2 ^ spec.exponentBits) %
      2 ^ spec.mantissaBitsWithoutImplicit = b.toNat % 2 ^ spec.mantissaBitsWithoutImplicit :=
    Nat.mod_mul_right_mod _ _ _
  simp only [UnpackedFloat.isNaNBits, decide_eq_true_eq, hexp, ne_eq, hman, Format.parts,
    Format.ofModel, Format.fractions, Format.signBit, Format.infiniteField, Nat.add_sub_cancel,
    Nat.pow_eq, hfield, hfraction]
  split
  · split <;> simp_all
  · split <;> simp_all

/-- A double has the parts of the pattern that it is made of. -/
theorem partsOfDouble_double {bits : Nat} (h : bits < 2 * Format.double.signBit) :
    partsOfDouble (double bits) = Format.double.parts bits := by
  have hb : (UInt64.ofNat bits).toBitVec.toNat = bits := Nat.mod_eq_of_lt h
  have hnan := isNaNBits_iff .binary64 (UInt64.ofNat bits).toBitVec
  have hback : (double bits).toBits.toBitVec = _ :=
    @UnpackedFloat.pack_unpack .binary64 (UInt64.ofNat bits).toBitVec (by decide)
  rw [hb] at hnan
  show Format.double.parts (double bits).toBits.toBitVec.toNat = _
  rw [hback]
  split
  · rename_i hn
    rw [show Format.double.parts bits = .nan from hnan.mp hn]
    decide
  · rw [hb]

/-- A single that is no number has the pattern that all of them have. -/
theorem toBits_of_nan {v : Float32} (h : partsOfSingle v = .nan) :
    v.toBits.toNat = Format.single.pack .nan := by
  have hn := (isNaNBits_iff .binary32 v.toBits.toBitVec).mpr h
  obtain ⟨hexp, hman⟩ := of_decide_eq_true hn
  have hv : v.toBits.toBitVec = UnpackedFloat.packedNaN .binary32 :=
    v.toModel.valid.eq_packedNaN hexp hman
  show v.toBits.toBitVec.toNat = _
  rw [hv]
  decide

theorem single_toBits (v : Float32) : single v.toBits.toNat = v := by
  rw [single, UInt32.ofNat_toNat, Float32.ofBits_toBits]

/-- **A single that becomes a double becomes the same single again.** -/
theorem narrow_widen (v : Float32) : narrow (widen v) = v := by
  have hbits : v.toBits.toNat < 2 * Format.single.signBit := v.toBits.toNat_lt
  have hback : Format.single.pack (partsOfDouble (widen v)) = v.toBits.toNat := by
    unfold widen
    cases h : partsOfSingle v with
    | nan =>
      rw [toBits_of_nan h, partsOfDouble_double (by decide)]
      decide
    | infinite negative =>
      have hv := Format.infinite_of_parts hbits h
      rw [hv, partsOfDouble_double (by cases negative <;> decide)]
      cases negative <;> decide
    | finite negative m e =>
      obtain ⟨hholds, hv⟩ := Format.holds_of_parts (by decide) hbits h
      obtain ⟨M, E, hdouble, hx⟩ := hholds.double_of_single
      rw [Format.pack_eq (by decide) hdouble hx, partsOfDouble_double hdouble.signed_lt,
        Format.parts_magnitude hdouble, Format.pack_eq (by decide) hholds hx.symm, hv]
  rw [narrow, hback, single_toBits]

end QueryExpr.Binary
