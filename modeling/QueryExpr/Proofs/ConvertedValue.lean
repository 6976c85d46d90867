/-
# What conversions do to integers and to null

An implicit conversion between types with integers behind them keeps the integer
but for one case: on the way to another type of characters, and to `UInt16`, a
character is cut to its lowest sixteen bits, and the characters above them are
lost.

A conversion to a type whose values are never null yields a value of the type, or
fails, but for one type: on the way to `Boolean` a value stays as it is, null
included.

Key definitions: `Prim.keeps`, `Ty.cutsChars`.
Key theorems: `Value.cast_integer`, `Prim.widens_keeps`, `Eval.term_coerce_integer`,
`Eval.term_convert_valueType`.
-/
import QueryExpr.Eval
import QueryExpr.Lambda.Compile
import QueryExpr.Proofs.CoalescedValue

namespace QueryExpr

variable {host : Host} {e e' : Term} {t : Ty} {p q : Prim} {v : Value} {i : Int}

/-! ### Integers -/

/-- Whether an integer is one of those that a conversion to the type gives. -/
def Prim.keeps : Prim → Int → Bool
  | .int t, i => t.holds i
  | .char, i => 0 ≤ i && i ≤ 65535 && i.toNat.isValidChar
  | _, _ => false

/-- Whether the conversion brings characters down to sixteen bits. -/
def Ty.cutsChars (source target : Ty) : Bool :=
  source.primitive? == some .char && !(source == target) &&
    (target.primitive? == some .char || target.primitive? == some (.int .uint16))

/-- An integer is kept by a type that it is brought to just if it is one of the
type's own. -/
theorem IntType.wrap_eq_iff {s : IntType} : s.wrap i = i ↔ s.holds i = true := by
  rw [holds_iff]
  refine ⟨fun h => ?_, fun h => wrap_of_mem h⟩
  rw [← h]
  exact s.wrap_mem i

theorem toNat_charOfInt_eq_iff : ((charOfInt i).toNat : Int) = i ↔ Prim.char.keeps i = true := by
  have hcode : 0 ≤ i % 65536 ∧ i % 65536 < 65536 := by omega
  simp only [Prim.keeps, Bool.and_eq_true, decide_eq_true_eq]
  unfold charOfInt
  dsimp only
  split
  · rename_i hvalid
    rw [Char.toNat_ofNat, if_pos hvalid]
    constructor
    · intro h
      have hi : i % 65536 = i := by omega
      rw [hi] at hvalid
      exact ⟨⟨by omega, by omega⟩, hvalid⟩
    · rintro ⟨⟨h0, h1⟩, -⟩
      omega
  · rename_i hvalid
    have hreplacement : (Char.ofNat 0xfffd).toNat = 0xfffd := by decide
    rw [hreplacement]
    constructor
    · rintro rfl
      exact absurd (by decide) hvalid
    · rintro ⟨⟨h0, h1⟩, h2⟩
      have hi : i % 65536 = i := by omega
      rw [hi] at hvalid
      exact absurd h2 hvalid

/-- **An integer as a value of another type.** It stays the same just if it is one
of those that a conversion to the type gives. -/
theorem Value.cast_integer (hq : q.isIntegerLike = true) (hv : v.integer? = some i) :
    ∃ w, v.cast q = .ok w ∧ q.Holds w ∧ (w.integer? = some i ↔ q.keeps i = true) := by
  cases v with
  | scalar s =>
    have hs : s.integer? = some i := hv
    cases q with
    | int t =>
      refine ⟨.scalar (.int (.wrap t i)), by simp [cast, Scalar.cast?, hs, Scalar.ofInteger?],
        ⟨_, rfl, rfl⟩, ?_⟩
      rw [Prim.keeps, ← IntType.wrap_eq_iff]
      exact Option.some_inj
    | char =>
      refine ⟨.scalar (.char (charOfInt i)), by simp [cast, Scalar.cast?, hs, Scalar.ofInteger?],
        ⟨_, rfl⟩, ?_⟩
      rw [← toNat_charOfInt_eq_iff]
      exact Option.some_inj
    | _ => cases hq
  | _ => cases hv

theorem Prim.Holds.integer (hp : p.isIntegerLike = true) (h : p.Holds v) :
    ∃ i, v.integer? = some i ∧
      ((∃ s, p = .int s ∧ s.holds i = true) ∨ p = .char ∧ 0 ≤ i ∧ i.toNat.isValidChar) := by
  cases p with
  | int s =>
    obtain ⟨n, rfl, rfl⟩ := h
    exact ⟨n.value, rfl, .inl ⟨_, rfl, (IntType.holds_iff _ _).mpr n.mem⟩⟩
  | char =>
    obtain ⟨c, rfl⟩ := h
    exact ⟨c.toNat, rfl, .inr ⟨rfl, by omega, c.valid⟩⟩
  | _ => cases hp

theorem Ty.widens_of_converts {n m : Bool} (h : (lift p n).converts (lift q m) = true) :
    p.widens q = true := by
  rcases converts_cases h with hs | ho | ⟨hn, -⟩ | ⟨p', q', n', m', hp, hq, hw, -⟩ |
    ⟨_, _, -, hs, -⟩ | ⟨_, _, -, ha, -⟩ | hb
  · obtain rfl : p = q := by simpa using congrArg primitive? (eq_lift_of_beq hs)
    exact p.widens_refl
  · obtain rfl : q = .object :=
      Option.some_inj.mp ((primitive?_lift q m).symm.trans (congrArg primitive? ho))
    simp [Prim.widens]
  · cases n <;> cases hn
  · obtain rfl : p = p' := by simpa using congrArg primitive? hp
    obtain rfl : q = q' := by simpa using congrArg primitive? hq
    exact hw
  · cases m <;> cases hs
  · cases m <;> cases ha
  · cases n <;> cases hb

/-- A type that another one widens to gives all the integers of the other, unless
it is of characters too or of sixteen bits. -/
theorem Prim.widens_keeps (hp : p.isIntegerLike = true) (hq : q.isIntegerLike = true)
    (hw : p.widens q = true) (h : p.Holds v) (hv : v.integer? = some i) :
    q.keeps i = true ↔ (p = .char → q = .char ∨ q = .int .uint16 → i ≤ 65535) := by
  obtain ⟨j, hj, hcases⟩ := h.integer hp
  obtain rfl : i = j := Option.some_inj.mp (hv.symm.trans hj)
  rcases hcases with ⟨s, rfl, hs⟩ | ⟨rfl, h0, hvalid⟩
  · cases q with
    | int t =>
      have hrange : t.min ≤ s.min ∧ s.max ≤ t.max := by
        by_cases hst : s = t
        · subst hst
          exact ⟨le_refl _, le_refl _⟩
        · simpa [widens, hst] using hw
      rw [IntType.holds_iff] at hs
      simp only [keeps, IntType.holds_iff, reduceCtorEq, false_implies, iff_true]
      omega
    | char => simp [widens] at hw
    | _ => cases hq
  · -- beyond sixteen bits a character still has a number below the range of `Int32`
    have hlt : i < 1114112 := by
      simp only [Nat.isValidChar] at hvalid
      omega
    cases q with
    | int t => cases t <;> simp [widens, IntType.min, IntType.max, IntType.signed, IntType.count,
        keeps, IntType.holds] at hw ⊢ <;> omega
    | char => simp [keeps, h0, hvalid]
    | _ => cases hq

/-- A constant that fits a type is an integer, and one that a conversion to the type
gives. -/
theorem Term.keeps_of_fits {k k' : EvalContext} (hf : e.fits t = true)
    (hq : t.primitive? = some q) (hv : Eval.term host e k = (.ok v, k'))
    (hi : v.integer? = some i) : q.keeps i = true ∧ ∃ n, v = .scalar (.int n) := by
  unfold fits at hf
  split at hf
  · rename_i n s hconst hs
    obtain rfl : q = .int s := Option.some_inj.mp (hq.symm.trans hs)
    unfold integralConstant? at hconst
    split at hconst
    · rename_i c _ _
      cases hv
      cases c with
      | int m =>
        cases hconst
        cases hi
        exact ⟨hf, m, rfl⟩
      | _ => cases hconst
    · cases hconst
  · cases hf

/-- What comes to a value other than null has the type already, or is converted to
it. -/
theorem Eval.term_convertTo_of_not_null {k k' : EvalContext} (hv : term host e k = (.ok v, k'))
    (hn : v.isNull = false) (t : Ty) :
    term host (e.convertTo t) k = (if e.type == t then .ok v else v.convert t, k') := by
  have hconstant : ¬ e.isNullConstant = true := by
    intro hnull
    unfold Term.isNullConstant at hnull
    split at hnull
    · cases hv
      cases hn
    · cases hnull
  unfold Term.convertTo
  by_cases hs : (e.type == t) = true
  · rw [if_pos hs, if_pos hs, hv]
  · rw [if_neg hs, if_neg hs, if_neg hconstant, term, Step.bind_apply, hv]
    exact ofExcept_apply _ _

/-- **An implicit conversion keeps the integer**, unless it cuts a character that
is above sixteen bits. -/
theorem Eval.term_coerce_integer {k k' : EvalContext} (hp : e.type.primitive? = some p)
    (hpi : p.isIntegerLike = true) (hq : t.primitive? = some q) (hqi : q.isIntegerLike = true)
    (hc : e.coerce? t = some e') (hv : term host e k = (.ok v, k'))
    (hvt : Conforms host e.type v) (hn : v.isNull = false) :
    ∃ i w, v.integer? = some i ∧ term host e' k = (.ok w, k') ∧ q.Holds w ∧
      (w.integer? = some i ↔ (e.type.cutsChars t = true → i ≤ 65535)) := by
  have hholds : p.Holds v := by
    rw [Ty.eq_lift_of_primitive? hp] at hvt
    rcases conforms_lift.mp hvt with ⟨-, rfl⟩ | h
    · cases hn
    · exact h
  obtain ⟨i, hi, -⟩ := hholds.integer hpi
  unfold Term.coerce? at hc
  split at hc
  case isFalse => cases hc
  rename_i ha
  cases hc
  have hrun := term_convertTo_of_not_null hv hn t
  by_cases hs : (e.type == t) = true
  · -- what has the type already is left as it is
    have hpq : p = q := by
      rw [Ty.eq_lift_of_primitive? hq] at hs
      simpa [hp] using congrArg Ty.primitive? (Ty.eq_lift_of_beq hs)
    rw [if_pos hs] at hrun
    exact ⟨i, v, hi, hrun, hpq ▸ hholds, by simp [hi, Ty.cutsChars, hs]⟩
  obtain ⟨w, hw, hwq, hwi⟩ := v.cast_integer hqi hi
  have hconvert : v.convert t = .ok w := by
    have hlike : q.isNumberLike = true := by
      cases q <;> first | rfl | cases hqi
    simp [Value.convert, hq, hn, hlike, hw]
  rw [if_neg hs, hconvert] at hrun
  refine ⟨i, w, hi, hrun, hwq, hwi.trans ?_⟩
  have hcuts : e.type.cutsChars t = true ↔ p = .char ∧ (q = .char ∨ q = .int .uint16) := by
    simp [Ty.cutsChars, hp, hq, hs]
  rw [hcuts]
  rcases Term.isAssignable_iff.mp ha with hconv | hfits
  · rw [Ty.eq_lift_of_primitive? hp, Ty.eq_lift_of_primitive? hq] at hconv
    rw [Prim.widens_keeps hpi hqi (Ty.widens_of_converts hconv) hholds hi, and_imp]
  · obtain ⟨hkeeps, n, rfl⟩ := Term.keeps_of_fits hfits hq hv hi
    have hchar : p ≠ .char := by
      rintro rfl
      obtain ⟨c, hc⟩ := hholds
      cases hc
    simp [hkeeps, hchar]

/-- An `Int32` passed as an `Int64?` keeps its number. -/
theorem Eval.term_coerce_integer_lifted :
    let x : Term := .parameter "x" .int32 ⟨0, 1⟩
    let k : EvalContext := ⟨[("x", .int32 7)], 0, []⟩
    ∀ host, ∃ i w, (Value.int32 7).integer? = some i ∧
      term host (.convert x (.nullable (.int .int64)) ⟨0, 1⟩) k = (.ok w, k) ∧
      (Prim.int .int64).Holds w ∧
      (w.integer? = some i ↔ (x.type.cutsChars (.nullable (.int .int64)) = true → i ≤ 65535)) := by
  intro x k host
  exact term_coerce_integer (e := x) (p := .int .int32) rfl rfl rfl rfl rfl rfl ⟨_, rfl, rfl⟩ rfl

/-- A character above sixteen bits is another one after it has been passed as a
`Char?`. -/
theorem Lambda.invoke_char_cut :
    ∃ f, ofText {} [⟨"c", .char⟩] (some (.nullable .char)) "c" .empty = (.ok f, .empty) ∧
      (∃ c, c.type = .char ∧ c.coerce? (.nullable .char) = some f.body ∧
        ∀ host, Eval.term host c ⟨[("c", .scalar (.char '😀'))], 0, []⟩ =
          (.ok (.scalar (.char '😀')), ⟨[("c", .scalar (.char '😀'))], 0, []⟩)) ∧
      ∀ host, (f.invoke host [.scalar (.char '😀')] (.start 0)).1 =
        .ok (.scalar (.char (Char.ofNat 0xf600))) := by
  have h : ofText {} [⟨"c", .char⟩] (some (.nullable .char)) "c" .empty =
      (.ok ⟨[⟨"c", .char⟩], .convert (.parameter "c" .char ⟨0, 1⟩) (.nullable .char) ⟨0, 1⟩,
        .nullable .char, .ofDelegate none [⟨"c", .char⟩] (.nullable .char)⟩, .empty) := by
    with_unfolding_all rfl
  exact ⟨_, h, ⟨.parameter "c" .char ⟨0, 1⟩, rfl, rfl, fun host => rfl⟩, fun host => rfl⟩

/-! ### Null -/

theorem Value.holds_of_cast {w : Value} (hq : q.isNumberLike = true) (h : v.cast q = .ok w) :
    q.Holds w := by
  unfold cast at h
  split at h
  · rename_i s
    split at h
    · rename_i s' hs'
      cases h
      unfold Scalar.cast? at hs'
      split at hs'
      · rename_i n _
        obtain ⟨s'', hs'', hw⟩ := Scalar.ofInteger?_holds hq n
        cases hs'.symm.trans hs''
        exact hw
      · obtain ⟨x, -, hx⟩ := Option.bind_eq_some_iff.mp hs'
        obtain ⟨s'', hs'', hw⟩ := Scalar.ofDouble?_holds hq x
        cases hx.symm.trans hs''
        exact hw
    · cases h
  · cases h

/-- What is brought to a type of numbers without null is a value of the type. -/
theorem Value.holds_of_convert {w : Value} (hq : q.isNumberLike = true)
    (h : v.convert (.prim q) = .ok w) : q.Holds w := by
  unfold convert at h
  simp only [Ty.primitive?, Ty.isNullable, Bool.and_false, Bool.false_eq_true, if_false, hq,
    Bool.not_true] at h
  split at h
  · cases h
  · exact holds_of_cast hq h

/-- **A conversion to a type whose values are never null.** It yields a value of
the type and not null, or fails, unless the type is `Boolean`: then it yields what
the operand came to. -/
theorem Eval.term_convert_valueType {k k' : EvalContext} (span : Span)
    (hq : q.isValueType = true) (hv : term host e k = (.ok v, k')) :
    ∃ r, term host (.convert e (.prim q) span) k = (r, k') ∧ (q = .boolean → r = .ok v) ∧
      ∀ w, r = .ok w →
        (w.isNull = false ∧ q.Holds w ↔ (q = .boolean → ∃ b, v = .boolean b)) := by
  refine ⟨v.convert (.prim q), ?_, ?_, ?_⟩
  · rw [term, Step.bind_apply, hv]
    exact ofExcept_apply _ _
  · rintro rfl
    exact Value.convert_of_not rfl
  intro w hw
  by_cases hb : q = .boolean
  · subst hb
    rw [Value.convert_of_not rfl] at hw
    cases hw
    refine ⟨fun h _ => h.2, fun h => ?_⟩
    obtain ⟨b, rfl⟩ := h rfl
    exact ⟨rfl, b, rfl⟩
  · have hlike : q.isNumberLike = true := by
      cases q with
      | boolean => exact absurd rfl hb
      | string | object => cases hq
      | _ => rfl
    have hholds := Value.holds_of_convert hlike hw
    simp [hb, hholds, hholds.not_null hlike]

/-- A character converted to `Int32` is a number and not null. -/
theorem Eval.term_convert_valueType_char :
    let c : Term := .parameter "c" (.nullable .char) ⟨6, 1⟩
    let k : EvalContext := ⟨[("c", .scalar (.char 'a'))], 0, []⟩
    ∀ host, (Prim.int .int32).isValueType = true ∧ term host c k = (.ok (.scalar (.char 'a')), k) ∧
      ∃ w, term host (.convert c .int32 ⟨0, 8⟩) k = (.ok w, k) ∧
        w.isNull = false ∧ (Prim.int .int32).Holds w := by
  intro c k host
  have hc : term host c k = (.ok (.scalar (.char 'a')), k) := rfl
  have hconvert : term host (.convert c .int32 ⟨0, 8⟩) k = (.ok (.int32 97), k) := rfl
  obtain ⟨r, hr, -, hall⟩ :=
    term_convert_valueType (q := .int .int32) ⟨0, 8⟩ rfl hc
  cases hconvert.symm.trans hr
  exact ⟨rfl, hc, _, hconvert, (hall _ rfl).mpr (by simp)⟩

/-- `Boolean(b)` is null where `b` is. -/
theorem Lambda.invoke_convert_null :
    ∃ f, ofText {} [⟨"b", .nullable .boolean⟩] none "Boolean(b)" .empty = (.ok f, .empty) ∧
      (∃ b span, f.body = .convert b (.prim .boolean) span ∧ b.type = .nullable .boolean) ∧
      Prim.boolean.isValueType = true ∧
      ∀ host, Conforms host (.nullable .boolean) .null ∧
        (f.invoke host [.null] (.start 0)).1 = .ok .null := by
  have h : ofText {} [⟨"b", .nullable .boolean⟩] none "Boolean(b)" .empty =
      (.ok ⟨[⟨"b", .nullable .boolean⟩],
        .convert (.parameter "b" (.nullable .boolean) ⟨8, 1⟩) .boolean ⟨0, 10⟩, .boolean,
        .ofDelegate none [⟨"b", .nullable .boolean⟩] .boolean⟩, .empty) := by with_unfolding_all rfl
  exact ⟨_, h, ⟨_, _, rfl, rfl⟩, rfl, fun host => ⟨.inl rfl, rfl⟩⟩

end QueryExpr
