/-
# What operators and built-in functions come to

Over values of the types that the rules of typing ask for, an operator or a
built-in function gives a value of the type it is declared with, or one of
the errors that may be expected: a division by zero, null where a text or a
number is needed, a position outside of a text.

Key theorems: `UnaryOp.negate_fine`, `Operation.arithmetic_fine`,
`Builtin.property?_fine`, `Builtin.methods_fine`, `Builtin.functions_fine`.
-/
import QueryExpr.Eval.Builtin
import QueryExpr.Proofs.ValueConversion

namespace QueryExpr

open Eval (Fine)

variable {host : Host} {v w : Value} {t u : Ty}

/-! ### Operators -/

/-- A number is negated, and null stays. -/
theorem UnaryOp.negate_fine (ht : t.negation? = some t) (h : Conforms host t v) :
    Fine (Conforms host t) (UnaryOp.negate.apply v) := by
  obtain ⟨p, q, -, htq, -, -, hq⟩ := Ty.negation?_cases ht
  rw [htq] at h ⊢
  rcases conforms_lift.mp h with ⟨hn, rfl⟩ | hv
  · exact conforms_lift.mpr (.inl ⟨hn, rfl⟩)
  · simp only [List.mem_cons, List.not_mem_nil, or_false] at hq
    rcases hq with rfl | rfl | rfl | rfl | rfl
    · obtain ⟨n, rfl, hn⟩ := hv
      have : (n.type == .int32 || n.type == .int64) = true := by rw [hn]; rfl
      simp only [apply, Value.isNull, Scalar.isNull, this]
      exact conforms_lift.mpr (.inr ⟨_, rfl, hn⟩)
    · obtain ⟨n, rfl, hn⟩ := hv
      have : (n.type == .int32 || n.type == .int64) = true := by rw [hn]; rfl
      simp only [apply, Value.isNull, Scalar.isNull, this]
      exact conforms_lift.mpr (.inr ⟨_, rfl, hn⟩)
    all_goals
      obtain ⟨x, rfl⟩ := hv
      exact conforms_lift.mpr (.inr ⟨_, rfl⟩)

/-- A truth value is inverted, and null stays. -/
theorem UnaryOp.not_fine (ht : t.isBoolean = true) (h : Conforms host t v) :
    Fine (Conforms host t) (UnaryOp.not.apply v) := by
  have ht : t.primitive? = some .boolean := by simpa [Ty.isBoolean] using ht
  rw [Ty.eq_lift_of_primitive? ht] at h ⊢
  rcases conforms_lift.mp h with ⟨hn, rfl⟩ | ⟨b, rfl⟩
  · exact conforms_lift.mpr (.inl ⟨hn, rfl⟩)
  · exact conforms_lift.mpr (.inr ⟨!b, rfl⟩)

namespace Operation

variable {op : Operation}

theorem onIntegers_fine (ho : op.isArithmetic = true) (a b : Int) :
    Fine (fun _ => True) (op.onIntegers a b) := by
  cases op with
  | add | subtract | multiply => trivial
  | divide | modulo =>
    unfold onIntegers
    dsimp only
    split
    · rfl
    · trivial
  | _ => cases ho

theorem onDoubles_fine (ho : op.isArithmetic = true) (x y : Float) :
    Fine (fun _ => True) (op.onDoubles x y) := by
  cases op <;> trivial

theorem onSingles_fine (ho : op.isArithmetic = true) (x y : Float32) :
    Fine (fun _ => True) (op.onSingles x y) := by
  cases op <;> trivial

theorem onDecimals_fine (ho : op.isArithmetic = true) (x y : Float) :
    Fine (fun _ => True) (op.onDecimals x y) := by
  unfold onDecimals
  split
  · rfl
  · exact onDoubles_fine ho x y

theorem apply_eq_arithmetic (ho : op.isArithmetic = true) (v w : Value) :
    op.apply v w = op.arithmetic v w := by
  cases op <;> first | rfl | cases ho

theorem holds_integers {m n : SizedInt} (ho : op.isArithmetic = true)
    (ht : m.type.hasArithmetic = true) (hn : n.type = m.type) :
    Fine (Prim.int m.type).Holds (op.arithmetic (.scalar (.int m)) (.scalar (.int n))) := by
  have hc : (m.type == n.type && m.type.hasArithmetic) = true := by simp [hn, ht]
  simp only [arithmetic, Value.isNull, Scalar.isNull, hc, Bool.or_self, Bool.false_eq_true,
    if_false, if_true]
  exact (onIntegers_fine ho _ _).map fun r _ => ⟨_, rfl, rfl⟩

/-- Two numbers of one type give a number of that type, or divide by zero. -/
theorem holds_arithmetic {p : Prim} (ho : op.isArithmetic = true) (hp : p ∈ Ty.promotions)
    (hv : p.Holds v) (hw : p.Holds w) : Fine p.Holds (op.arithmetic v w) := by
  simp only [Ty.promotions, List.mem_cons, List.not_mem_nil, or_false] at hp
  rcases hp with rfl | rfl | rfl | rfl | rfl | rfl | rfl
  case inr.inr.inr.inr.inl =>
    obtain ⟨x, rfl⟩ := hv
    obtain ⟨y, rfl⟩ := hw
    exact (onSingles_fine ho x y).map fun r _ => ⟨_, rfl⟩
  case inr.inr.inr.inr.inr.inl =>
    obtain ⟨x, rfl⟩ := hv
    obtain ⟨y, rfl⟩ := hw
    exact (onDoubles_fine ho x y).map fun r _ => ⟨_, rfl⟩
  case inr.inr.inr.inr.inr.inr =>
    obtain ⟨x, rfl⟩ := hv
    obtain ⟨y, rfl⟩ := hw
    exact (onDecimals_fine ho x y).map fun r _ => ⟨_, rfl⟩
  all_goals
    obtain ⟨m, rfl, hm⟩ := hv
    obtain ⟨n, rfl, hn⟩ := hw
    rw [← hm]
    exact holds_integers ho (by rw [hm]; rfl) (hn.trans hm.symm)

/-- **Arithmetic keeps to its type**: null makes null, and numbers a number. -/
theorem arithmetic_fine {p : Prim} {n : Bool} (ho : op.isArithmetic = true)
    (hp : p ∈ Ty.promotions) (hv : Conforms host (.lift p n) v)
    (hw : Conforms host (.lift p n) w) : Fine (Conforms host (.lift p n)) (op.apply v w) := by
  rw [apply_eq_arithmetic ho]
  have null (h : (v.isNull || w.isNull) = true) (hn : n = true) :
      Fine (Conforms host (.lift p n)) (op.arithmetic v w) := by
    unfold arithmetic
    rw [if_pos h]
    exact conforms_lift.mpr (.inl ⟨hn, rfl⟩)
  rcases conforms_lift.mp hv with ⟨hn, rfl⟩ | hv
  · exact null rfl hn
  · rcases conforms_lift.mp hw with ⟨hn, rfl⟩ | hw
    · exact null (Bool.or_true _) hn
    · exact (holds_arithmetic ho hp hv hw).mono fun r hr => conforms_lift.mpr (.inr hr)

end Operation

/-! ### Built-in functions -/

namespace Intrinsic

variable {vs : List Value} {i : Nat}

theorem textArgument_fine (hv : vs[i]? = some v) (h : Prim.string.Holds v) :
    Fine (fun _ => True) (textArgument vs i) := by
  unfold textArgument
  rw [hv]
  rcases h with rfl | ⟨s, rfl⟩
  · rfl
  · trivial

theorem integerArgument_fine {p : IntType} (hv : vs[i]? = some v) (h : (Prim.int p).Holds v) :
    Fine (fun _ => True) (integerArgument vs i) := by
  obtain ⟨n, rfl, -⟩ := h
  unfold integerArgument
  rw [hv]
  trivial

theorem substring_fine (cs : List Char) (start length : Int) :
    Fine (fun _ => True) (substring cs start length) := by
  unfold substring
  split
  · rfl
  · trivial

/-- A method of text that looks for a text gives a truth value. -/
theorem onText_fine_boolean (h : Prim.string.Holds w) (cs : List Char) :
    ∀ op ∈ [stringContains, stringStartsWith, stringEndsWith],
      Fine (Conforms host .boolean) (op.onText cs [w]) := by
  have ht : Fine (fun _ => True) (textArgument [w] 0) := textArgument_fine rfl h
  intro op ho
  simp only [List.mem_cons, List.not_mem_nil, or_false] at ho
  rcases ho with rfl | rfl | rfl
  all_goals exact ht.map fun _ _ => ⟨_, rfl⟩

/-- A text or a character is looked for in a text. -/
theorem onText_fine_indexOf (h : Prim.string.Holds w ∨ Prim.char.Holds w) (cs : List Char) :
    Fine (Conforms host .int32) (stringIndexOf.onText cs [w]) := by
  have hn : Fine (fun _ => True) (needle [w]) := by
    rcases h with h | ⟨c, rfl⟩
    · have ht : Fine (fun _ => True) (textArgument [w] 0) := textArgument_fine rfl h
      rcases h with rfl | ⟨s, rfl⟩
      · exact ht
      · exact ht
    · trivial
  refine hn.map fun s _ => ?_
  split
  · exact ⟨_, rfl, rfl⟩
  · exact ⟨_, rfl, rfl⟩

/-- A part of a text is a text. -/
theorem onText_fine_substring (hv : (Prim.int .int32).Holds v)
    (hvs : vs = [] ∨ ∃ w, vs = [w] ∧ (Prim.int .int32).Holds w) (cs : List Char) :
    Fine (Conforms host .string) (stringSubstring.onText cs (v :: vs)) := by
  have part (start length : Int) :
      Fine (Conforms host .string) ((substring cs start length).map ofChars) :=
    (substring_fine cs start length).map fun s _ => .inr ⟨_, rfl⟩
  refine (integerArgument_fine rfl hv).bind fun start _ => ?_
  rcases hvs with rfl | ⟨w, rfl, hw⟩
  · exact part start _
  · exact (integerArgument_fine rfl hw).bind fun length _ => part start length

/-- The size of a number of a type with negative numbers is of that type. -/
theorem absolute_fine {p : Prim} (hp : p ∈ Builtin.signedTypes) (h : p.Holds v) :
    Fine (Conforms host (.prim p)) (absolute [v]) := by
  simp only [Builtin.signedTypes, List.mem_cons, List.not_mem_nil, or_false] at hp
  rcases hp with rfl | rfl | rfl | rfl | rfl | rfl | rfl
  case inr.inr.inr.inr.inl | inr.inr.inr.inr.inr.inl | inr.inr.inr.inr.inr.inr =>
    obtain ⟨x, rfl⟩ := h
    exact ⟨_, rfl⟩
  all_goals
    obtain ⟨n, rfl, hn⟩ := h
    have hs : n.type.signed = true := by rw [hn]; rfl
    simp only [absolute, List.head?_cons, hs, if_true]
    exact ⟨_, rfl, hn⟩

/-- The less or the greater of two values is one of them. -/
theorem extreme_fine (op : Intrinsic) (hv : Conforms host t v) (hw : Conforms host t w) :
    Fine (Conforms host t) (op.extreme [v, w]) := by
  have chosen (b : Bool) : Conforms host t (if b then v else w) := by
    cases b
    · exact hw
    · exact hv
  unfold extreme
  dsimp only
  split
  · exact chosen _
  · exact chosen _

theorem rounded_fine (op : Intrinsic) {p : Prim} (hp : p ∈ [Prim.double, .decimal])
    (h : p.Holds v) : Fine (Conforms host (.prim p)) (op.rounded [v]) := by
  simp only [List.mem_cons, List.not_mem_nil, or_false] at hp
  rcases hp with rfl | rfl
  all_goals
    obtain ⟨x, rfl⟩ := h
    exact ⟨_, rfl⟩

end Intrinsic

namespace Builtin

variable {b : Builtin} {n : String} {vs : List Value}

theorem property?_fine {op : Intrinsic} (h : property? t n = some (op, u))
    (hv : Conforms host t v) : Fine (Conforms host u) (op.apply v []) := by
  unfold property? at h
  split at h <;> cases h
  · rcases hv with rfl | ⟨s, rfl⟩
    · rfl
    · exact ⟨_, rfl, rfl⟩
  · rcases hv with rfl | ⟨id, items, rfl, -⟩
    · rfl
    · exact ⟨_, rfl, rfl⟩
  · exact ⟨_, rfl⟩
  · rename_i p
    show Fine (Conforms host (.prim p)) (if v.isNull then .error _ else .ok v)
    rcases hv with rfl | hv
    · rfl
    · split
      · rfl
      · exact hv

theorem anyMethods_fine (h : b ∈ anyMethods n) : Fine (Conforms host b.returns) (b.op.apply v vs) := by
  unfold anyMethods at h
  split at h <;> cases h <;> try contradiction
  · show Fine _ (if v.isNull then .error _ else .ok (Value.string v.text))
    split
    · rfl
    · exact .inr ⟨_, rfl⟩
  · show Fine _ (if v.isNull then .error _ else .ok (Value.boolean (vs.head?.any v.equals)))
    split
    · rfl
    · exact ⟨_, rfl⟩
  · exact ⟨_, rfl, rfl⟩

/-- The methods of text need a text. -/
theorem stringMethods_null (h : b ∈ stringMethods n) :
    b.op.apply .null vs = .error b.op.noTarget := by
  unfold stringMethods at h
  split at h <;> simp only [List.mem_cons, List.not_mem_nil, or_false] at h
  case h_4 | h_5 =>
    rcases h with rfl | rfl
    · rfl
    · rfl
  all_goals
    subst h
    rfl

/-- A method of text gives a value of its type. -/
theorem stringMethods_text (h : b ∈ stringMethods n) (hvs : ConformsAll host b.parameters vs)
    (s : String) : Fine (Conforms host b.returns) (b.op.apply (.string s) vs) := by
  unfold stringMethods at h
  split at h <;> simp only [List.mem_cons, List.not_mem_nil, or_false] at h
  case h_1 =>
    subst h
    obtain ⟨w, ws, rfl, hw, rfl⟩ := hvs
    exact Intrinsic.onText_fine_boolean hw s.toList .stringContains (by simp)
  case h_2 =>
    subst h
    obtain ⟨w, ws, rfl, hw, rfl⟩ := hvs
    exact Intrinsic.onText_fine_boolean hw s.toList .stringStartsWith (by simp)
  case h_3 =>
    subst h
    obtain ⟨w, ws, rfl, hw, rfl⟩ := hvs
    exact Intrinsic.onText_fine_boolean hw s.toList .stringEndsWith (by simp)
  case h_4 =>
    rcases h with rfl | rfl
    · obtain ⟨w, ws, rfl, hw, rfl⟩ := hvs
      exact Intrinsic.onText_fine_indexOf (.inl hw) s.toList
    · obtain ⟨w, ws, rfl, hw, rfl⟩ := hvs
      exact Intrinsic.onText_fine_indexOf (.inr hw) s.toList
  case h_5 =>
    rcases h with rfl | rfl
    · obtain ⟨w, ws, rfl, hw, rfl⟩ := hvs
      exact Intrinsic.onText_fine_substring hw (.inl rfl) s.toList
    · obtain ⟨w, ws, rfl, hw, x, xs, rfl, hx, rfl⟩ := hvs
      exact Intrinsic.onText_fine_substring hw (.inr ⟨x, rfl, hx⟩) s.toList
  case h_6 | h_7 | h_8 =>
    subst h
    exact .inr ⟨_, rfl⟩

/-- **A built-in method gives a value of its type.** -/
theorem methods_fine (h : b ∈ methods t n) (hv : Conforms host t v)
    (hvs : ConformsAll host b.parameters vs) :
    Fine (Conforms host b.returns) (b.op.apply v vs) := by
  unfold methods at h
  rcases List.mem_append.mp h with ha | hs
  · exact anyMethods_fine ha
  · split at hs
    · rename_i ht
      have ht : t = .prim .string := by
        unfold Ty.isString at ht
        split at ht
        · rfl
        · cases ht
      subst ht
      rcases hv with rfl | ⟨s, rfl⟩
      · rw [stringMethods_null hs]
        rfl
      · exact stringMethods_text hs hvs s
    · cases hs

/-- **A built-in function gives a value of its type.** -/
theorem functions_fine {owner : KnownType} (h : b ∈ functions owner n)
    (hvs : ConformsAll host b.parameters vs) :
    Fine (Conforms host b.returns) (b.op.apply .null vs) := by
  unfold functions at h
  split at h
  · obtain ⟨p, hp, rfl⟩ := List.mem_map.mp h
    obtain ⟨w, ws, rfl, hw, rfl⟩ := hvs
    exact Intrinsic.absolute_fine hp hw
  · obtain ⟨p, -, rfl⟩ := List.mem_map.mp h
    obtain ⟨w, ws, rfl, hw, x, xs, rfl, hx, rfl⟩ := hvs
    exact Intrinsic.extreme_fine .mathMin hw hx
  · obtain ⟨p, -, rfl⟩ := List.mem_map.mp h
    obtain ⟨w, ws, rfl, hw, x, xs, rfl, hx, rfl⟩ := hvs
    exact Intrinsic.extreme_fine .mathMax hw hx
  case h_4 | h_5 | h_6 =>
    obtain ⟨p, hp, rfl⟩ := List.mem_map.mp h
    obtain ⟨w, ws, rfl, hw, rfl⟩ := hvs
    exact Intrinsic.rounded_fine _ hp hw
  · rw [List.mem_singleton.mp h] at hvs ⊢
    obtain ⟨w, ws, rfl, hw, rfl⟩ := hvs
    exact ⟨_, rfl⟩
  · cases h

end Builtin

end QueryExpr
