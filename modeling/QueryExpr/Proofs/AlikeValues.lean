/-
# Values that are alike

The number of a list only tells it from other lists. Two values are alike if they
differ in nothing but the numbers of their lists, where the numbers of the one are
related to those of the other. If no number is related to two others, nothing that
is done with values tells alike ones apart: it comes to the same, or to values that
are alike.

Key definitions: `Value.Alike`, `Value.AlikeAll`, `Matches`, `Value.Flat`.
Key theorems: `Value.Alike.cases`, `Value.Alike.text`,
`Value.Alike.equals`, `Value.Alike.compareKeys`.
-/
import Mathlib.Data.List.Forall2
import Mathlib.Logic.Relator
import QueryExpr.Value

namespace QueryExpr

/-! ### Outcomes -/

/-- If the first outcome is no error, then neither is the second, and what they are
is related. -/
def Matches {α β : Type} (Q : α → β → Prop) (x : Except EvalError α) (y : Except EvalError β) :
    Prop :=
  ∀ a, x = .ok a → ∃ b, y = .ok b ∧ Q a b

namespace Matches

variable {α β γ δ : Type} {Q : α → β → Prop} {S : γ → δ → Prop} {x : Except EvalError α}
  {y : Except EvalError β}

theorem ok {a : α} {b : β} (h : Q a b) : Matches Q (.ok a) (.ok b) := fun _ ha => by
  cases ha
  exact ⟨b, rfl, h⟩

theorem error (e : EvalError) : Matches Q (.error e) y := fun _ h => by cases h

theorem bind {f : α → Except EvalError γ} {g : β → Except EvalError δ} (h : Matches Q x y)
    (hf : ∀ a b, Q a b → Matches S (f a) (g b)) : Matches S (x >>= f) (y >>= g) := by
  intro c hc
  cases x with
  | error e => cases hc
  | ok a =>
    obtain ⟨b, rfl, hab⟩ := h a rfl
    exact hf a b hab c hc

theorem of_eq {Q : α → α → Prop} (hx : ∀ a, x = .ok a → Q a a) {y : Except EvalError α}
    (h : y = x) : Matches Q x y := fun a ha => ⟨a, h.trans ha, hx a ha⟩

end Matches

/-! ### Alike values -/

namespace Value

mutual
/-- The values differ in the numbers of their lists alone, and those are related. -/
def Alike (R : Nat → Nat → Prop) : Value → Value → Prop
  | .scalar s, w => w = .scalar s
  | .list i vs, w => ∃ j ws, w = .list j ws ∧ R i j ∧ AlikeAll R vs ws
  | .record t vs, w => ∃ ws, w = .record t ws ∧ AlikeAll R vs ws
  | .object i name, w => w = .object i name
  | .function i, w => w = .function i
termination_by structural v => v

/-- The values are alike one by one. -/
def AlikeAll (R : Nat → Nat → Prop) : List Value → List Value → Prop
  | [], ws => ws = []
  | v :: vs, ws => ∃ w ws', ws = w :: ws' ∧ Alike R v w ∧ AlikeAll R vs ws'
termination_by structural vs => vs
end

variable {R S : Nat → Nat → Prop} {v v' w w' : Value} {vs vs' ws ws' : List Value}

theorem alikeAll_iff : AlikeAll R vs ws ↔ List.Forall₂ (Alike R) vs ws := by
  induction vs generalizing ws with
  | nil => simp [AlikeAll]
  | cons v vs ih =>
    simp only [AlikeAll, List.forall₂_cons_left_iff, ih]
    constructor
    · rintro ⟨w, ws, rfl, hw, hws⟩
      exact ⟨w, ws, hw, hws, rfl⟩
    · rintro ⟨w, ws, hw, hws, rfl⟩
      exact ⟨w, ws, rfl, hw, hws⟩

theorem AlikeAll.nil : AlikeAll R [] [] := rfl

theorem AlikeAll.cons (h : v.Alike R w) (hs : AlikeAll R vs ws) :
    AlikeAll R (v :: vs) (w :: ws) := ⟨w, ws, rfl, h, hs⟩

theorem alike_scalar (s : Scalar) : (scalar s).Alike R (scalar s) := rfl

/-- What two alike values are. -/
theorem Alike.cases (h : v.Alike R w) :
    (∃ s, v = .scalar s ∧ w = .scalar s) ∨
    (∃ i vs j ws, v = .list i vs ∧ w = .list j ws ∧ R i j ∧ AlikeAll R vs ws) ∨
    (∃ t vs ws, v = .record t vs ∧ w = .record t ws ∧ AlikeAll R vs ws) ∨
    (∃ i name, v = .object i name ∧ w = .object i name) ∨
    (∃ i, v = .function i ∧ w = .function i) := by
  cases v with
  | scalar s => exact .inl ⟨s, rfl, h⟩
  | list i vs =>
    obtain ⟨j, ws, rfl, hij, hvs⟩ := h
    exact .inr (.inl ⟨i, vs, j, ws, rfl, rfl, hij, hvs⟩)
  | record t vs =>
    obtain ⟨ws, rfl, hvs⟩ := h
    exact .inr (.inr (.inl ⟨t, vs, ws, rfl, rfl, hvs⟩))
  | object i name => exact .inr (.inr (.inr (.inl ⟨i, name, rfl, h⟩)))
  | function i => exact .inr (.inr (.inr (.inr ⟨i, rfl, h⟩)))

mutual
theorem Alike.mono (hRS : ∀ i j, R i j → S i j) : ∀ {v w : Value}, v.Alike R w → v.Alike S w
  | .scalar _, _, h | .object _ _, _, h | .function _, _, h => h
  | .list _ _, _, ⟨j, ws, hw, hij, hvs⟩ => ⟨j, ws, hw, hRS _ _ hij, AlikeAll.mono hRS hvs⟩
  | .record _ _, _, ⟨ws, hw, hvs⟩ => ⟨ws, hw, AlikeAll.mono hRS hvs⟩

theorem AlikeAll.mono (hRS : ∀ i j, R i j → S i j) :
    ∀ {vs ws : List Value}, AlikeAll R vs ws → AlikeAll S vs ws
  | [], _, h => h
  | _ :: _, _, ⟨w, ws, hw, hv, hvs⟩ => ⟨w, ws, hw, Alike.mono hRS hv, AlikeAll.mono hRS hvs⟩
end

theorem AlikeAll.length_eq (h : AlikeAll R vs ws) : ws.length = vs.length :=
  (alikeAll_iff.mp h).length_eq.symm

theorem AlikeAll.getElem? (h : AlikeAll R vs ws) (i : Nat) :
    vs[i]? = none ∧ ws[i]? = none ∨ ∃ v w, vs[i]? = some v ∧ ws[i]? = some w ∧ v.Alike R w := by
  rw [alikeAll_iff] at h
  induction h generalizing i with
  | nil => exact .inl ⟨rfl, rfl⟩
  | cons hvw _ ih =>
    cases i with
    | zero => exact .inr ⟨_, _, rfl, rfl, hvw⟩
    | succ i => simpa using ih i

/-! ### What alike values have in common -/

theorem Alike.isNull (h : v.Alike R w) : w.isNull = v.isNull := by
  rcases h.cases with ⟨s, rfl, rfl⟩ | ⟨i, vs, j, ws, rfl, rfl, -⟩ | ⟨t, vs, ws, rfl, rfl, -⟩ |
    ⟨i, name, rfl, rfl⟩ | ⟨i, rfl, rfl⟩ <;> rfl

theorem Alike.boolean? (h : v.Alike R w) : w.boolean? = v.boolean? := by
  rcases h.cases with ⟨s, rfl, rfl⟩ | ⟨i, vs, j, ws, rfl, rfl, -⟩ | ⟨t, vs, ws, rfl, rfl, -⟩ |
    ⟨i, name, rfl, rfl⟩ | ⟨i, rfl, rfl⟩ <;> rfl

theorem Alike.string? (h : v.Alike R w) : w.string? = v.string? := by
  rcases h.cases with ⟨s, rfl, rfl⟩ | ⟨i, vs, j, ws, rfl, rfl, -⟩ | ⟨t, vs, ws, rfl, rfl, -⟩ |
    ⟨i, name, rfl, rfl⟩ | ⟨i, rfl, rfl⟩ <;> rfl

theorem Alike.integer? (h : v.Alike R w) : w.integer? = v.integer? := by
  rcases h.cases with ⟨s, rfl, rfl⟩ | ⟨i, vs, j, ws, rfl, rfl, -⟩ | ⟨t, vs, ws, rfl, rfl, -⟩ |
    ⟨i, name, rfl, rfl⟩ | ⟨i, rfl, rfl⟩ <;> rfl

theorem Alike.compare? (hv : v.Alike R v') (hw : w.Alike R w') :
    v'.compare? w' = v.compare? w := by
  rcases hv.cases with ⟨s, rfl, rfl⟩ | ⟨i, vs, j, ws, rfl, rfl, -⟩ | ⟨t, vs, ws, rfl, rfl, -⟩ |
    ⟨i, name, rfl, rfl⟩ | ⟨i, rfl, rfl⟩
  · rcases hw.cases with ⟨s, rfl, rfl⟩ | ⟨i, vs, j, ws, rfl, rfl, -⟩ | ⟨t, vs, ws, rfl, rfl, -⟩ |
      ⟨i, name, rfl, rfl⟩ | ⟨i, rfl, rfl⟩ <;> rfl
  all_goals rfl

theorem Alike.compareKeys (hv : v.Alike R v') (hw : w.Alike R w') :
    v'.compareKeys w' = v.compareKeys w := by
  rw [Value.compareKeys, Value.compareKeys, hv.isNull, hw.isNull, hv.compare? hw]

mutual
theorem Alike.text : ∀ {v w : Value}, v.Alike R w → w.text = v.text
  | .scalar _, _, h | .object _ _, _, h | .function _, _, h => by rw [h]
  | .list _ _, _, ⟨_, _, hw, _, hvs⟩ => by rw [hw, Value.text, Value.text, AlikeAll.texts hvs]
  | .record _ _, _, ⟨_, hw, hvs⟩ => by
    rw [hw, Value.text, Value.text, AlikeAll.fieldTexts hvs]

theorem AlikeAll.texts : ∀ {vs ws : List Value}, AlikeAll R vs ws → Value.texts ws = Value.texts vs
  | [], _, h => by rw [h]
  | _ :: _, _, ⟨_, _, hw, hv, hvs⟩ => by
    rw [hw, Value.texts, Value.texts, Alike.text hv, AlikeAll.texts hvs]

theorem AlikeAll.fieldTexts : ∀ {vs ws : List Value} {names : List String}, AlikeAll R vs ws →
    Value.fieldTexts names ws = Value.fieldTexts names vs
  | [], _, _, h => by rw [h]
  | _ :: _, _, [], ⟨_, _, hw, _, _⟩ => by rw [hw, Value.fieldTexts, Value.fieldTexts]
  | _ :: _, _, _ :: _, ⟨_, _, hw, hv, hvs⟩ => by
    rw [hw, Value.fieldTexts, Value.fieldTexts, Alike.text hv, AlikeAll.fieldTexts hvs]
end

/-- Related numbers are the same as others just if what they are related to is. -/
theorem beq_of_related (hR : Relator.BiUnique R) {i j i' j' : Nat} (hi : R i i') (hj : R j j') :
    (i' == j') = (i == j) := by
  have h : i = j ↔ i' = j' := ⟨fun h => hR.2 (h ▸ hi) hj, fun h => hR.1 (h ▸ hi) hj⟩
  rw [Bool.eq_iff_iff, beq_iff_eq, beq_iff_eq, h]

mutual
/-- **Alike values are equal to alike values.** -/
theorem Alike.equals (hR : Relator.BiUnique R) : ∀ {v v' w w' : Value}, v.Alike R v' →
    w.Alike R w' → v'.equals w' = v.equals w
  | .scalar s, _, w, _, hv, hw => by
    obtain rfl := hv
    rcases hw.cases with ⟨_, rfl, rfl⟩ | ⟨_, _, _, _, rfl, rfl, -⟩ | ⟨_, _, _, rfl, rfl, -⟩ |
      ⟨_, _, rfl, rfl⟩ | ⟨_, rfl, rfl⟩ <;> rfl
  | .list _ _, _, w, _, ⟨_, _, hv', hij, _⟩, hw => by
    obtain rfl := hv'
    rcases hw.cases with ⟨_, rfl, rfl⟩ | ⟨_, _, _, _, rfl, rfl, hij', -⟩ |
      ⟨_, _, _, rfl, rfl, -⟩ | ⟨_, _, rfl, rfl⟩ | ⟨_, rfl, rfl⟩
    case inr.inl => exact beq_of_related hR hij hij'
    all_goals rfl
  | .record t vs, _, w, _, ⟨_, hv', hvs⟩, hw => by
    obtain rfl := hv'
    rcases hw.cases with ⟨_, rfl, rfl⟩ | ⟨_, _, _, _, rfl, rfl, -⟩ |
      ⟨_, _, _, rfl, rfl, hws⟩ | ⟨_, _, rfl, rfl⟩ | ⟨_, rfl, rfl⟩
    case inr.inr.inl => rw [Value.equals, Value.equals, AlikeAll.equalsAll hR hvs hws]
    all_goals rfl
  | .object _ _, _, w, _, hv, hw => by
    obtain rfl := hv
    rcases hw.cases with ⟨_, rfl, rfl⟩ | ⟨_, _, _, _, rfl, rfl, -⟩ | ⟨_, _, _, rfl, rfl, -⟩ |
      ⟨_, _, rfl, rfl⟩ | ⟨_, rfl, rfl⟩ <;> rfl
  | .function _, _, w, _, hv, hw => by
    obtain rfl := hv
    rcases hw.cases with ⟨_, rfl, rfl⟩ | ⟨_, _, _, _, rfl, rfl, -⟩ | ⟨_, _, _, rfl, rfl, -⟩ |
      ⟨_, _, rfl, rfl⟩ | ⟨_, rfl, rfl⟩ <;> rfl

theorem AlikeAll.equalsAll (hR : Relator.BiUnique R) : ∀ {vs vs' ws ws' : List Value},
    AlikeAll R vs vs' → AlikeAll R ws ws' → Value.equalsAll vs' ws' = Value.equalsAll vs ws
  | [], _, _, _, hv, _ => by
    obtain rfl := hv
    rfl
  | _ :: _, _, [], _, ⟨_, _, hv', _, _⟩, hw => by
    obtain rfl := hv'
    obtain rfl := hw
    rfl
  | _ :: _, _, _ :: _, _, ⟨_, _, hv', hv, hvs⟩, ⟨_, _, hw', hw, hws⟩ => by
    obtain rfl := hv'
    obtain rfl := hw'
    rw [Value.equalsAll, Value.equalsAll, Alike.equals hR hv hw, AlikeAll.equalsAll hR hvs hws]
end

theorem Alike.typeName (h : v.Alike R w) : w.typeName = v.typeName := by
  rcases h.cases with ⟨s, rfl, rfl⟩ | ⟨i, vs, j, ws, rfl, rfl, -⟩ | ⟨t, vs, ws, rfl, rfl, -⟩ |
    ⟨i, name, rfl, rfl⟩ | ⟨i, rfl, rfl⟩ <;> rfl

/-- What can come of the outcome are values without parts. -/
def Flat (x : Except EvalError Value) : Prop := ∀ v, x = .ok v → ∃ s, v = .scalar s

theorem flat_ok (s : Scalar) : Flat (.ok (.scalar s)) := fun _ h => by
  cases h
  exact ⟨s, rfl⟩

theorem flat_error (e : EvalError) : Flat (.error e) := fun _ h => by cases h

theorem flat_bind {α : Type} (x : Except EvalError α) {f : α → Except EvalError Value}
    (hf : ∀ a, Flat (f a)) : Flat (x >>= f) := by
  cases x with
  | error e => exact flat_error e
  | ok a => exact hf a

theorem flat_map {α : Type} (x : Except EvalError α) {f : α → Value}
    (hf : ∀ a, ∃ s, f a = .scalar s) : Flat (x.map f) := fun _ h => by
  cases x <;> cases h
  exact hf _

/-- Equal outcomes without parts match. -/
theorem Flat.matches {x y : Except EvalError Value} (hx : Flat x) (h : y = x) :
    Matches (Alike R) x y := .of_eq (fun v hv => by
  obtain ⟨s, rfl⟩ := hx v hv
  exact alike_scalar s) h

end Value
end QueryExpr
