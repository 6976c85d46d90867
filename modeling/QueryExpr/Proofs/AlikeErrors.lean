/-
# Errors of operations on alike values

Operations that fail on values fail with the same error on values that are alike:
what an error mentions are types, names and numbers that are not the numbers of
lists. So does what is asked of a host that refuses alike what is asked alike.

Key definitions: `Echoes`, `Host.RefusesAlike`, `Host.IsBlind`.
Key theorems: `Echoes.bind`, `Operation.apply_echoes`, `Intrinsic.apply_echoes`,
`Script.isBlind`.
-/
import QueryExpr.Proofs.AlikeOperations

namespace QueryExpr

/-! ### Outcomes -/

/-- The second outcome is the same error as the first, if that is one. -/
def Echoes {α β : Type} (x : Except EvalError α) (y : Except EvalError β) : Prop :=
  ∀ e, x = .error e → y = .error e

namespace Echoes

variable {α β γ δ : Type} {Q : α → β → Prop} {x : Except EvalError α} {y : Except EvalError β}

theorem ok (a : α) : Echoes (.ok a) y := fun _ h => by cases h

theorem error (e : EvalError) :
    Echoes (.error e : Except EvalError α) (.error e : Except EvalError β) :=
  fun _ h => by
    cases h
    rfl

theorem of_eq {x y : Except EvalError α} (h : y = x) : Echoes x y := fun _ he => h.trans he

theorem bind {f : α → Except EvalError γ} {g : β → Except EvalError δ} (h : Matches Q x y)
    (he : Echoes x y) (hf : ∀ a b, Q a b → Echoes (f a) (g b)) : Echoes (x >>= f) (y >>= g) := by
  intro e heq
  cases x with
  | error e' =>
    cases heq
    rw [he _ rfl]
    rfl
  | ok a =>
    obtain ⟨b, rfl, hab⟩ := h a rfl
    exact hf a b hab e heq

end Echoes

open Value (Alike AlikeAll)

variable {R : Nat → Nat → Prop} {v v' w w' : Value} {vs ws : List Value} {host : Host}

/-! ### Conversions, operators and built-in functions -/

theorem Value.Alike.convert_echoes (h : v.Alike R w) (t : Ty) :
    Echoes (v.convert t) (w.convert t) := by
  unfold Value.convert
  cases t.primitive? with
  | none => exact .ok _
  | some p =>
    simp only [h.isNull]
    split
    · exact .ok _
    split
    · exact .ok _
    split
    · exact .error _
    rcases h.cases with ⟨s, rfl, rfl⟩ | ⟨_, _, _, _, rfl, rfl, -⟩ | ⟨_, _, _, rfl, rfl, -⟩ |
      ⟨_, _, rfl, rfl⟩ | ⟨_, rfl, rfl⟩
    · exact .of_eq rfl
    all_goals exact .error _

/-- **An operator fails alike on alike values.** -/
theorem Operation.apply_echoes (op : Operation) (hv : v.Alike R v') (hw : w.Alike R w') :
    Echoes (op.apply v w) (op.apply v' w') := by
  cases op with
  | concat | equal | notEqual | less | lessEqual | greater | greaterEqual => exact .ok _
  | _ => exact .of_eq (arithmetic_alike _ hv hw)

/-- **A built-in function fails alike on alike values.** -/
theorem Intrinsic.apply_echoes (op : Intrinsic) (hv : v.Alike R w) (hs : AlikeAll R vs ws) :
    Echoes (op.apply v vs) (op.apply w ws) := by
  cases op with
  | toString | equals | nullableValue =>
    simp only [apply, hv.isNull]
    split
    · exact .error _
    · exact .ok _
  | getHashCode | nullableHasValue => exact .ok _
  | stringIsNullOrEmpty =>
    simp only [apply]
    split <;> exact .ok _
  | arrayLength =>
    rcases hv.cases with ⟨s, rfl, rfl⟩ | ⟨_, _, _, _, rfl, rfl, -⟩ | ⟨_, _, _, rfl, rfl, -⟩ |
      ⟨_, _, rfl, rfl⟩ | ⟨_, rfl, rfl⟩
    case inr.inl => exact .ok _
    all_goals exact .error _
  | mathAbs => exact .of_eq (absolute_alike hs)
  | mathMin | mathMax =>
    simp only [apply, extreme]
    split
    · split <;> exact .ok _
    · rename_i h
      rw [← hs.length_eq]
      split
      · rename_i a b
        obtain ⟨a', b', hab⟩ : ∃ a' b', vs = [a', b'] := List.length_eq_two.mp hs.length_eq.symm
        exact absurd hab (h _ _)
      · exact .error _
  | mathFloor | mathCeiling | mathRound => exact .of_eq (rounded_alike _ hs)
  | _ =>
    simp only [apply, hv.string?]
    split
    · exact .of_eq (onText_alike _ _ hs)
    · exact .error _

/-! ### Access -/

namespace Value

theorem ofRecord_echoes (t : RecordType) (h : AlikeAll R vs ws) :
    Echoes (ofRecord t vs) (ofRecord t ws) := by
  unfold ofRecord
  rw [h.length_eq]
  split
  · exact .ok _
  · exact .error _

theorem Alike.member_echoes (h : v.Alike R w) (name : String) :
    Echoes (v.member host name) (w.member host name) := by
  unfold Value.member
  rcases h.cases with ⟨s, rfl, rfl⟩ | ⟨_, _, _, _, rfl, rfl, -⟩ | ⟨t, vs, ws, rfl, rfl, hvs⟩ |
    ⟨id, typeName, rfl, rfl⟩ | ⟨_, rfl, rfl⟩
  case inr.inr.inl =>
    dsimp only
    unfold property?
    cases t.position? name with
    | none => exact .error _
    | some i =>
      rw [Option.bind_some, Option.bind_some]
      rcases hvs.getElem? i with ⟨hv, hw⟩ | ⟨a, b, hv, hw, -⟩
      · rw [hv, hw]
        exact .error _
      · rw [hv, hw]
        exact .ok _
  all_goals exact .of_eq rfl

theorem Alike.elements_echoes (h : v.Alike R w) : Echoes (v.elements host) (w.elements host) := by
  unfold Value.elements
  rcases h.cases with ⟨s, rfl, rfl⟩ | ⟨_, _, _, _, rfl, rfl, -⟩ | ⟨_, _, _, rfl, rfl, -⟩ |
    ⟨id, typeName, rfl, rfl⟩ | ⟨_, rfl, rfl⟩
  case inr.inl => exact .ok _
  all_goals exact .of_eq rfl

theorem itemAt_echoes {items items' : List Value} (hi : AlikeAll R items items')
    (h : AlikeAll R vs ws) : Echoes (itemAt items vs) (itemAt items' ws) := by
  unfold itemAt
  rw [position_alike h]
  have hlength := hi.length_eq
  unfold position
  split
  · split
    · split
      · exact .ok _
      · rename_i n _ hn
        rw [dif_neg (hlength ▸ hn)]
        show Echoes (.error (.indexOutOfRange n _)) (.error (.indexOutOfRange n items'.length))
        rw [hlength]
        exact .error _
    · exact .error _
  · exact .error _

end Value

/-! ### What aggregates do with values -/

namespace Eval

theorem addTo_echoes (hR : Relator.BiUnique R) (type : Ty) (h : AlikeAll R vs ws) :
    ∀ {total total' : Value}, total.Alike R total' →
      Echoes (addTo type total vs) (addTo type total' ws) := by
  rw [Value.alikeAll_iff] at h
  induction h with
  | nil => exact fun _ => .ok _
  | cons hvw _ ih =>
    intro total total' ht
    unfold addTo
    exact .bind (hvw.convert type) (hvw.convert_echoes type) fun _ _ hw =>
      .bind (Operation.apply_matches hR .add ht hw) (Operation.apply_echoes .add ht hw)
        fun _ _ ht => ih ht

theorem sum_echoes (hR : Relator.BiUnique R) (type : Ty) (h : AlikeAll R vs ws) :
    Echoes (sum type vs) (sum type ws) :=
  .bind ((Value.alike_scalar _).convert _) (.of_eq rfl) fun _ _ hz =>
    addTo_echoes hR _ (present_alike h) hz

theorem average_echoes (hR : Relator.BiUnique R) (type : Ty) (h : AlikeAll R vs ws) :
    Echoes (average type vs) (average type ws) := by
  unfold average
  refine .bind (sum_matches hR type h) (sum_echoes hR type h) fun a b hab => ?_
  rw [(present_alike h).length_eq]
  dsimp only
  split
  · split
    · exact .ok _
    · exact .error _
  · exact .bind ((Value.alike_scalar _).convert _) (.of_eq rfl) fun _ _ hd =>
      Operation.apply_echoes .divide hab hd

theorem extreme_echoes (o : Ordering) (type : Ty) (h : AlikeAll R vs ws) :
    Echoes (extreme o type vs) (extreme o type ws) := by
  have hp := present_alike h
  unfold extreme
  cases hvs : present vs with
  | nil =>
    rw [hvs] at hp
    have hws : present ws = [] := hp
    rw [hws]
    exact .of_eq rfl
  | cons v rest => exact .ok _

end Eval

/-! ### Hosts -/

/-- The host refuses alike what is asked alike. -/
structure Host.RefusesAlike (host : Host) (R : Nat → Nat → Prop) : Prop where
  call {id : Nat} {typeName method : String} {vs ws : List Value} : AlikeAll R vs ws →
    Echoes (host.call id typeName method vs) (host.call id typeName method ws)
  index {id : Nat} {typeName : String} {vs ws : List Value} : AlikeAll R vs ws →
    Echoes (host.index id typeName vs) (host.index id typeName ws)
  invoke {id : Nat} {vs ws : List Value} : AlikeAll R vs ws →
    Echoes (host.invoke id vs) (host.invoke id ws)

/-- The host ignores the numbers of lists from `n` on, in its answers and in what it
refuses. -/
structure Host.IsBlind (host : Host) (n : Nat) : Prop where
  answers : host.IgnoresNumbers n
  refuses (R : Nat → Nat → Prop) : Relator.BiUnique R → (∀ i < n, R i i) → host.RefusesAlike R

theorem Answer.apply_echoes (a : Answer) (h : AlikeAll R vs ws) :
    Echoes (a.apply vs) (a.apply ws) := by
  cases a with
  | value v => exact .ok _
  | argument i =>
    simp only [apply]
    rcases h.getElem? i with ⟨hv, hw⟩ | ⟨v, w, hv, hw, -⟩
    · rw [hv, hw, h.length_eq]
      exact .error _
    · rw [hv]
      exact .ok _
  | failure => exact .error _

/-- **A scripted host is blind** to all numbers that it does not mention. -/
theorem Script.isBlind {n : Nat} {s : Script} (hs : s.IsBelow n) : s.host.IsBlind n := by
  refine ⟨ignoresNumbers hs, fun R hR hn => { call := ?_, index := ?_, invoke := ?_ }⟩
  · intro id typeName method vs ws hvs
    unfold host
    dsimp only
    split
    · exact Answer.apply_echoes _ hvs
    · exact .error _
  · intro id typeName vs ws hvs
    have hrow : (s.object? id).bind (·.row? ws) = (s.object? id).bind (·.row? vs) :=
      Option.bind_congr fun o ho =>
        ObjectScript.row?_alike (hs.objects _ (mem_of_lookup ho)) hR hn hvs
    unfold host
    dsimp only
    rw [hrow]
    split
    · exact Answer.apply_echoes _ hvs
    · exact .error _
  · intro id vs ws hvs
    unfold host
    dsimp only
    split
    · exact Answer.apply_echoes _ hvs
    · exact .ok _

end QueryExpr
