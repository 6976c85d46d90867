/-
# Operations on alike values

Conversions, operators, built-in functions and what aggregates do with values they
have got come to the same on values that are alike, or to values that are alike.
So does what is asked of a host, if the host does not look at the numbers of lists.

Key definitions: `Host.Respects`, `Host.IgnoresNumbers`, `Script.IsBelow`.
Key theorems: `Value.Alike.convert`, `Operation.apply_matches`,
`Intrinsic.apply_matches`, `Script.ignoresNumbers`, `Value.Alike.member`,
`Eval.sortedBy_alike`.
-/
import Mathlib.Data.List.Find
import QueryExpr.Eval.Access
import QueryExpr.Eval.Arithmetic
import QueryExpr.Eval.Builtin
import QueryExpr.Eval.Script
import QueryExpr.Eval.Sequence
import QueryExpr.Proofs.AlikeValues
import QueryExpr.Proofs.StableOrder

namespace QueryExpr

namespace Value

variable {R : Nat → Nat → Prop} {v w : Value}

/-! ### Conversions and operators -/

theorem flat_cast (p : Prim) (v : Value) : Flat (v.cast p) := by
  unfold Value.cast
  split
  · split
    · exact flat_ok _
    · exact flat_error _
  · exact flat_error _

/-- **Alike values convert to alike values.** -/
theorem Alike.convert (h : v.Alike R w) (t : Ty) :
    Matches (Alike R) (v.convert t) (w.convert t) := by
  unfold Value.convert
  cases t.primitive? with
  | none => exact .ok h
  | some p =>
    simp only [h.isNull]
    split
    · exact .ok (alike_scalar _)
    split
    · exact .ok h
    split
    · exact .error _
    rcases h.cases with ⟨s, rfl, rfl⟩ | ⟨_, _, _, _, rfl, rfl, -⟩ | ⟨_, _, _, rfl, rfl, -⟩ |
      ⟨_, _, rfl, rfl⟩ | ⟨_, rfl, rfl⟩
    · exact (flat_cast p _).matches rfl
    all_goals exact .error _

end Value

open Value (Alike AlikeAll Flat flat_ok flat_error flat_bind flat_map)

variable {R : Nat → Nat → Prop} {v v' w w' : Value} {vs ws : List Value}

theorem UnaryOp.apply_alike (op : UnaryOp) (h : v.Alike R w) : op.apply w = op.apply v := by
  unfold apply
  rw [h.isNull]
  rcases h.cases with ⟨s, rfl, rfl⟩ | ⟨_, _, _, _, rfl, rfl, -⟩ | ⟨_, _, _, rfl, rfl, -⟩ |
    ⟨_, _, rfl, rfl⟩ | ⟨_, rfl, rfl⟩ <;> first | rfl | (cases op <;> rfl)

theorem UnaryOp.flat_apply (op : UnaryOp) (v : Value) : Flat (op.apply v) := by
  unfold apply
  split
  · exact flat_ok _
  split
  · exact flat_ok _
  · split
    · exact flat_ok _
    · exact flat_error _
  · exact flat_ok _
  · exact flat_ok _
  · exact flat_ok _
  · exact flat_error _

namespace Operation

theorem arithmetic_alike (op : Operation) (hv : v.Alike R v') (hw : w.Alike R w') :
    op.arithmetic v' w' = op.arithmetic v w := by
  unfold arithmetic
  simp only [hv.isNull, hw.isNull, hv.typeName, hw.typeName]
  rcases hv.cases with ⟨s, rfl, rfl⟩ | ⟨_, _, _, _, rfl, rfl, -⟩ | ⟨_, _, _, rfl, rfl, -⟩ |
    ⟨_, _, rfl, rfl⟩ | ⟨_, rfl, rfl⟩
  · rcases hw.cases with ⟨t, rfl, rfl⟩ | ⟨_, _, _, _, rfl, rfl, -⟩ | ⟨_, _, _, rfl, rfl, -⟩ |
      ⟨_, _, rfl, rfl⟩ | ⟨_, rfl, rfl⟩
    · rfl
    all_goals cases s <;> rfl
  all_goals rfl

theorem flat_arithmetic (op : Operation) (v w : Value) : Flat (op.arithmetic v w) := by
  unfold arithmetic
  split
  · exact flat_ok _
  split
  · split
    · exact flat_map _ fun _ => ⟨_, rfl⟩
    · exact flat_error _
  · exact flat_map _ fun _ => ⟨_, rfl⟩
  · exact flat_map _ fun _ => ⟨_, rfl⟩
  · exact flat_map _ fun _ => ⟨_, rfl⟩
  · exact flat_error _

/-- **An operator comes to the same on alike values.** -/
theorem apply_matches (hR : Relator.BiUnique R) (op : Operation) (hv : v.Alike R v')
    (hw : w.Alike R w') : Matches (Alike R) (op.apply v w) (op.apply v' w') := by
  cases op with
  | concat =>
    refine (flat_ok _).matches ?_
    simp only [apply, hv.text, hw.text]
    rfl
  | equal | notEqual =>
    refine (flat_ok _).matches ?_
    simp only [apply, hv.equals hR hw]
    rfl
  | less | lessEqual | greater | greaterEqual =>
    refine (flat_ok _).matches ?_
    simp only [apply, hv.compare? hw]
    rfl
  | _ => exact (flat_arithmetic _ v w).matches (arithmetic_alike _ hv hw)

end Operation

/-! ### Built-in functions -/

namespace Intrinsic

theorem head?_alike (h : AlikeAll R vs ws) :
    vs.head? = none ∧ ws.head? = none ∨
      ∃ v w, vs.head? = some v ∧ ws.head? = some w ∧ v.Alike R w := by
  cases vs with
  | nil =>
    obtain rfl := h
    exact .inl ⟨rfl, rfl⟩
  | cons v vs =>
    obtain ⟨w, ws, rfl, hv, -⟩ := h
    exact .inr ⟨v, w, rfl, rfl, hv⟩

theorem textArgument_alike (h : AlikeAll R vs ws) (i : Nat) :
    textArgument ws i = textArgument vs i := by
  unfold textArgument
  rcases h.getElem? i with ⟨hv, hw⟩ | ⟨v, w, hv, hw, hvw⟩
  · rw [hv, hw, h.length_eq]
  · simp only [hv, hw, hvw.string?, hvw.isNull, hvw.typeName]

theorem integerArgument_alike (h : AlikeAll R vs ws) (i : Nat) :
    integerArgument ws i = integerArgument vs i := by
  unfold integerArgument
  rcases h.getElem? i with ⟨hv, hw⟩ | ⟨v, w, hv, hw, hvw⟩
  · rw [hv, hw, h.length_eq]
  · simp only [hv, hw, Option.bind_some, hvw.integer?, h.length_eq]

theorem needle_alike (h : AlikeAll R vs ws) : needle ws = needle vs := by
  unfold needle
  rw [textArgument_alike h]
  rcases head?_alike h with ⟨hv, hw⟩ | ⟨v, w, hv, hw, hvw⟩
  · rw [hv, hw]
  · rw [hv, hw]
    rcases hvw.cases with ⟨s, rfl, rfl⟩ | ⟨_, _, _, _, rfl, rfl, -⟩ | ⟨_, _, _, rfl, rfl, -⟩ |
      ⟨_, _, rfl, rfl⟩ | ⟨_, rfl, rfl⟩ <;> rfl

theorem absolute_alike (h : AlikeAll R vs ws) : absolute ws = absolute vs := by
  unfold absolute
  rw [h.length_eq]
  rcases head?_alike h with ⟨hv, hw⟩ | ⟨v, w, hv, hw, hvw⟩
  · rw [hv, hw]
  · rw [hv, hw]
    rcases hvw.cases with ⟨s, rfl, rfl⟩ | ⟨_, _, _, _, rfl, rfl, -⟩ | ⟨_, _, _, rfl, rfl, -⟩ |
      ⟨_, _, rfl, rfl⟩ | ⟨_, rfl, rfl⟩ <;> rfl

theorem flat_absolute (vs : List Value) : Flat (absolute vs) := by
  unfold absolute
  split
  · split
    · exact flat_ok _
    · exact flat_error _
  · exact flat_ok _
  · exact flat_ok _
  · exact flat_ok _
  · exact flat_error _

theorem rounded_alike (op : Intrinsic) (h : AlikeAll R vs ws) : op.rounded ws = op.rounded vs := by
  unfold rounded
  rw [h.length_eq]
  rcases head?_alike h with ⟨hv, hw⟩ | ⟨v, w, hv, hw, hvw⟩
  · rw [hv, hw]
  · rw [hv, hw]
    rcases hvw.cases with ⟨s, rfl, rfl⟩ | ⟨_, _, _, _, rfl, rfl, -⟩ | ⟨_, _, _, rfl, rfl, -⟩ |
      ⟨_, _, rfl, rfl⟩ | ⟨_, rfl, rfl⟩ <;> rfl

theorem flat_rounded (op : Intrinsic) (vs : List Value) : Flat (op.rounded vs) := by
  unfold rounded
  split
  · exact flat_ok _
  · exact flat_ok _
  · exact flat_error _

theorem extreme_matches (op : Intrinsic) (h : AlikeAll R vs ws) :
    Matches (Alike R) (op.extreme vs) (op.extreme ws) := by
  unfold extreme
  split
  · rename_i a b
    obtain ⟨a', _, rfl, ha, b', _, rfl, hb, rfl⟩ := h
    simp only [ha.compare? hb]
    split <;> split <;> first | exact .ok ha | exact .ok hb
  · exact .error _

theorem onText_alike (op : Intrinsic) (cs : List Char) (h : AlikeAll R vs ws) :
    op.onText cs ws = op.onText cs vs := by
  unfold onText
  simp only [textArgument_alike h, needle_alike h, integerArgument_alike h, h.length_eq]

theorem flat_onText (op : Intrinsic) (cs : List Char) (vs : List Value) :
    Flat (op.onText cs vs) := by
  unfold onText
  split
  case h_5 =>
    refine flat_map _ fun s => ?_
    cases Text.find? s cs <;> exact ⟨_, rfl⟩
  case h_6 =>
    refine flat_bind _ fun start => ?_
    dsimp only
    split <;> exact flat_bind _ fun _ => flat_map _ fun _ => ⟨_, rfl⟩
  all_goals first
    | exact flat_ok _
    | exact flat_map _ fun _ => ⟨_, rfl⟩
    | exact flat_error _

/-- **A built-in function comes to the same on alike values.** -/
theorem apply_matches (hR : Relator.BiUnique R) (op : Intrinsic) (hv : v.Alike R w)
    (hs : AlikeAll R vs ws) : Matches (Alike R) (op.apply v vs) (op.apply w ws) := by
  cases op with
  | toString =>
    simp only [apply, hv.isNull, hv.text]
    split
    · exact .error _
    · exact .ok (Value.alike_scalar _)
  | equals =>
    simp only [apply, hv.isNull]
    split
    · exact .error _
    · refine (flat_ok _).matches ?_
      rcases head?_alike hs with ⟨h, h'⟩ | ⟨a, b, h, h', hab⟩
      · rw [h, h']
        rfl
      · rw [h, h', Option.any_some, Option.any_some, hv.equals hR hab]
        rfl
  | getHashCode =>
    simp only [apply, hv.text]
    exact .ok (Value.alike_scalar _)
  | stringIsNullOrEmpty =>
    simp only [apply]
    rcases head?_alike hs with ⟨h, h'⟩ | ⟨a, b, h, h', hab⟩
    · rw [h, h']
      exact .ok (Value.alike_scalar _)
    · simp only [h, h', hab.isNull, hab.string?]
      exact .ok (Value.alike_scalar _)
  | arrayLength =>
    rcases hv.cases with ⟨s, rfl, rfl⟩ | ⟨_, _, _, _, rfl, rfl, -, hi⟩ | ⟨_, _, _, rfl, rfl, -⟩ |
      ⟨_, _, rfl, rfl⟩ | ⟨_, rfl, rfl⟩
    case inr.inl =>
      simp only [apply, hi.length_eq]
      exact .ok (Value.alike_scalar _)
    all_goals exact .error _
  | nullableHasValue =>
    simp only [apply, hv.isNull]
    exact .ok (Value.alike_scalar _)
  | nullableValue =>
    simp only [apply, hv.isNull]
    split
    · exact .error _
    · exact .ok hv
  | mathAbs => exact (flat_absolute _).matches (absolute_alike hs)
  | mathMin | mathMax => exact extreme_matches _ hs
  | mathFloor | mathCeiling | mathRound => exact (flat_rounded _ _).matches (rounded_alike _ hs)
  | _ =>
    simp only [apply, hv.string?]
    split
    · exact (flat_onText _ _ _).matches (onText_alike _ _ hs)
    · exact .error _

end Intrinsic

/-! ### Hosts -/

/-- The host answers alike what is asked alike, and its own lists have numbers that
are related to themselves. -/
structure Host.Respects (host : Host) (R : Nat → Nat → Prop) : Prop where
  field {id : Nat} {typeName name : String} {v : Value} :
    host.field id typeName name = some v → v.Alike R v
  elements {id : Nat} {typeName : String} {items : List Value} :
    host.elements id typeName = some items → AlikeAll R items items
  call {id : Nat} {typeName method : String} {vs ws : List Value} : AlikeAll R vs ws →
    Matches (Alike R) (host.call id typeName method vs) (host.call id typeName method ws)
  index {id : Nat} {typeName : String} {vs ws : List Value} : AlikeAll R vs ws →
    Matches (Alike R) (host.index id typeName vs) (host.index id typeName ws)
  invoke {id : Nat} {vs ws : List Value} : AlikeAll R vs ws →
    Matches (Alike R) (host.invoke id vs) (host.invoke id ws)

/-- The lists of the host have numbers below `n`, and it tells other lists only from
each other. -/
def Host.IgnoresNumbers (host : Host) (n : Nat) : Prop :=
  ∀ R, Relator.BiUnique R → (∀ i < n, R i i) → host.Respects R

/-- The lists of the value have numbers below `n`. -/
def Value.IsBelow (n : Nat) (v : Value) : Prop := v.Alike (fun i j => i = j ∧ i < n) v

theorem Value.IsBelow.alike {n : Nat} (h : v.IsBelow n) (hR : ∀ i < n, R i i) : v.Alike R v :=
  h.mono fun i _ hij => hij.1 ▸ hR i hij.2

theorem alikeAll_of_isBelow {n : Nat} (h : ∀ v ∈ vs, v.IsBelow n) (hR : ∀ i < n, R i i) :
    AlikeAll R vs vs :=
  Value.alikeAll_iff.mpr (List.forall₂_same.mpr fun v hv => (h v hv).alike hR)

/-- The lists in the answer have numbers below `n`. -/
def Answer.IsBelow (n : Nat) : Answer → Prop
  | .value v => v.IsBelow n
  | .argument _ | .failure => True

/-- The lists in the answers of the object have numbers below `n`. -/
structure ObjectScript.IsBelow (n : Nat) (o : ObjectScript) : Prop where
  fields : ∀ p ∈ o.fields, p.2.IsBelow n
  methods : ∀ p ∈ o.methods, p.2.IsBelow n
  rows : ∀ r ∈ o.rows, (∀ v ∈ r.1, v.IsBelow n) ∧ r.2.IsBelow n
  elements : ∀ items, o.elements = some items → ∀ v ∈ items, v.IsBelow n

/-- The lists that the script mentions have numbers below `n`. -/
structure Script.IsBelow (n : Nat) (s : Script) : Prop where
  objects : ∀ p ∈ s.objects, p.2.IsBelow n
  functions : ∀ p ∈ s.functions, p.2.IsBelow n

theorem mem_of_lookup {α β : Type} [BEq α] [LawfulBEq α] {a : α} {b : β} {l : List (α × β)}
    (h : l.lookup a = some b) : (a, b) ∈ l := by
  obtain ⟨l₁, l₂, rfl, -⟩ := List.lookup_eq_some_iff.mp h
  simp

theorem Answer.apply_matches {n : Nat} {a : Answer} (ha : a.IsBelow n) (hR : ∀ i < n, R i i)
    (h : AlikeAll R vs ws) : Matches (Alike R) (a.apply vs) (a.apply ws) := by
  cases a with
  | value v => exact .ok (Value.IsBelow.alike ha hR)
  | argument i =>
    simp only [apply]
    rcases h.getElem? i with ⟨hv, hw⟩ | ⟨v, w, hv, hw, hvw⟩
    · rw [hv, hw]
      exact .error _
    · rw [hv, hw]
      exact .ok hvw
  | failure => exact .error _

/-- Alike keys find the same row. -/
theorem ObjectScript.row?_alike {n : Nat} {o : ObjectScript} (ho : o.IsBelow n)
    (hR : Relator.BiUnique R) (hn : ∀ i < n, R i i) (h : AlikeAll R vs ws) :
    o.row? ws = o.row? vs := by
  unfold row?
  refine congrArg _ (List.find?_congr fun row hrow => ?_)
  rw [h.length_eq, (alikeAll_of_isBelow (ho.rows row hrow).1 hn).equalsAll hR h]

/-- **A scripted host ignores the numbers of lists**, but for those that it mentions. -/
theorem Script.ignoresNumbers {n : Nat} {s : Script} (hs : s.IsBelow n) :
    s.host.IgnoresNumbers n := by
  intro R hR hn
  have hobject {id : Nat} {o : ObjectScript} (h : s.object? id = some o) : o.IsBelow n :=
    hs.objects _ (mem_of_lookup h)
  refine { field := ?_, elements := ?_, call := ?_, index := ?_, invoke := ?_ }
  · intro id typeName name v h
    obtain ⟨o, ho, hv⟩ := Option.bind_eq_some_iff.mp h
    have hmem := List.mem_reverse.mp (mem_of_lookup hv)
    exact ((hobject ho).fields _ hmem).alike hn
  · intro id typeName items h
    obtain ⟨o, ho, hi⟩ := Option.bind_eq_some_iff.mp h
    exact alikeAll_of_isBelow ((hobject ho).elements items hi) hn
  · intro id typeName method vs ws hvs
    unfold host
    dsimp only
    split
    · rename_i answer h
      obtain ⟨o, ho, hm⟩ := Option.bind_eq_some_iff.mp h
      exact Answer.apply_matches ((hobject ho).methods _ (mem_of_lookup hm)) hn hvs
    · exact .error _
  · intro id typeName vs ws hvs
    have hrow : (s.object? id).bind (·.row? ws) = (s.object? id).bind (·.row? vs) :=
      Option.bind_congr fun o ho => ObjectScript.row?_alike (hobject ho) hR hn hvs
    unfold host
    dsimp only
    rw [hrow]
    split
    · rename_i answer h
      obtain ⟨o, ho, hr⟩ := Option.bind_eq_some_iff.mp h
      obtain ⟨row, hrow, rfl⟩ := Option.map_eq_some_iff.mp hr
      exact Answer.apply_matches ((hobject ho).rows row (List.mem_of_find?_eq_some hrow)).2 hn hvs
    · exact .error _
  · intro id vs ws hvs
    unfold host
    dsimp only
    split
    · rename_i answer h
      exact Answer.apply_matches (hs.functions _ (mem_of_lookup h)) hn hvs
    · exact .ok (Value.alike_scalar _)

variable {host : Host}

namespace Value

theorem ofRecord_matches (t : RecordType) (h : AlikeAll R vs ws) :
    Matches (Alike R) (ofRecord t vs) (ofRecord t ws) := by
  unfold ofRecord
  rw [h.length_eq]
  split
  · exact .ok ⟨ws, rfl, h⟩
  · exact .error _

theorem Alike.member (hh : host.Respects R) (h : v.Alike R w) (name : String) :
    Matches (Alike R) (v.member host name) (w.member host name) := by
  unfold Value.member
  rcases h.cases with ⟨s, rfl, rfl⟩ | ⟨_, _, _, _, rfl, rfl, -⟩ | ⟨t, vs, ws, rfl, rfl, hvs⟩ |
    ⟨id, typeName, rfl, rfl⟩ | ⟨_, rfl, rfl⟩
  case inr.inr.inl =>
    dsimp only
    unfold property?
    cases t.position? name with
    | none => exact .error _
    | some i =>
      rw [Option.bind_some, Option.bind_some]
      rcases hvs.getElem? i with ⟨hv, hw⟩ | ⟨a, b, hv, hw, hab⟩
      · rw [hv, hw]
        exact .error _
      · rw [hv, hw]
        exact .ok hab
  case inr.inr.inr.inl =>
    dsimp only
    cases hf : host.field id typeName name with
    | none => exact .error _
    | some a => exact .ok (hh.field hf)
  all_goals
    dsimp only
    split <;> exact .error _

theorem Alike.elements (hh : host.Respects R) (h : v.Alike R w) :
    Matches (AlikeAll R) (v.elements host) (w.elements host) := by
  unfold Value.elements
  rcases h.cases with ⟨s, rfl, rfl⟩ | ⟨_, _, _, _, rfl, rfl, -, hi⟩ | ⟨_, _, _, rfl, rfl, -⟩ |
    ⟨id, typeName, rfl, rfl⟩ | ⟨_, rfl, rfl⟩
  case inr.inl => exact .ok hi
  case inr.inr.inr.inl =>
    dsimp only
    cases he : host.elements id typeName with
    | none => exact .error _
    | some items => exact .ok (hh.elements he)
  all_goals
    dsimp only
    split <;> exact .error _

theorem position_alike (h : AlikeAll R vs ws) (n : Nat) : position ws n = position vs n := by
  cases vs with
  | nil =>
    obtain rfl := h
    rfl
  | cons v vs =>
    obtain ⟨w, ws, rfl, hv, hvs⟩ := h
    cases vs with
    | nil =>
      obtain rfl := hvs
      simp only [position, hv.integer?]
    | cons =>
      obtain ⟨_, _, rfl, -, hvs⟩ := hvs
      simp only [position, List.length_cons, hvs.length_eq]

/-- An item that an index finds in a list is found in an alike list. -/
theorem itemAt_matches {items items' : List Value} (hi : AlikeAll R items items')
    (h : AlikeAll R vs ws) : Matches (Alike R) (itemAt items vs) (itemAt items' ws) := by
  unfold itemAt
  rw [position_alike h]
  have hlength := hi.length_eq
  have hitem : ∀ i : Fin items.length, ∀ hi' : i.val < items'.length,
      Alike R items[i] items'[i.val] := by
    intro i hi'
    rcases hi.getElem? i with ⟨hv, -⟩ | ⟨v, w, hv, hw, hvw⟩
    · simp at hv
    · rw [List.getElem?_eq_getElem i.isLt] at hv
      rw [List.getElem?_eq_getElem hi'] at hw
      cases hv
      cases hw
      exact hvw
  unfold position
  split
  · split
    · split
      · rename_i n _ hn
        rw [dif_pos (hlength ▸ hn)]
        exact .ok (hitem ⟨n.toNat, by omega⟩ (by simp only; omega))
      · exact .error _
    · exact .error _
  · exact .error _

theorem itemAt_text_alike {α : Type} (items : List α) (h : AlikeAll R vs ws) :
    itemAt items ws = itemAt items vs := by
  unfold itemAt
  rw [position_alike h]

end Value

/-! ### What aggregates do with values -/

namespace Eval

theorem present_alike (h : AlikeAll R vs ws) : AlikeAll R (present vs) (present ws) := by
  rw [Value.alikeAll_iff] at h ⊢
  unfold present
  induction h with
  | nil => exact .nil
  | cons hvw _ ih =>
    rw [List.filter_cons, List.filter_cons, hvw.isNull]
    split
    · exact .cons hvw ih
    · exact ih

theorem addTo_matches (hR : Relator.BiUnique R) (type : Ty) (h : AlikeAll R vs ws) :
    ∀ {total total' : Value}, total.Alike R total' →
      Matches (Alike R) (addTo type total vs) (addTo type total' ws) := by
  rw [Value.alikeAll_iff] at h
  induction h with
  | nil => exact fun ht => .ok ht
  | cons hvw _ ih =>
    intro total total' ht
    unfold addTo
    exact (hvw.convert type).bind fun _ _ hw =>
      (Operation.apply_matches hR .add ht hw).bind fun _ _ ht => ih ht

theorem sum_matches (hR : Relator.BiUnique R) (type : Ty) (h : AlikeAll R vs ws) :
    Matches (Alike R) (sum type vs) (sum type ws) :=
  ((Value.alike_scalar _).convert _).bind fun _ _ hz =>
    addTo_matches hR _ (present_alike h) hz

theorem average_matches (hR : Relator.BiUnique R) (type : Ty) (h : AlikeAll R vs ws) :
    Matches (Alike R) (average type vs) (average type ws) := by
  unfold average
  refine (sum_matches hR type h).bind fun a b hab => ?_
  rw [(present_alike h).length_eq]
  dsimp only
  split
  · split
    · exact .ok (Value.alike_scalar _)
    · exact .error _
  · exact ((Value.alike_scalar _).convert _).bind fun _ _ hd =>
      Operation.apply_matches hR .divide hab hd

theorem outermost_alike (o : Ordering) (h : AlikeAll R vs ws) :
    ∀ {best best' : Value}, best.Alike R best' →
      (outermost o best vs).Alike R (outermost o best' ws) := by
  rw [Value.alikeAll_iff] at h
  induction h with
  | nil => exact fun hb => hb
  | cons hvw _ ih =>
    intro best best' hb
    unfold outermost
    rw [hvw.compare? hb]
    split
    · exact ih hvw
    · exact ih hb

theorem extreme_matches (o : Ordering) (type : Ty) (h : AlikeAll R vs ws) :
    Matches (Alike R) (extreme o type vs) (extreme o type ws) := by
  have hp := present_alike h
  unfold extreme
  cases hvs : present vs with
  | nil =>
    rw [hvs] at hp
    have hws : present ws = [] := hp
    rw [hws]
    dsimp only
    split
    · exact .ok (Value.alike_scalar _)
    · exact .error _
  | cons v rest =>
    rw [hvs] at hp
    obtain ⟨w, rest', hws, hvw, hrest⟩ := hp
    rw [hws]
    exact .ok (outermost_alike o hrest hvw)

/-- Elements that are alike stand in the same order if their keys are alike. -/
theorem sortedBy_alike {compare : Value → Value → Ordering}
    (hcompare : ∀ {a b a' b' : Value}, a.Alike R a' → b.Alike R b' → compare a' b' = compare a b)
    {keys keys' : List Value} (hk : AlikeAll R keys keys') (h : AlikeAll R vs ws) :
    AlikeAll R (sortedBy compare keys vs) (sortedBy compare keys' ws) := by
  rw [Value.alikeAll_iff] at hk h ⊢
  unfold sortedBy
  let P (a b : Value × Value) : Prop := a.1.Alike R b.1 ∧ a.2.Alike R b.2
  have hzip : List.Forall₂ P (keys.zip vs) (keys'.zip ws) := by
    induction hk generalizing vs ws with
    | nil => exact .nil
    | cons hkk _ ih =>
      cases h with
      | nil => exact .nil
      | cons hvw hs => exact .cons ⟨hkk, hvw⟩ (ih hs)
  let byKey (a b : Value × Value) : Ordering := compare a.1 b.1
  have hsorted : List.Forall₂ P (Ordering.stableSort byKey (keys.zip vs))
      (Ordering.stableSort byKey (keys'.zip ws)) :=
    Ordering.stableSort_forall₂ (fun a b a' b' ha hb => (hcompare ha.1 hb.1).symm) hzip
  exact List.forall₂_map_left_iff.mpr (List.forall₂_map_right_iff.mpr
    (hsorted.imp fun _ _ h => h.2))

theorem default_alike (type : Ty) : (Value.default type).Alike R (Value.default type) := by
  unfold Value.default
  split
  · exact Value.alike_scalar _
  · split <;> exact Value.alike_scalar _
  · exact Value.alike_scalar _

theorem any_alike {p q : Value → Bool} (hpq : ∀ a b, a.Alike R b → q b = p a)
    (h : AlikeAll R vs ws) : ws.any q = vs.any p := by
  rw [Value.alikeAll_iff] at h
  induction h with
  | nil => rfl
  | cons hab _ ih => rw [List.any_cons, List.any_cons, ih, hpq _ _ hab]

end Eval
end QueryExpr
