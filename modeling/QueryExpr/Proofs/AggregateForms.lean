/-
# The forms of aggregates

However many aggregates there are, one is checked in one of four ways: it has
no argument, or a test of each element, or a selector of a value for each
element, or an argument that is a value. What the elements and the values
have to be, and what the whole comes to, is settled by the aggregate.

Key definitions: `Aggregate.plain?`, `Aggregate.tested?`,
`Aggregate.selected?`, `Aggregate.taken?`, `Aggregate.brought`.
Key theorems: `Check.aggregate_one`, `Check.aggregate_cases`,
`Aggregate.selected?_brought`.
-/
import QueryExpr.Proofs.ConversionLaws
import QueryExpr.Typing.Call

namespace QueryExpr

namespace Aggregate

/-- The type of an aggregate without an argument. -/
def plain? (op : Aggregate) (element : Ty) : Option Ty :=
  match op with
  | .any => some .boolean
  | .count => some .int32
  | .first | .firstOrDefault => some element
  | .sum | .average | .min | .max => op.result? element
  | _ => none

/-- The type of an aggregate whose argument is a test. -/
def tested? (op : Aggregate) (element : Ty) : Option Ty :=
  match op with
  | .any | .all => some .boolean
  | .count => some .int32
  | .where => some (.sequence element)
  | .first | .firstOrDefault => some element
  | _ => none

/-- The type of an aggregate whose argument selects values of the given type. -/
def selected? (op : Aggregate) (element value : Ty) : Option Ty :=
  match op with
  | .select => some (.sequence value)
  | .orderBy | .orderByDescending => some (.sequence element)
  | .sum | .average | .min | .max => op.result? value
  | _ => none

/-- What an argument that is a value has to be, and the type of the aggregate. -/
def taken? (op : Aggregate) (element : Ty) : Option (Ty × Ty) :=
  match op with
  | .take | .skip => some (.int32, .sequence element)
  | .contains => some (element, .boolean)
  | _ => none

/-- A selected value in the type that the aggregate works in. -/
def brought (op : Aggregate) (e : Term) : Term :=
  match op.input? e.type with
  | some t => e.convertTo t
  | none => e

/-! ### Values in the type of summation -/

/-- What values are summed up in is summed up in itself. -/
theorem accumulator?_self {t u : Ty} (h : t.accumulator? = some u) :
    u.accumulator? = some u ∧ u.isNullable = t.isNullable := by
  obtain ⟨p, q, hp, rfl, -, -, hq⟩ := Ty.accumulator?_cases h
  rw [Ty.isNullable_lift]
  simp only [List.mem_cons, List.not_mem_nil, or_false] at hq
  rcases hq with rfl | rfl | rfl | rfl | rfl <;> simp [Ty.accumulator?]

/-- What a value is summed up in is a type of numbers that it converts to. -/
theorem input?_cases {op : Aggregate} {t u : Ty} (h : op.input? t = some u) :
    t.accumulator? = some u ∧ t.converts u = true ∧ ∃ q, u = Ty.lift q t.isNullable := by
  have ha : t.accumulator? = some u := by
    unfold input? at h
    split at h
    · exact h
    · exact h
    · cases h
  obtain ⟨p, q, hp, rfl, hn, hw, -⟩ := Ty.accumulator?_cases ha
  exact ⟨ha, Ty.converts_lift hp (Ty.isNumberLike_isValueType hn) hw id, q, rfl⟩

theorem type_brought {op : Aggregate} {e : Term} {u : Ty} (h : op.input? e.type = some u) :
    (op.brought e).type = u := by
  obtain ⟨-, -, q, rfl⟩ := input?_cases h
  simp only [brought, h]
  exact Ty.eq_lift_of_beq (e.type_convertTo_beq _)

/-- A value that has been brought to the type of summation is in it, and the
aggregate comes to the same type. -/
theorem selected?_brought {op : Aggregate} {element t : Ty} {e : Term}
    (h : op.selected? element e.type = some t) :
    op.selected? element (op.brought e).type = some t ∧
      ∀ u, op.input? (op.brought e).type = some u → u = (op.brought e).type := by
  cases hi : op.input? e.type with
  | none =>
    have hb : op.brought e = e := by simp only [brought, hi]
    rw [hb, hi]
    exact ⟨h, fun u hu => by cases hu⟩
  | some u =>
    rw [type_brought hi]
    obtain ⟨ha, -⟩ := input?_cases hi
    obtain ⟨hu, hn⟩ := accumulator?_self ha
    unfold input? at hi ⊢
    split at hi <;> simp_all [selected?, result?]

end Aggregate

namespace Check

section
variable (source : Term) (element : Ty) (op : Aggregate) (span : Span)

theorem aggregate_nil : aggregate source element op [] span =
    match op.plain? element with
    | some t => pure (.aggregate op source t span)
    | none => fail (.noAggregate op.name source.type.display) span := by
  cases op
  case sum | average | min | max =>
    rw [aggregate, Aggregate.plain?]
    cases Aggregate.result? _ element <;> rfl
  all_goals rfl

/-- A single argument is a test, or a value, or else a selector. -/
theorem aggregate_one (m : Check Term) : aggregate source element op [m] span =
    match op.tested? element, op.taken? element with
    | some t, _ => predicate element m >>= fun e => pure (.aggregateBy op source e t span)
    | none, some (u, t) =>
      value m >>= fun e => converted e u >>= fun e => pure (.aggregateWith op source e t span)
    | none, none => body element m >>= fun e =>
      match op.selected? element e.type with
      | some t => pure (.aggregateBy op source (op.brought e) t span)
      | none => fail (.noAggregate op.name source.type.display) span := by
  cases op
  case sum | average | min | max =>
    refine bind_congr fun e => ?_
    rw [Aggregate.selected?]
    cases Aggregate.result? _ e.type <;> rfl
  all_goals rfl

theorem aggregate_more (m n : Check Term) (ms : List (Check Term)) :
    aggregate source element op (m :: n :: ms) span =
      fail (.noAggregate op.name source.type.display) span := by
  cases op <;> rfl

end

/-- The call of a method that is an aggregate's name, on what has elements. -/
theorem method_aggregate {target : Term} {element : Ty} {op : Aggregate} {name : String}
    {arguments : List (Check Term)} {span : Span} (helement : target.type.element? = some element)
    (hop : Aggregate.ofName? name = some op) :
    method target name arguments span = aggregate target element op arguments span := by
  rw [method, helement, hop]

/-- **An aggregate is checked in one of four ways**, or fails. -/
theorem aggregate_cases (source : Term) (element : Ty) (op : Aggregate)
    (arguments : List (Check Term)) (span : Span) :
    (∃ cause, aggregate source element op arguments span = fail cause span) ∨
    (∃ t, arguments = [] ∧ op.plain? element = some t ∧
      aggregate source element op arguments span = pure (.aggregate op source t span)) ∨
    (∃ m t, arguments = [m] ∧ op.tested? element = some t ∧
      aggregate source element op arguments span =
        predicate element m >>= fun e => pure (.aggregateBy op source e t span)) ∨
    (∃ m, arguments = [m] ∧
      aggregate source element op arguments span =
        body element m >>= fun e =>
          match op.selected? element e.type with
          | some t => pure (.aggregateBy op source (op.brought e) t span)
          | none => fail (.noAggregate op.name source.type.display) span) ∨
    (∃ m u t, arguments = [m] ∧ op.taken? element = some (u, t) ∧
      aggregate source element op arguments span =
        value m >>= fun e => converted e u >>= fun e =>
          pure (.aggregateWith op source e t span)) := by
  match arguments with
  | [] =>
    rw [aggregate_nil]
    cases op.plain? element with
    | some t => exact .inr (.inl ⟨t, rfl, rfl, rfl⟩)
    | none => exact .inl ⟨_, rfl⟩
  | [m] =>
    rw [aggregate_one]
    cases op.tested? element with
    | some t => exact .inr (.inr (.inl ⟨m, t, rfl, rfl, rfl⟩))
    | none =>
      cases op.taken? element with
      | some ut => exact .inr (.inr (.inr (.inr ⟨m, _, _, rfl, rfl, rfl⟩)))
      | none => exact .inr (.inr (.inr (.inl ⟨m, rfl, rfl⟩)))
  | m :: n :: ms => exact .inl ⟨_, aggregate_more source element op span m n ms⟩

end Check
end QueryExpr
