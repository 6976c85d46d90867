/-
# Methods that are declared again

A property of a class hides one of the same name in a base. A method does not: the
candidates of a call are collected along the whole chain, and a method that a
nearer class declares again, with the same parameters, is a candidate beside the
other one. Whenever it would be chosen, the call is ambiguous. Every other call is
what it is without the hidden method.

Key definitions: `Ty.withoutMethod`, `Ty.Hides`, `Term.onTarget`, `Check.Picks`.
Key theorems: `Ty.Hides.methods_split`, `Check.method_hidden`.
-/
import Mathlib
import QueryExpr.Lambda.Compile
import QueryExpr.Proofs.CarriedCalls
import QueryExpr.Proofs.LeastCost

namespace QueryExpr

namespace Ty

variable {t u : Ty} {k i : Nat} {name : String} {hidden s : Signature}

/-! ### Declarations along the chain -/

/-- The methods that the type itself declares, in order. -/
def declarations : Ty → List (String × List Ty × Ty)
  | .cls _ _ methods _ _ _ _ => methods
  | _ => []

/-- The method that a class of the chain declares at a place. -/
def declaration? (t : Ty) (k i : Nat) : Option (String × List Ty × Ty) :=
  t.chain[k]?.bind fun u => u.declarations[i]?

/-- The type without the method that a class of its chain declares at a place. -/
def withoutMethod : Nat → Nat → Ty → Ty
  | 0, i, .cls name properties methods indexers element base isValue =>
    .cls name properties (methods.eraseIdx i) indexers element base isValue
  | k + 1, i, .cls name properties methods indexers element (some base) isValue =>
    .cls name properties methods indexers element (some (base.withoutMethod k i)) isValue
  | _, _, t => t

theorem display_withoutMethod (t : Ty) (k i : Nat) : (t.withoutMethod k i).display = t.display := by
  cases k <;> cases t <;> try rfl
  case succ.cls base _ => cases base <;> rfl

theorem element?_withoutMethod (t : Ty) (k i : Nat) :
    (t.withoutMethod k i).element? = t.element? := by
  cases k <;> cases t <;> try rfl
  case succ.cls base _ => cases base <;> rfl

/-- The overloads of a method among declarations. -/
def signatures (name : String) (ms : List (String × List Ty × Ty)) : List Signature :=
  (ms.filter (·.1 == name)).map fun m => ⟨m.2.1, m.2.2⟩

theorem methods_cls (c : String) (ps : List (String × Ty)) (ms : List (String × List Ty × Ty))
    (is : List (List Ty × Ty)) (e b : Option Ty) (v : Bool) (name : String) :
    (cls c ps ms is e b v).methods name =
      signatures name ms ++ b.elim [] (·.methods name) := by
  rw [methods, chain_eq, List.flatMap_cons]
  cases b <;> rfl

theorem signatures_append (name : String) (ms ns : List (String × List Ty × Ty)) :
    signatures name (ms ++ ns) = signatures name ms ++ signatures name ns := by
  simp [signatures]

/-- A method of a class of the chain that a nearer class declares again. -/
structure Hides (t : Ty) (k i : Nat) (name : String) (hidden : Signature) : Prop where
  declared : t.declaration? k i = some (name, hidden.parameters, hidden.returns)
  redeclared : ∃ j < k, ∃ u s, t.chain[j]? = some u ∧ s ∈ u.ownMethods name ∧
    List.Forall₂ Alike s.parameters hidden.parameters

/-- The methods of a name along the chain are those without the one that is
declared at a place, and this one, which is behind those of all nearer classes. -/
theorem methods_split_of_declaration
    (h : t.declaration? k i = some (name, hidden.parameters, hidden.returns)) :
    ∃ before after, t.methods name = before ++ hidden :: after ∧
      (t.withoutMethod k i).methods name = before ++ after ∧
      ∀ j < k, ∀ u, t.chain[j]? = some u → ∀ s ∈ u.ownMethods name, s ∈ before := by
  induction k generalizing t with
  | zero =>
    cases t with
    | cls c ps ms is e b v =>
      have hi : ms[i]? = some (name, hidden.parameters, hidden.returns) := h
      obtain ⟨hlt, hm⟩ := List.getElem?_eq_some_iff.mp hi
      obtain ⟨l, r, rfl, rfl⟩ : ∃ l r, ms = l ++ (name, hidden.parameters, hidden.returns) :: r ∧
          l.length = i :=
        ⟨ms.take i, ms.drop (i + 1), by simp [← hm], by simp; omega⟩
      have hname : ∀ r, signatures name ((name, hidden.parameters, hidden.returns) :: r) =
          hidden :: signatures name r := fun r => by simp [signatures]
      have herase : (l ++ (name, hidden.parameters, hidden.returns) :: r).eraseIdx l.length =
          l ++ r := by simp [List.eraseIdx_append_of_length_le]
      refine ⟨signatures name l, signatures name r ++ b.elim [] (·.methods name), ?_, ?_, ?_⟩
      · rw [methods_cls, signatures_append, hname, List.append_assoc, List.cons_append]
      · rw [withoutMethod, herase, methods_cls, signatures_append, List.append_assoc]
      · intro j hj
        omega
    | _ => simp [declaration?, chain, declarations] at h
  | succ k ih =>
    cases t with
    | cls c ps ms is e b v =>
      cases b with
      | some b =>
        obtain ⟨before, after, hwith, hwithout, hnearer⟩ := ih (t := b) h
        refine ⟨signatures name ms ++ before, after, ?_, ?_, ?_⟩
        · rw [methods_cls, Option.elim_some, hwith, List.append_assoc]
        · rw [withoutMethod, methods_cls, Option.elim_some, hwithout, List.append_assoc]
        · intro j hj u hu s hs
          cases j with
          | zero =>
            cases hu
            exact List.mem_append_left _ hs
          | succ j => exact List.mem_append_right _ (hnearer j (by omega) u hu s hs)
      | none => simp [declaration?, chain, bases] at h
    | _ => simp [declaration?, chain, bases] at h

/-- Where a method is declared again, the other one is a candidate before it. -/
theorem Hides.methods_split (h : t.Hides k i name hidden) :
    ∃ before after s, t.methods name = before ++ hidden :: after ∧
      (t.withoutMethod k i).methods name = before ++ after ∧ s ∈ before ++ after ∧
      List.Forall₂ Alike s.parameters hidden.parameters := by
  obtain ⟨before, after, hwith, hwithout, hnearer⟩ := methods_split_of_declaration h.declared
  obtain ⟨j, hj, u, s, hu, hs, halike⟩ := h.redeclared
  exact ⟨before, after, s, hwith, hwithout,
    List.mem_append_left _ (hnearer j hj u hu s hs), halike⟩

end Ty

/-- The same call on another target. -/
def Term.onTarget (e : Term) : Term → Term
  | .call _ name arguments type span => .call e name arguments type span
  | .aggregate op _ type span => .aggregate op e type span
  | .aggregateBy op _ body type span => .aggregateBy op e body type span
  | .aggregateWith op _ argument type span => .aggregateWith op e argument type span
  | r => r

namespace Check

variable {t : Ty} {k i : Nat} {name : String} {hidden : Signature} {e e' : Term}

/-! ### Aggregates -/

theorem map_fail {α β : Type} (f : α → β) (cause : Cause) (span : Span) :
    f <$> (fail cause span : Check α) = fail cause span := rfl

/-- What an aggregate comes to depends on the elements of its source alone. -/
theorem aggregate_onTarget (hd : e.type.display = e'.type.display) (element : Ty) (op : Aggregate)
    (arguments : List (Check Term)) (span : Span) :
    aggregate e element op arguments span =
      Term.onTarget e <$> aggregate e' element op arguments span := by
  match arguments with
  | [] =>
    rw [aggregate_nil, aggregate_nil, hd]
    cases op.plain? element <;> rfl
  | [m] =>
    rw [aggregate_one, aggregate_one, hd]
    cases op.tested? element with
    | some t =>
      rw [map_bind]
      rfl
    | none =>
      cases op.taken? element with
      | some ut =>
        simp only [map_bind]
        rfl
      | none =>
        rw [map_bind]
        refine bind_congr fun x => ?_
        cases op.selected? element x.type <;> rfl
  | m :: n :: ms => rw [aggregate_more, aggregate_more, hd, map_fail]

theorem isAggregate_withoutMethod (t : Ty) (k i : Nat) (name : String) :
    isAggregate (t.withoutMethod k i) name = isAggregate t name := by
  rw [isAggregate, isAggregate, t.element?_withoutMethod]

/-! ### Calls -/

/-- The call is one of a method with the parameters of the given one. -/
structure Picks (t : Ty) (name : String) (given : Signature) (arguments : List (Check Term))
    (c : Context) (es : List Term) (s : Signature) (d : Context) : Prop where
  plain : isAggregate t name = false
  values : values arguments c = (.ok es, d)
  chosen : Chosen (t.methods name) (·.parameters) es s
  alike : List.Forall₂ Ty.Alike s.parameters given.parameters

/-- An aggregate is none of the methods. -/
theorem aggregate_hidden (he : e.type = t) (he' : e'.type = t.withoutMethod k i)
    (hagg : isAggregate t name = true) (arguments : List (Check Term)) (span : Span) :
    method e name arguments span = Term.onTarget e <$> method e' name arguments span := by
  obtain ⟨helement, hop⟩ := Bool.and_eq_true_iff.mp hagg
  obtain ⟨element, helement⟩ := Option.isSome_iff_exists.mp helement
  obtain ⟨op, hop⟩ := Option.isSome_iff_exists.mp hop
  have helement' := (t.element?_withoutMethod k i).trans helement
  have hdisplay : e.type.display = e'.type.display := by
    rw [he, he', t.display_withoutMethod]
  rw [← he] at helement
  rw [← he'] at helement'
  rw [method_aggregate helement hop, method_aggregate helement' hop, aggregate_onTarget hdisplay]

/-- The call of a host method. -/
theorem method_of_methods (hplain : isAggregate e.type name = false)
    (hsome : (e.type.methods name).isEmpty = false) (arguments : List (Check Term)) (span : Span) :
    method e name arguments span = (values arguments >>= fun es =>
      choose (e.type.methods name) (·.parameters) es name e.type.display span >>= fun s =>
        pure (.call e name (convertArguments es s.parameters) s.returns span)) := by
  rw [method_of_not hplain, hsome]
  rfl

/-- **A method that is declared again is not hidden.** Take the method away that a
nearer class declares again. Where a call is then one of the nearer method, it is
ambiguous with the method in place; every other call is accepted with the same
result, or refused for the same cause, as without it. -/
theorem method_hidden (h : t.Hides k i name hidden) (he : e.type = t)
    (he' : e'.type = t.withoutMethod k i) (arguments : List (Check Term)) (span : Span)
    (c : Context) :
    (∀ es s d, Picks (t.withoutMethod k i) name hidden arguments c es s d →
      method e' name arguments span c =
          (.ok (.call e' name (convertArguments es s.parameters) s.returns span), d) ∧
        method e name arguments span c = (.error ⟨.ambiguousMethod name t.display, span⟩, d)) ∧
    ((∀ es s d, ¬ Picks (t.withoutMethod k i) name hidden arguments c es s d) →
      method e name arguments span c = (Term.onTarget e <$> method e' name arguments span) c) := by
  obtain ⟨before, after, g, hwith, hwithout, hg, halike⟩ := h.methods_split
  by_cases hagg : isAggregate t name = true
  · refine ⟨fun es s d hp => ?_, fun _ => by rw [aggregate_hidden he he' hagg]⟩
    have hplain := hp.plain
    rw [isAggregate_withoutMethod, hagg] at hplain
    cases hplain
  have hplain : isAggregate e.type name = false := by simpa [he] using hagg
  have hplain' : isAggregate e'.type name = false := by
    simpa [he', isAggregate_withoutMethod] using hagg
  have hsome : (e.type.methods name).isEmpty = false := by simp [he, hwith]
  have hsome' : (e'.type.methods name).isEmpty = false := by
    rw [he', hwithout, List.isEmpty_eq_false_iff]
    exact List.ne_nil_of_mem hg
  rw [method_of_methods hplain hsome, method_of_methods hplain' hsome', he, he',
    t.display_withoutMethod, hwith, hwithout]
  refine ⟨fun es s d hp => ?_, fun hnot => ?_⟩
  · have hchosen := hwithout ▸ hp.chosen
    rw [Step.bind_apply, hp.values, Step.bind_apply, hp.values]
    dsimp only
    rw [choose_of_chosen hchosen, choose_insert_tied hchosen (passingCost?_alike es hp.alike)]
    exact ⟨rfl, rfl⟩
  · rw [map_bind, Step.bind_apply, Step.bind_apply]
    rcases hes : values arguments c with ⟨_ | es, d⟩
    · rfl
    have hcost := passingCost?_alike es halike
    dsimp only
    rw [choose_insert_untied hg hcost fun s hs heq => ?_, map_bind]
    · rfl
    · -- what ties with the hidden method is the one that declares it again
      obtain rfl := hs.eq_of_cost hg (hcost.trans heq.symm)
      refine hnot es g d ⟨?_, hes, hwithout ▸ hs, halike⟩
      rwa [← he']

/-- A method that is declared twice with the same parameters is not to be called. -/
theorem method_hidden_twice :
    let base : Ty := .cls "B" [] [("M", [.int32], .int32)] [] none none false
    let derived : Ty := .cls "D" [] [("M", [.int32], .int32)] [] none (some base) false
    let one : Term := .constant (.int32 1) .int32 ⟨4, 1⟩
    let c : Context := ⟨.empty, .ofTable ⟨[], none⟩⟩
    let single : Term := .parameter "d" (derived.withoutMethod 1 0) ⟨0, 1⟩
    derived.Hides 1 0 "M" ⟨[.int32], .int32⟩ ∧
      method single "M" [pure one] ⟨0, 6⟩ c = (.ok (.call single "M" [one] .int32 ⟨0, 6⟩), c) ∧
      method (.parameter "d" derived ⟨0, 1⟩) "M" [pure one] ⟨0, 6⟩ c =
        (.error ⟨.ambiguousMethod "M" "D", ⟨0, 6⟩⟩, c) := by
  intro base derived one c single
  have h : derived.Hides 1 0 "M" ⟨[.int32], .int32⟩ :=
    ⟨rfl, 0, by decide, derived, ⟨[.int32], .int32⟩, rfl, List.mem_singleton_self _,
      .cons ⟨rfl, rfl⟩ .nil⟩
  have hp : Picks (derived.withoutMethod 1 0) "M" ⟨[.int32], .int32⟩ [pure one] c [one]
      ⟨[.int32], .int32⟩ c :=
    ⟨rfl, rfl, ⟨0, by decide, rfl⟩, .cons ⟨rfl, rfl⟩ .nil⟩
  have he : (Term.parameter "d" derived ⟨0, 1⟩).type = derived := rfl
  have he' : single.type = derived.withoutMethod 1 0 := rfl
  exact ⟨h, (method_hidden h he he' [pure one] ⟨0, 6⟩ c).1 _ _ _ hp⟩

end Check

set_option maxRecDepth 2000 in
/-- A call of a method that is declared again is ambiguous, and is not without the
method of the base. -/
theorem Lambda.compile_ambiguous_hidden :
    let base : Ty := .cls "B" [] [("M", [.int32], .int32)] [] none none false
    let derived : Ty := .cls "D" [] [("M", [.int32], .int32)] [] none (some base) false
    derived.Hides 1 0 "M" ⟨[.int32], .int32⟩ ∧
      compile {} [⟨"d", derived⟩] none .inferred "d.M(1)" .empty =
        (.error ⟨.ambiguousMethod "M" "D", ⟨0, 6⟩⟩, .empty) ∧
      ∃ f, compile {} [⟨"d", derived.withoutMethod 1 0⟩] none .inferred "d.M(1)" .empty =
        (.ok f, .empty) := by
  intro base derived
  have h : derived.Hides 1 0 "M" ⟨[.int32], .int32⟩ :=
    ⟨rfl, 0, by decide, derived, ⟨[.int32], .int32⟩, rfl, List.mem_singleton_self _,
      .cons ⟨rfl, rfl⟩ .nil⟩
  have hcall : compile {} [⟨"d", derived.withoutMethod 1 0⟩] none .inferred "d.M(1)" .empty =
      (.ok ⟨[⟨"d", derived.withoutMethod 1 0⟩], .call (.parameter "d" (derived.withoutMethod 1 0)
        ⟨0, 1⟩) "M" [.constant (.int32 1) .int32 ⟨4, 1⟩] .int32 ⟨0, 6⟩, .int32,
        .ofDelegate none [⟨"d", derived.withoutMethod 1 0⟩] .int32⟩, .empty) := by
    with_unfolding_all rfl
  exact ⟨h, by with_unfolding_all rfl, _, hcall⟩

end QueryExpr
