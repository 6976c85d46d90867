/-
# Integer arithmetic is exact up to the range

The operators of arithmetic on integers of one type are those on integers
without bounds, reduced to the range of the type. So a term of integers that is
made by the rules of typing comes to its exact value, or divides by zero where
it has none, if names are bound to integers of their types.

A compiled lambda binds them so if its arguments are of the types of its
parameters, and parameters bound to one name are of one type. Only `it` can be
bound more than once; where that is to parameters of different types, an integer
of one of them is taken for one of another.

Key definitions: `Eval.ComesTo`, `Declaration.integerFor`.
Key theorems: `Operation.apply_integers`, `Operation.apply_quotient`,
`Term.Typed.comesTo`, `Lambda.invoke_integral`.
-/
import QueryExpr.Proofs.CoalescedValue
import QueryExpr.Proofs.ExactTerms
import QueryExpr.Proofs.SafeLambda

namespace QueryExpr

/-! ### Operators -/

/-- Integers are added, divided and so on as ones of four types. -/
theorem IntType.hasArithmetic_of_mem_promotions {t : IntType} (h : Prim.int t ∈ Ty.promotions) :
    t.hasArithmetic = true := by
  cases t <;> first | rfl | simp [Ty.promotions] at h

theorem UnaryOp.apply_negate {n : SizedInt}
    (h : (Ty.prim (.int n.type)).negation? = some (.prim (.int n.type))) :
    UnaryOp.negate.apply (.scalar (.int n)) = .ok (.scalar (.int (.wrap n.type (-n.value)))) := by
  have ht : (n.type == .int32 || n.type == .int64) = true := by
    obtain ⟨-, q, -, hq, -, -, hm⟩ := Ty.negation?_cases h
    obtain rfl : Prim.int n.type = q := Ty.prim.inj hq
    simpa using hm
  simp [apply, Value.isNull, Scalar.isNull, ht]

namespace Operation

variable {op : Operation} {m n : SizedInt}

/-- **An operator of arithmetic on two integers of one type** is exact but for
the reduction to their type. It fails just if it divides by zero. -/
theorem apply_integers (ho : op.isArithmetic = true) (ht : n.type = m.type)
    (ha : m.type.hasArithmetic = true) :
    op.apply (.scalar (.int m)) (.scalar (.int n)) =
      match op.integer? m.value n.value with
      | some i => .ok (.scalar (.int (.wrap m.type i)))
      | none => .error .divideByZero := by
  have hc : (m.type == n.type && m.type.hasArithmetic) = true := by simp [ht, ha]
  rw [apply_eq_arithmetic ho]
  simp only [arithmetic, Value.isNull, Scalar.isNull, hc, Bool.or_self, Bool.false_eq_true,
    if_false, if_true]
  cases op with
  | add | subtract | multiply => rfl
  | divide | modulo => by_cases hn : n.value = 0 <;> simp [onIntegers, integer?, hn, Except.map]
  | _ => cases ho

/-- **Quotient and remainder give the dividend back**, also where the quotient
is beyond the range. -/
theorem apply_quotient (ht : n.type = m.type) (ha : m.type.hasArithmetic = true)
    (hn : n.value ≠ 0) :
    ∃ q r p : SizedInt,
      divide.apply (.scalar (.int m)) (.scalar (.int n)) = .ok (.scalar (.int q)) ∧
      modulo.apply (.scalar (.int m)) (.scalar (.int n)) = .ok (.scalar (.int r)) ∧
      multiply.apply (.scalar (.int q)) (.scalar (.int n)) = .ok (.scalar (.int p)) ∧
      add.apply (.scalar (.int p)) (.scalar (.int r)) = .ok (.scalar (.int m)) := by
  have hq := m.type.wrap_modEq (m.value.tdiv n.value)
  have hr := m.type.wrap_modEq (m.value.tmod n.value)
  have hp := m.type.wrap_modEq (m.type.wrap (m.value.tdiv n.value) * n.value)
  have hsum : SizedInt.wrap m.type (m.type.wrap (m.type.wrap (m.value.tdiv n.value) * n.value) +
      m.type.wrap (m.value.tmod n.value)) = m := by
    refine SizedInt.ext_value rfl ?_
    calc _ = m.type.wrap (m.value.tdiv n.value * n.value + m.value.tmod n.value) :=
          IntType.wrap_congr ((hp.trans (hq.mul_right _)).add hr)
      _ = m.type.wrap m.value := by rw [Int.mul_comm, Int.mul_tdiv_add_tmod]
      _ = m.value := IntType.wrap_of_mem m.mem
  refine ⟨.wrap m.type (m.value.tdiv n.value), .wrap m.type (m.value.tmod n.value),
    .wrap m.type (m.type.wrap (m.value.tdiv n.value) * n.value), ?_, ?_, ?_, ?_⟩
  · rw [apply_integers rfl ht ha, integer?, if_neg hn]
  · rw [apply_integers rfl ht ha, integer?, if_neg hn]
  · exact @apply_integers .multiply _ _ rfl ht ha
  · rw [← congrArg (fun i => Except.ok (Value.scalar (.int i))) hsum]
    exact @apply_integers .add _ _ rfl rfl ha

end Operation

/-! ### Evaluation -/

namespace Eval

/-- In the context the evaluation comes to the given integer, as one of the given
type, or divides by zero if there is none; and it leaves the context as it is. -/
def ComesTo (k : EvalContext) (m : Eval Value) (t : IntType) : Option Int → Prop
  | some i => ∃ n : SizedInt, n.type = t ∧ n.value = i ∧ m k = (.ok (.scalar (.int n)), k)
  | none => m k = (.error .divideByZero, k)

variable {k : EvalContext} {m : Eval Value} {f : Value → Eval Value} {t u : IntType}

/-- An operator of arithmetic evaluates both operands. -/
theorem term_arithmetic {host : Host} {op : Operation} (ho : op.isArithmetic = true) {l r : Term}
    {type : Ty} {span : Span} :
    term host (.binary op l r type span) = (do
      let v ← term host l
      ofExcept (op.apply v (← term host r))) := by
  cases op with
  | add | subtract | multiply | divide | modulo => rfl
  | _ => cases ho

theorem comesTo_ofExcept {x : Except EvalError Value} {n : SizedInt}
    (h : x = .ok (.scalar (.int n))) : ComesTo k (ofExcept x) n.type (some n.value) :=
  ⟨n, rfl, rfl, by rw [ofExcept_apply, h]⟩

theorem ComesTo.bind {i : Option Int} {next : Int → Option Int} (hm : ComesTo k m u i)
    (hf : ∀ n : SizedInt, n.type = u → ComesTo k (f (.scalar (.int n))) t (next n.value)) :
    ComesTo k (m >>= f) t (i.bind next) := by
  have hbind := Step.bind_apply m f k
  cases i with
  | none =>
    rw [ComesTo] at hm
    rwa [hm] at hbind
  | some i =>
    obtain ⟨n, hn, rfl, hrun⟩ := hm
    rw [hrun] at hbind
    have hnext := hf n hn
    show ComesTo k (m >>= f) t (next n.value)
    unfold ComesTo at hnext ⊢
    rwa [hbind]

end Eval

namespace Term.Typed

variable {D : Discipline} {s : Scopes}

theorem parameter_denotes {name : String} {t : Ty} {span : Span}
    (h : Typed D s (.parameter name t span)) :
    ∃ sym, s.Denotes D sym ∧ sym.boundName = name ∧ sym.type = t := by
  generalize he : Term.parameter name t span = e at h
  cases h with
  | parameter hd =>
    cases he
    exact ⟨_, hd, rfl, rfl⟩
  | _ => cases he

/-- Operands of arithmetic have the type of the result. -/
theorem arithmetic_operands {op : Operation} (ho : op.isArithmetic = true) {l r : Term} {t : Ty}
    {span : Span} (h : Typed D s (.binary op l r t span)) :
    Typed D s l ∧ Typed D s r ∧ l.type = t ∧ r.type = t ∧
      ∃ p n, p ∈ Ty.promotions ∧ t = .lift p n := by
  generalize he : Term.binary op l r t span = e at h
  cases h with
  | arithmetic hl _ hr _ _ hp htl htr =>
    cases he
    exact ⟨hl, hr, htl, htr, _, _, hp, rfl⟩
  | equality _ _ _ _ hop =>
    cases he
    rcases hop with rfl | rfl <;> cases ho
  | ordering _ _ _ _ hop =>
    cases he
    cases op with
    | add | subtract | multiply | divide | modulo => cases hop
    | _ => cases ho
  | logic _ _ _ _ hop =>
    cases he
    rcases hop with rfl | rfl <;> cases ho
  | _ => cases he <;> cases ho

theorem type_hasArithmetic {op : Operation} (ho : op.isArithmetic = true) {l r : Term}
    {t : IntType} {span : Span} (h : Typed D s (.binary op l r (.prim (.int t)) span)) :
    t.hasArithmetic = true := by
  obtain ⟨-, -, -, -, p, n, hp, ht⟩ := h.arithmetic_operands ho
  obtain rfl : Prim.int t = p := by
    cases n
    · exact Ty.prim.inj ht
    · cases ht
  exact IntType.hasArithmetic_of_mem_promotions hp

variable {e : Term} {σ : String → Int} {k : EvalContext}

/-- **A term of integers comes to its exact value** where names are bound to
integers of their types. -/
theorem comesTo (host : Host) (hi : e.Integral) (h : Typed D s e)
    (hσ : ∀ sym t, s.Denotes D sym → sym.type = .prim (.int t) →
      ∃ n : SizedInt, k.environment.lookup sym.boundName = some (.scalar (.int n)) ∧ n.type = t ∧
        σ sym.boundName = n.value) :
    ∃ t, e.type = .prim (.int t) ∧
      Eval.ComesTo k (Eval.term host e) t (e.integer? IntType.wrap σ) := by
  induction hi with
  | constant n t span =>
    obtain rfl : n.type = t := by
      cases h with
      | constant _ hv =>
        rcases hv with hv | ⟨hv, -⟩
        · simpa [Scalar.naturalType] using hv
        · cases hv
    exact ⟨n.type, rfl, n, rfl, (IntType.wrap_of_mem n.mem).symm, rfl⟩
  | parameter name t span =>
    obtain ⟨sym, hd, rfl, ht⟩ := h.parameter_denotes
    obtain ⟨n, hn, rfl, hv⟩ := hσ sym t hd ht
    refine ⟨n.type, rfl, n, rfl, ?_, ?_⟩
    · rw [hv, IntType.wrap_of_mem n.mem]
    · rw [Eval.term, Eval.lookup_apply, hn]
  | convert t span _ ih =>
    cases h with
    | convert h =>
      obtain ⟨u, -, hrun⟩ := ih h
      refine ⟨t, rfl, ?_⟩
      rw [integer?, Option.map_eq_bind]
      exact hrun.bind fun n _ => Eval.comesTo_ofExcept (n := .wrap t n.value) rfl
  | negate t span _ ih =>
    cases h with
    | negate h _ ht hn =>
      obtain ⟨u, hu, hrun⟩ := ih h
      obtain rfl : u = t := by simpa using hu.symm.trans ht
      refine ⟨u, rfl, ?_⟩
      rw [integer?, Option.map_eq_bind]
      refine hrun.bind fun n hnu => ?_
      subst hnu
      exact Eval.comesTo_ofExcept (UnaryOp.apply_negate hn)
  | @arithmetic op l r t span ho _ _ ihl ihr =>
    have ha := h.type_hasArithmetic ho
    obtain ⟨hl, hr, htl, htr, -⟩ := h.arithmetic_operands ho
    obtain ⟨u, hu, hrunl⟩ := ihl hl
    obtain ⟨v, hv, hrunr⟩ := ihr hr
    obtain rfl : u = t := by simpa using hu.symm.trans htl
    obtain rfl : v = u := by simpa using hv.symm.trans htr
    refine ⟨v, rfl, ?_⟩
    rw [Eval.term_arithmetic ho, integer?]
    refine hrunl.bind fun m hm => hrunr.bind fun n hn => ?_
    subst hm
    have happly := Operation.apply_integers ho hn ha
    cases hx : op.integer? m.value n.value with
    | none =>
      rw [hx] at happly
      exact (Eval.ofExcept_apply _ _).trans (by rw [happly])
    | some i =>
      rw [hx] at happly
      exact Eval.comesTo_ofExcept happly

end Term.Typed

/-! ### Lambdas -/

/-- The integer bound to a name: that of the argument of the last parameter that
is bound to it. -/
def Declaration.integerFor (ds : List Declaration) (arguments : List Value) (name : String) : Int :=
  (((lastNamed name ds).bind (arguments[·]?)).bind Value.integer?).getD 0

/-- What stands for a parameter in the table of a lambda is one of its
parameters. -/
theorem Scopes.Denotes.declaration {D : Discipline} {t : ParameterTable} {sym : Symbol}
    (h : (Scopes.ofTable t).Denotes D sym) :
    ∃ d ∈ t.parameters, sym.boundName = d.boundName ∧ sym.type = d.type := by
  rcases h with h | ⟨n, -, h, hp⟩
  · obtain ⟨i, -, d, hd, rfl⟩ := ParameterTable.implicit?_eq h
    exact ⟨d, List.mem_of_getElem? hd, rfl, rfl⟩
  · obtain ⟨-, i, d, hd, rfl, rfl⟩ := ParameterTable.lookup?_eq (lookup?_eq h hp) hp
    exact ⟨d, List.mem_of_getElem? hd, rfl, rfl⟩

/-- A name that is bound to parameters of one type alone is bound to a value of
that type. -/
theorem Declaration.lastNamed_conforms {host : Host} {ds : List Declaration}
    {arguments : List Value} (hargs : ConformsAll host (ds.map (·.type)) arguments)
    {d : Declaration} (hd : d ∈ ds)
    (hit : ∀ e ∈ ds, e.boundName = d.boundName → e.type = d.type) :
    ∃ v, (lastNamed d.boundName ds).bind (arguments[·]?) = some v ∧ Conforms host d.type v := by
  have hall := conformsAll_iff.mp hargs
  have hlen : ds.length = arguments.length := by simpa using hall.length_eq
  cases hl : lastNamed d.boundName ds with
  | none => exact absurd rfl (lastNamed_eq_none hl d hd)
  | some j =>
    obtain ⟨⟨e, hj, he⟩, -⟩ := lastNamed_eq_some hl
    obtain ⟨hj', rfl⟩ := List.getElem?_eq_some_iff.mp hj
    have hv : j < arguments.length := hlen ▸ hj'
    refine ⟨arguments[j], List.getElem?_eq_getElem hv, ?_⟩
    have := hall.get (by simpa using hj') hv
    rw [← hit _ (List.getElem_mem hj') he]
    simpa using this

/-- What leaves the context as it is with further bindings does so without them. -/
theorem Eval.withBindings_apply {bindings : Environment} {k : EvalContext} {m : Eval Value}
    {x : Except EvalError Value}
    (h : m { k with environment := bindings.reverse ++ k.environment } =
      (x, { k with environment := bindings.reverse ++ k.environment })) :
    withBindings bindings m k = (x, k) := by
  simp [withBindings, h]

theorem Eval.ComesTo.withBindings {bindings : Environment} {k : EvalContext} {m : Eval Value}
    {t : IntType} {i : Option Int}
    (h : ComesTo { k with environment := bindings.reverse ++ k.environment } m t i) :
    ComesTo k (withBindings bindings m) t i := by
  cases i with
  | none => exact withBindings_apply h
  | some i =>
    obtain ⟨n, hn, hi, hrun⟩ := h
    exact ⟨n, hn, hi, withBindings_apply hrun⟩

namespace Lambda

variable {host : Host} {arguments : List Value} {o : Options} {ds : List Declaration}
  {implicit : Option Nat} {target : Target} {text : String} {records records' : RecordCache}
  {f : Lambda}

/-- A lambda whose body is neither evaluated for its effect nor without a value
returns what the body comes to. -/
theorem returns_not_void {body : Term} (h : assemble ds body target = .ok f)
    (hc : f.body.isCallShaped = false) (ht : f.body.type.isVoid = false) :
    f.returns.isVoid = false := by
  obtain ⟨-, ⟨hb, hr⟩ | ⟨u, -, hr, hb⟩⟩ := assemble_cases h
  · rw [hr, ← hb, ht]
  · rw [hr]
    cases hu : u.isVoid with
    | false => rfl
    | true =>
      unfold convertBody at hb
      rw [if_pos hu] at hb
      split at hb
      · rename_i hvoid
        cases hb
        simp [hc, ht] at hvoid
      · cases hb

/-- The integers that are bound to the parameters in the body of a lambda. -/
theorem bound_integers {table : ParameterTable}
    (hargs : ConformsAll host (table.parameters.map (·.type)) arguments)
    (hit : ∀ d ∈ table.parameters, ∀ e ∈ table.parameters, d.boundName = e.boundName →
      d.type = e.type)
    {D : Discipline} {env : Environment} {sym : Symbol} {t : IntType}
    (hsym : (Scopes.ofTable table).Denotes D sym) (ht : sym.type = .prim (.int t)) :
    ∃ n : SizedInt,
      (((table.parameters.map Declaration.boundName).zip arguments).reverse ++ env).lookup
        sym.boundName = some (.scalar (.int n)) ∧ n.type = t ∧
      Declaration.integerFor table.parameters arguments sym.boundName = n.value := by
  have hlen : table.parameters.length = arguments.length := by
    simpa using (conformsAll_iff.mp hargs).length_eq
  obtain ⟨d, hd, hname, htype⟩ := hsym.declaration
  obtain ⟨v, hv, hconf⟩ := Declaration.lastNamed_conforms hargs hd fun e he h => hit e he d hd h
  rw [← htype, ht] at hconf
  obtain ⟨n, rfl, hn⟩ := hconf
  refine ⟨n, ?_, hn, ?_⟩
  · rw [List.lookup_append, Declaration.lookup_bindings _ hlen, hname, hv]
    rfl
  · rw [Declaration.integerFor, hname, hv]
    rfl

/-- A lambda comes to the exact value of its body, which is one of integers. -/
theorem invoke_comesTo (h : compile o ds implicit target text records = (.ok f, records'))
    (hi : f.body.Integral) (hargs : ConformsAll host (ds.map (·.type)) arguments)
    (hit : ∀ d ∈ ds, ∀ e ∈ ds, d.boundName = e.boundName → d.type = e.type) (k : EvalContext) :
    ∃ t, f.body.type = .prim (.int t) ∧ f.returns = .prim (.int t) ∧
      Eval.ComesTo k (f.invoke host arguments) t
        (f.body.integer? IntType.wrap (Declaration.integerFor ds arguments)) := by
  have hall (t : Ty) : Discipline.scoped.Admits t := fun _ _ => trivial
  obtain ⟨hp, table, hmake, hbody, htype⟩ := compile_typed Discipline.lawful_scoped
    (fun _ _ _ _ => trivial) (fun d _ => ⟨hall d.type, trivial⟩) (fun t _ => hall t)
    (fun t e _ _ => e.avoids_none o t records) (fun r _ => hall r.type) (fun _ _ _ => trivial) h
  obtain ⟨rfl, -⟩ := ParameterTable.make_ok hmake
  obtain ⟨t, ht, hrun⟩ := hbody.comesTo host (k := { k with environment :=
      ((table.parameters.map Declaration.boundName).zip arguments).reverse ++ k.environment })
    hi fun sym t => bound_integers hargs hit
  have hvoid : f.returns.isVoid = false := by
    obtain ⟨_, _, body, -, -, -, hf⟩ := compile_ok h
    exact returns_not_void hf hi.isCallShaped (by rw [ht]; rfl)
  have hreturns : f.returns = .prim (.int t) := by
    have hb := Ty.beq_symm (htype.resolve_left (by simp [hvoid]))
    rw [ht] at hb
    exact Ty.eq_lift_of_beq (n := false) hb
  have hlen : f.parameters.length = arguments.length := by
    have := (conformsAll_iff.mp hargs).length_eq
    rw [hp]
    simpa using this
  refine ⟨t, ht, hreturns, ?_⟩
  rw [invoke_eq_body hlen hvoid, hp]
  exact hrun.withBindings

/-- **Integer arithmetic in a compiled lambda is exact up to the ranges of the
types.** The body is one of integers, the arguments are of the types of the
parameters, and parameters bound to one name are of one type. If a divisor comes
to zero, the lambda divides by zero. If none does, it yields the exact value of
its body, where what each node comes to is reduced to the range of the node's
type. Where all nodes are of one type and nothing is divided, that is the value
without any reduction, reduced once. Quotient and remainder of two operands
give the dividend back. -/
theorem invoke_integral (h : compile o ds implicit target text records = (.ok f, records'))
    (hi : f.body.Integral) (hargs : ConformsAll host (ds.map (·.type)) arguments)
    (hit : ∀ d ∈ ds, ∀ e ∈ ds, d.boundName = e.boundName → d.type = e.type) (k : EvalContext) :
    ∃ t, f.body.type = .prim (.int t) ∧ f.returns = .prim (.int t) ∧
      ((∃ d ∈ f.body.divisors,
          d.integer? IntType.residue (Declaration.integerFor ds arguments) = some 0) →
        f.invoke host arguments k = (.error .divideByZero, k)) ∧
      ((∀ d ∈ f.body.divisors,
          d.integer? IntType.residue (Declaration.integerFor ds arguments) ≠ some 0) →
        ∃ n : SizedInt, n.type = t ∧
          f.body.integer? IntType.residue (Declaration.integerFor ds arguments) = some n.value ∧
          f.invoke host arguments k = (.ok (.scalar (.int n)), k)) ∧
      (∀ u, f.body.Uniform u → ∃ (i : Int) (n : SizedInt),
        f.body.integer? (fun _ j => j) (Declaration.integerFor ds arguments) = some i ∧
        n.type = u ∧ n.value = u.residue i ∧
        f.invoke host arguments k = (.ok (.scalar (.int n)), k)) ∧
      ∀ m n : SizedInt, n.type = m.type → m.type.hasArithmetic = true → n.value ≠ 0 →
        ∃ q r p : SizedInt,
          Operation.divide.apply (.scalar (.int m)) (.scalar (.int n)) = .ok (.scalar (.int q)) ∧
          Operation.modulo.apply (.scalar (.int m)) (.scalar (.int n)) = .ok (.scalar (.int r)) ∧
          Operation.multiply.apply (.scalar (.int q)) (.scalar (.int n)) = .ok (.scalar (.int p)) ∧
          Operation.add.apply (.scalar (.int p)) (.scalar (.int r)) = .ok (.scalar (.int m)) := by
  have hreduce : IntType.residue = IntType.wrap := by
    funext t i
    exact (t.wrap_eq_residue i).symm
  rw [hreduce]
  obtain ⟨t, ht, hreturns, hrun⟩ := invoke_comesTo h hi hargs hit k
  have hnone : f.body.integer? IntType.wrap (Declaration.integerFor ds arguments) = none ↔ _ :=
    hi.integer?_eq_none
  refine ⟨t, ht, hreturns, fun hd => ?_, fun hd => ?_, fun u hu => ?_,
    fun m n hn ha h0 => Operation.apply_quotient hn ha h0⟩
  · rw [hnone.mpr hd] at hrun
    exact hrun
  · cases hv : f.body.integer? IntType.wrap (Declaration.integerFor ds arguments) with
    | none =>
      obtain ⟨d, hdm, hd0⟩ := hnone.mp hv
      exact absurd hd0 (hd d hdm)
    | some i =>
      rw [hv] at hrun
      obtain ⟨n, hn, rfl, hrun⟩ := hrun
      exact ⟨n, hn, rfl, hrun⟩
  · obtain ⟨i, hwhole, hv⟩ := hu.integer?_eq (σ := Declaration.integerFor ds arguments)
    obtain rfl : u = t := by simpa using hu.type.symm.trans ht
    rw [hv] at hrun
    obtain ⟨n, hn, hvalue, hrun⟩ := hrun
    exact ⟨i, n, hwhole, hn, hvalue, hrun⟩

/-- The least `Int32` by minus one is itself, and nothing is divided by zero. -/
theorem invoke_integral_least :
    let ds : List Declaration := [⟨"x", .int32⟩, ⟨"y", .int32⟩]
    ∃ f, compile {} ds none .inferred "x / y" .empty = (.ok f, .empty) ∧ ∀ host k,
      (∃ n : SizedInt, n.type = .int32 ∧ n.value = -2147483648 ∧
        f.invoke host [.int32 (-2147483648), .int32 (-1)] k = (.ok (.scalar (.int n)), k)) ∧
      f.invoke host [.int32 7, .int32 0] k = (.error .divideByZero, k) := by
  intro ds
  let x : Term := .parameter "x" .int32 ⟨0, 1⟩
  let y : Term := .parameter "y" .int32 ⟨4, 1⟩
  have h : compile {} ds none .inferred "x / y" .empty =
      (.ok ⟨ds, .binary .divide x y .int32 ⟨0, 5⟩, .int32, .ofDelegate none ds .int32⟩,
        .empty) := by with_unfolding_all rfl
  have hi : (Term.binary .divide x y .int32 ⟨0, 5⟩).Integral :=
    .arithmetic _ _ rfl (.parameter _ _ _) (.parameter _ _ _)
  have hargs (host : Host) (m n : Int) :
      ConformsAll host (ds.map (·.type)) [.int32 m, .int32 n] :=
    ⟨_, _, rfl, ⟨_, rfl, rfl⟩, _, _, rfl, ⟨_, rfl, rfl⟩, rfl⟩
  have hit : ∀ d ∈ ds, ∀ e ∈ ds, d.boundName = e.boundName → d.type = e.type := by
    simp [ds]
  refine ⟨_, h, fun host k => ⟨?_, ?_⟩⟩
  · obtain ⟨t, ht, -, -, hrun, -⟩ := invoke_integral h hi (hargs host (-2147483648) (-1)) hit k
    obtain rfl : IntType.int32 = t := by simpa [Term.type, Ty.int32] using ht
    obtain ⟨n, hn, hvalue, hrun⟩ := hrun (by decide)
    exact ⟨n, hn, Option.some_inj.mp (hvalue.symm.trans (by decide)), hrun⟩
  · obtain ⟨-, -, -, hzero, -⟩ := invoke_integral h hi (hargs host 7 0) hit k
    exact hzero ⟨y, List.mem_singleton_self y, by decide⟩

/-- Two parameters of different types that are both bound to `it`: a sum of two
`Int32` is an `Int64`, beyond the range of its type. -/
theorem invoke_integral_alike :
    let ds : List Declaration := [⟨"", .int32⟩, ⟨"", .prim (.int .int64)⟩]
    let arguments : List Value := [.int32 1, .scalar (.int (.wrap .int64 1099511627776))]
    ∃ f, ofContext {} .int32 (some ds) none "it + it" .empty = (.ok f, .empty) ∧
      f.body.Uniform .int32 ∧ ∀ host, ConformsAll host (ds.map (·.type)) arguments ∧
        (f.invoke host arguments (.start 0)).1 =
          .ok (.scalar (.int (.wrap .int64 2199023255552))) := by
  intro ds arguments
  let it (start : Nat) : Term := .parameter "it" .int32 ⟨start, 2⟩
  have h : ofContext {} .int32 (some ds) none "it + it" .empty =
      (.ok ⟨ds, .binary .add (it 0) (it 5) .int32 ⟨0, 7⟩, .int32,
        .ofDelegate none ds .int32⟩, .empty) := rfl
  refine ⟨_, h, .arithmetic _ rfl rfl (.parameter _ _) (.parameter _ _), fun host => ⟨?_, rfl⟩⟩
  exact ⟨_, _, rfl, ⟨_, rfl, rfl⟩, _, _, rfl, ⟨_, rfl, rfl⟩, rfl⟩

end Lambda
end QueryExpr
