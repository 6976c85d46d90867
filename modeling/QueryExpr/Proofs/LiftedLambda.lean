/-
# Numbers with null for their parameters

The text of a sum, difference, product or negation of numbers may be compiled
for parameters with the nullable forms of their types as well. It compiles for
them just if it compiles for the parameters as they are, and to the lifted
form. Where no argument is null both lambdas do the same. Where a parameter that
occurs is null the lambda yields null, if the other arguments are of their types
and parameters that are bound to one name are of one type.

A parameter is bound to the argument of the last parameter with the same name.
Only `it` can be bound more than once. Where it is, the parameter that occurs may
be null and the lambda yield a number.

Key definitions: `ParameterTable.lifted`, `ParameterTable.denoted?`,
`Expr.Arithmetic`, `Expr.occurring`.
Key theorems: `Check.expr_lifted`, `Lambda.compile_lifted`.
-/
import QueryExpr.Proofs.LiftedTerms

namespace QueryExpr

/-- The parameter with the lifted type. -/
def Declaration.lifted (d : Declaration) : Declaration := { d with type := d.type.lifted }

theorem Declaration.boundNames_lifted (ds : List Declaration) :
    (ds.map lifted).map boundName = ds.map boundName := by
  rw [List.map_map]
  rfl

namespace ParameterTable

variable {t : ParameterTable} {sym : Symbol} {ds : List Declaration} {implicit : Option Nat}
  {name : String}

/-- The table with the lifted parameters. -/
def lifted (t : ParameterTable) : ParameterTable :=
  { t with parameters := t.parameters.map Declaration.lifted }

/-- The parameter that a bare name stands for. -/
def denoted? (t : ParameterTable) (name : String) : Option Symbol :=
  if name == implicitName then t.implicit? else (t.lookup? name).filter Symbol.isParameter

theorem symbolAt?_lifted (i : Nat) : t.lifted.symbolAt? i = (t.symbolAt? i).map Symbol.lifted := by
  simp only [symbolAt?, lifted, List.getElem?_map, Option.map_map]
  rfl

theorem implicit?_lifted : t.lifted.implicit? = t.implicit?.map Symbol.lifted := by
  show t.implicit.bind t.lifted.symbolAt? = (t.implicit.bind t.symbolAt?).map Symbol.lifted
  cases t.implicit with
  | none => rfl
  | some i => exact symbolAt?_lifted i

/-- Of what a name may stand for, the parameters are lifted. -/
theorem lookup?_lifted (name : String) :
    t.lifted.lookup? name =
      (t.lookup? name).map fun s => if s.isParameter then s.lifted else s := by
  unfold lookup?
  cases hc : Symbol.constant? name with
  | some s =>
    have := Symbol.isParameter_constant? hc
    simp [this]
  | none =>
    dsimp only
    split
    · rfl
    · have hidx : (t.lifted.parameters.findIdx? fun d => d.name == name) =
          t.parameters.findIdx? fun d => d.name == name := by
        simp only [lifted, List.findIdx?_map]
        rfl
      rw [hidx]
      cases t.parameters.findIdx? fun d => d.name == name with
      | none => rfl
      | some i =>
        show t.lifted.symbolAt? i = (t.symbolAt? i).map _
        rw [symbolAt?_lifted]
        cases hs : t.symbolAt? i with
        | none => rfl
        | some s =>
          obtain ⟨d, -, rfl⟩ := symbolAt?_eq hs
          rfl

theorem declares_lifted : t.lifted.declares = t.declares := by
  funext name
  unfold declares
  rw [lookup?_lifted]
  cases t.lookup? name with
  | none => rfl
  | some s =>
    show (if s.isParameter then s.lifted else s).isParameter = s.isParameter
    split <;> rfl

theorem denoted?_lifted (h : t.denoted? name = some sym) :
    t.lifted.denoted? name = some sym.lifted := by
  unfold denoted? at h ⊢
  split
  · rename_i hn
    rw [if_pos hn] at h
    rw [implicit?_lifted, h]
    rfl
  · rename_i hn
    rw [if_neg hn] at h
    obtain ⟨hl, hp⟩ := Option.filter_eq_some_iff.mp h
    rw [lookup?_lifted, hl]
    simp only [Option.map_some, hp, if_true]
    exact Option.filter_eq_some_iff.mpr ⟨rfl, hp⟩

/-- What a bare name stands for is a parameter at some place. -/
theorem denoted?_eq (h : t.denoted? name = some sym) :
    ∃ i d, t.parameters[i]? = some d ∧ sym = ⟨d.name, .parameter i, d.type⟩ := by
  unfold denoted? at h
  split at h
  · obtain ⟨i, -, d, hd, rfl⟩ := implicit?_eq h
    exact ⟨i, d, hd, rfl⟩
  · obtain ⟨hl, hp⟩ := Option.filter_eq_some_iff.mp h
    obtain ⟨-, i, d, hd, rfl, rfl⟩ := lookup?_eq hl hp
    exact ⟨i, d, hd, rfl⟩

theorem duplicateAfter_lifted : ∀ (ds : List Declaration) (seen : List String),
    duplicateAfter seen (ds.map Declaration.lifted) = duplicateAfter seen ds
  | [], _ => rfl
  | d :: ds, seen => by
    simp only [List.map_cons, duplicateAfter, duplicateAfter_lifted ds]
    rfl

theorem make_lifted (h : make ds implicit = .ok t) :
    make (ds.map Declaration.lifted) implicit = .ok t.lifted := by
  unfold make duplicate? at h ⊢
  rw [duplicateAfter_lifted, List.length_map]
  split at h
  · cases h
  · cases h
    rfl

end ParameterTable

/-! ### Checking -/

/-- **An expression of numbers over the parameters of a table**: numeric literals
and names of parameters that are numbers or characters, with sums, differences,
products and the unary minus. -/
inductive Expr.Arithmetic (t : ParameterTable) : Expr → Prop
  | integer (magnitude : Nat) (negative : Bool) (suffix : IntegerSuffix) (written : String)
      (span : Span) : Arithmetic t (.literal (.integer magnitude negative suffix) written span)
  | real (x : Float) (suffix : RealSuffix) (written : String) (span : Span) :
      Arithmetic t (.literal (.real x suffix) written span)
  | name {n : Name} {sym : Symbol} {p : Prim} : t.denoted? n.text = some sym →
      sym.type = .prim p → p.isNumberLike = true → Arithmetic t (.name n)
  | negate {e : Expr} (span : Span) : Arithmetic t e → Arithmetic t (.unary .negate e span)
  | binary {op : BinaryOp} {l r : Expr} (span : Span) :
      op = .add ∨ op = .subtract ∨ op = .multiply → Arithmetic t l → Arithmetic t r →
      Arithmetic t (.binary op l r span)

/-- The parameters that occur in an expression of numbers. -/
def Expr.occurring (t : ParameterTable) : Expr → List Symbol
  | .name n => (t.denoted? n.text).toList
  | .unary _ e _ => e.occurring t
  | .binary _ l r _ => l.occurring t ++ r.occurring t
  | _ => []
termination_by structural e => e

theorem Ty.isVoid_lift (p : Prim) (n : Bool) : (Ty.lift p n).isVoid = false := by
  cases n <;> rfl

/-- The type that a negated number has does not depend on its nullability, but for
its own. -/
theorem Ty.negation?_lift (p : Prim) :
    ∃ q? : Option Prim, ∀ n, (Ty.lift p n).negation? = q?.map (Ty.lift · n) :=
  ⟨_, fun n => by
    unfold negation?
    rw [primitive?_lift, isNullable_lift]⟩

/-- The type that numbers are promoted to does not depend on their nullability, but
for its own. -/
theorem Ty.promote?_lift {p q : Prim} (hp : p.isNumberLike = true) (hq : q.isNumberLike = true) :
    ∃ c? : Option Prim, (∀ c, c? = some c → c ∈ promotions) ∧
      ∀ n m, promote? (.lift p n) (.lift q m) true = c?.map (Ty.lift · (n || m)) := by
  let integers := p.isIntegerLike && q.isIntegerLike
  let allowed := promotions.filter fun c => !(integers && (c == .single || c == .double))
  refine ⟨allowed.find? fun c => p.widens c && q.widens c, fun c hc => ?_, fun n m => ?_⟩
  · exact (List.mem_filter.mp (List.mem_of_find?_eq_some hc)).1
  · unfold promote?
    rw [primitive?_lift, primitive?_lift, isNullable_lift, isNullable_lift]
    simp only [hp, hq, Bool.and_self, Bool.not_true, Bool.false_eq_true, if_false, Bool.false_and]
    rfl

/-- The constant is a number of its own type. -/
def Scalar.IsNumber (s : Scalar) : Prop :=
  ∃ p, s.naturalType = .prim p ∧ p.isNumberLike = true ∧ p.Holds (.scalar s)

theorem Literal.integer?_isNumber {n : Nat} {negative : Bool} {suffix : IntegerSuffix}
    {s : Scalar} (h : Literal.integer? n negative suffix = some s) : s.IsNumber := by
  obtain ⟨t, -, rfl⟩ := Option.map_eq_some_iff.mp h
  exact ⟨.int t, rfl, rfl, _, rfl, rfl⟩

theorem Literal.real?_isNumber {x : Float} {suffix : RealSuffix} {s : Scalar}
    (h : Literal.real? x suffix = some s) : s.IsNumber := by
  cases suffix with
  | single =>
    simp only [Literal.real?] at h
    split at h
    · cases h
      exact ⟨.single, rfl, rfl, _, rfl⟩
    · cases h
  | decimal =>
    cases h
    exact ⟨.decimal, rfl, rfl, _, rfl⟩
  | none | double =>
    cases h
    exact ⟨.double, rfl, rfl, _, rfl⟩

namespace Check

variable {o : Options} {t : ParameterTable} {e : Expr}

/-- An expression of numbers is checked over the parameters and over the lifted
parameters. -/
inductive Lifted (o : Options) (t : ParameterTable) (e : Expr) (records : RecordCache) : Prop
  | fails {x y : Failure} :
      expr o e ⟨records, .ofTable t⟩ = (.error x, ⟨records, .ofTable t⟩) →
      expr o e ⟨records, .ofTable t.lifted⟩ = (.error y, ⟨records, .ofTable t.lifted⟩) →
      Lifted o t e records
  | checks {p : Prim} {a b : Term} :
      expr o e ⟨records, .ofTable t⟩ = (.ok a, ⟨records, .ofTable t⟩) →
      expr o e ⟨records, .ofTable t.lifted⟩ = (.ok b, ⟨records, .ofTable t.lifted⟩) →
      Term.Lifts (e.occurring t) p a b → Lifted o t e records

variable {records : RecordCache} {c : Context} {l r : Expr} {a b : Term} {p q : Prim} {n m : Bool}

/-- A bare name is checked to the parameter that it stands for. -/
theorem named_denoted {n : Name} {sym : Symbol} (h : t.denoted? n.text = some sym)
    (records : RecordCache) : expr o (.name n) ⟨records, .ofTable t⟩ =
      (.ok (reference sym n.span), ⟨records, .ofTable t⟩) := by
  have hscopes : scopes ⟨records, .ofTable t⟩ =
      (.ok (Scopes.ofTable t), ⟨records, .ofTable t⟩) := rfl
  unfold ParameterTable.denoted? at h
  rw [expr, named, Step.bind_apply, hscopes]
  dsimp only
  split at h
  · rename_i hn
    have hit : (Scopes.ofTable t).resolveImplicit n.span = .ok sym := by
      show t.resolveImplicit n.span = .ok sym
      rw [ParameterTable.resolveImplicit, h]
    rw [if_pos hn, hit]
    rfl
  · rename_i hn
    obtain ⟨hl, hp⟩ := Option.filter_eq_some_iff.mp h
    have hlookup : (Scopes.ofTable t).lookup? n.text = some sym := by
      show [t].findSome? (·.lookup? n.text) = some sym
      simp [hl]
    obtain ⟨-, i, d, -, -, rfl⟩ := ParameterTable.lookup?_eq hl hp
    rw [if_neg hn, hlookup]
    rfl

/-- A number is negated within the type that it is promoted to, nullable or not. -/
theorem expr_negate {q? : Option Prim} (he : expr o e c = (.ok a, c)) (ht : a.type = .lift p n)
    (hq : ∀ n, (Ty.lift p n).negation? = q?.map (Ty.lift · n)) (span : Span) :
    expr o (.unary .negate e span) c = (match q? with
      | some q => .ok (.unary .negate (a.convertTo (.lift q n)) (.lift q n) span)
      | none => .error ⟨.operandType UnaryOp.negate.symbol a.type.display, span⟩, c) := by
  have hv : a.type.isVoid = false := by rw [ht, Ty.isVoid_lift]
  rw [expr, Step.bind_apply, value_of_ok he hv]
  dsimp only
  rw [unary, ht, hq]
  cases q? <;> rfl

theorem expr_negate_error {x : Failure} (he : expr o e c = (.error x, c)) (span : Span) :
    expr o (.unary .negate e span) c = (.error x, c) := by
  rw [expr, Step.bind_apply, value_of_error he]

/-- Numbers are added, subtracted and multiplied within the type that both are
promoted to, nullable or not. -/
theorem expr_arithmetic {op : BinaryOp} {operation : Operation}
    (hof : Operation.ofBinaryOp? op = some operation) (ho : operation.isArithmetic = true)
    {c? : Option Prim} (hl : expr o l c = (.ok a, c)) (hr : expr o r c = (.ok b, c))
    (hta : a.type = .lift p n) (htb : b.type = .lift q m) (hp : p.isNumberLike = true)
    (hq : q.isNumberLike = true)
    (hc : ∀ n m, Ty.promote? (.lift p n) (.lift q m) true = c?.map (Ty.lift · (n || m)))
    (span : Span) :
    expr o (.binary op l r span) c = (match c? with
      | some t => .ok (.binary operation (a.convertTo (.lift t (n || m)))
          (b.convertTo (.lift t (n || m))) (.lift t (n || m)) span)
      | none => .error ⟨.operandTypes op.symbol a.type.display b.type.display, span⟩, c) := by
  have hva : a.type.isVoid = false := by rw [hta, Ty.isVoid_lift]
  have hvb : b.type.isVoid = false := by rw [htb, Ty.isVoid_lift]
  have hstring : (a.type.isString || b.type.isString) = false := by
    have not_string {p : Prim} {n : Bool} (hp : p.isNumberLike = true) :
        (Ty.lift p n).isString = false := by
      cases n <;> cases p <;> first | rfl | cases hp
    rw [hta, htb, not_string hp, not_string hq, Bool.or_self]
  have htypes : operationTypes? operation a b =
      (Ty.promote? a.type b.type true).map fun t => (t, t) := by
    cases operation with
    | add | subtract | multiply | divide | modulo => rfl
    | _ => cases ho
  rw [expr, Step.bind_apply, value_of_ok hl hva]
  dsimp only
  rw [Step.bind_apply, value_of_ok hr hvb]
  dsimp only
  unfold binary
  rw [hof]
  dsimp only
  rw [hstring, Bool.and_false, if_neg Bool.false_ne_true, htypes, hta, htb, hc]
  cases c? <;> rfl

theorem expr_binary_error_left {op : BinaryOp} {x : Failure} (hl : expr o l c = (.error x, c))
    (span : Span) : expr o (.binary op l r span) c = (.error x, c) := by
  rw [expr, Step.bind_apply, value_of_error hl]

theorem expr_binary_error_right {op : BinaryOp} {x : Failure} (hl : expr o l c = (.ok a, c))
    (hta : a.type = .lift p n) (hr : expr o r c = (.error x, c)) (span : Span) :
    expr o (.binary op l r span) c = (.error x, c) := by
  have hva : a.type.isVoid = false := by rw [hta, Ty.isVoid_lift]
  rw [expr, Step.bind_apply, value_of_ok hl hva]
  dsimp only
  rw [Step.bind_apply, value_of_error hr]

/-- A literal is a number, of whatever table. -/
theorem lifted_literal (span : Span) (s? : Option Scalar) {x : Failure}
    (hrun : ∀ c, expr o e c = (match s? with
      | some s => .ok (.ofScalar s span)
      | none => .error x, c))
    (hs : ∀ s, s? = some s → s.IsNumber)
    (he : e.occurring t = []) : Lifted o t e records := by
  cases s? with
  | none => exact .fails (hrun _) (hrun _)
  | some s =>
    obtain ⟨p, ht, hp, hholds⟩ := hs s rfl
    refine .checks (hrun _) (hrun _) (p := p) ?_
    rw [he, Term.ofScalar, ht]
    exact .constant span hp hholds

/-- **An expression of numbers is checked alike over parameters and over lifted
parameters.** -/
theorem expr_lifted (he : e.Arithmetic t) (records : RecordCache) : Lifted o t e records := by
  induction he with
  | integer magnitude negative suffix written span =>
    refine lifted_literal span (Literal.integer? magnitude negative suffix)
      (x := ⟨.integerLiteral written, span⟩) (fun c => ?_) (fun s hs => ?_) rfl
    · simp only [expr, literal]
      cases Literal.integer? magnitude negative suffix <;> rfl
    · exact Literal.integer?_isNumber hs
  | real x suffix written span =>
    refine lifted_literal span (Literal.real? x suffix)
      (x := ⟨.realLiteral written, span⟩) (fun c => ?_) (fun s hs => ?_) rfl
    · simp only [expr, literal]
      cases Literal.real? x suffix <;> rfl
    · exact Literal.real?_isNumber hs
  | @name n sym p hd ht hp =>
    refine .checks (p := p) (named_denoted hd records)
      (named_denoted (t.denoted?_lifted hd) records) ?_
    rw [Expr.occurring, hd]
    exact .parameter n.span hp ht
  | @negate e span _ ih =>
    cases ih with
    | fails ha hb => exact .fails (expr_negate_error ha span) (expr_negate_error hb span)
    | @checks p a b ha hb h =>
      obtain ⟨-, hta, htb⟩ := h.type_eq
      obtain ⟨q?, hq⟩ := Ty.negation?_lift p
      have hrun := expr_negate (n := false) ha hta hq span
      have hrun' := expr_negate hb htb hq span
      cases q? with
      | none => exact .fails hrun hrun'
      | some q => exact .checks hrun hrun' (.negate span h (hq false))
  | @binary op l r span hop _ _ ihl ihr =>
    cases ihl with
    | fails ha hb => exact .fails (expr_binary_error_left ha span) (expr_binary_error_left hb span)
    | @checks p a b ha hb h =>
      obtain ⟨hp, hta, htb⟩ := h.type_eq
      cases ihr with
      | fails ha' hb' =>
        exact .fails (expr_binary_error_right (n := false) ha hta ha' span)
          (expr_binary_error_right hb htb hb' span)
      | @checks p' a' b' ha' hb' h' =>
        obtain ⟨hp', hta', htb'⟩ := h'.type_eq
        obtain ⟨c?, hmem, hc⟩ := Ty.promote?_lift hp hp'
        obtain ⟨operation, hof, ho, hd⟩ : ∃ operation, Operation.ofBinaryOp? op = some operation ∧
            operation.isArithmetic = true ∧ operation.isDivision = false := by
          rcases hop with rfl | rfl | rfl <;> exact ⟨_, rfl, rfl, rfl⟩
        have hrun := expr_arithmetic (n := false) (m := false) hof ho ha ha' hta hta' hp hp' hc span
        have hrun' := expr_arithmetic hof ho hb hb' htb htb' hp hp' hc span
        have hflags : (!(l.occurring t).isEmpty || !(r.occurring t).isEmpty) =
            !(l.occurring t ++ r.occurring t).isEmpty := by
          cases l.occurring t <;> rfl
        rw [hflags] at hrun'
        cases c? with
        | none => exact .fails hrun hrun'
        | some u => exact .checks hrun hrun' (.arithmetic span ho hd h h' (hmem u rfl))

end Check

/-! ### Lambdas -/

theorem Expr.occurring_eq {t : ParameterTable} {sym : Symbol} : ∀ {e : Expr},
    sym ∈ e.occurring t → ∃ i d, t.parameters[i]? = some d ∧ sym = ⟨d.name, .parameter i, d.type⟩
  | .name _, h => t.denoted?_eq (Option.mem_toList.mp h)
  | .unary _ e _, h => occurring_eq (e := e) h
  | .binary _ l r _, h =>
    (List.mem_append.mp h).elim (occurring_eq (e := l)) (occurring_eq (e := r))

namespace Lambda

variable {host : Host} {arguments : List Value} {o : Options} {ds : List Declaration}
  {implicit : Option Nat} {text : String} {records : RecordCache} {t : ParameterTable} {e : Expr}

/-- A text compiles alike for parameters and for lifted parameters. -/
theorem compile_arithmetic (hmake : ParameterTable.make ds implicit = .ok t)
    (hparse : Expr.parse (o.grammar t) text.toList = .ok e) (he : e.Arithmetic t)
    (records : RecordCache) :
    (∃ x y, compile o ds implicit .inferred text records = (.error x, records) ∧
      compile o (ds.map Declaration.lifted) implicit .inferred text records =
        (.error y, records)) ∨
    ∃ p a b, Term.Lifts (e.occurring t) p a b ∧
      compile o ds implicit .inferred text records =
        (.ok ⟨ds, a, a.type, .ofDelegate none ds a.type⟩, records) ∧
      compile o (ds.map Declaration.lifted) implicit .inferred text records =
        (.ok ⟨ds.map Declaration.lifted, b, b.type,
          .ofDelegate none (ds.map Declaration.lifted) b.type⟩, records) := by
  have hgrammar : o.grammar t.lifted = o.grammar t := by
    rw [Options.grammar, ParameterTable.declares_lifted]
    rfl
  have hrun {ds : List Declaration} {t : ParameterTable} {r : Except Failure Term}
      (hmake : ParameterTable.make ds implicit = .ok t)
      (hparse : Expr.parse (o.grammar t) text.toList = .ok e)
      (he : Check.expr o e ⟨records, .ofTable t⟩ = (r, ⟨records, .ofTable t⟩)) :
      compile o ds implicit .inferred text records =
        (r.map fun a => ⟨ds, a, a.type, .ofDelegate none ds a.type⟩, records) := by
    unfold compile
    rw [hmake]
    dsimp only
    rw [hparse]
    dsimp only
    rw [Expr.check, he]
    cases r <;> rfl
  have hmake' := ParameterTable.make_lifted hmake
  have hparse' : Expr.parse (o.grammar t.lifted) text.toList = .ok e := by rw [hgrammar, hparse]
  cases Check.expr_lifted (o := o) he records with
  | fails ha hb => exact .inl ⟨_, _, hrun hmake hparse ha, hrun hmake' hparse' hb⟩
  | checks ha hb h => exact .inr ⟨_, _, _, h, hrun hmake hparse ha, hrun hmake' hparse' hb⟩

/-- Under the name of a parameter stands the argument of the last parameter alike. -/
theorem lookup_occurring {sym : Symbol} (hsym : sym ∈ e.occurring t)
    (hlen : t.parameters.length = arguments.length) (env : Environment) :
    ∃ i v, sym.kind = .parameter i ∧
      arguments[Declaration.lastAlike t.parameters i]? = some v ∧
      (((t.parameters.map Declaration.boundName).zip arguments).reverse ++ env).lookup
        sym.boundName = some v := by
  obtain ⟨i, d, hd, rfl⟩ := Expr.occurring_eq hsym
  obtain ⟨v, hv, hl⟩ := Eval.places_lastAlike hlen env i d hd
  exact ⟨i, v, rfl, hv, hl⟩

/-- Without null among the arguments a lambda and its lifted form do the same. -/
theorem invoke_lifted {p : Prim} {a b : Term} {returns returns' delegate delegate' : Ty}
    (h : Term.Lifts (e.occurring t) p a b) (hr : returns.isVoid = false)
    (hr' : returns'.isVoid = false) (hn : ∀ v ∈ arguments, v.isNull = false) :
    invoke host ⟨t.parameters.map Declaration.lifted, b, returns', delegate'⟩ arguments =
      invoke host ⟨t.parameters, a, returns, delegate⟩ arguments := by
  by_cases hlen : t.parameters.length = arguments.length
  · funext k
    rw [invoke_eq_body (by simpa using hlen) hr', invoke_eq_body hlen hr]
    obtain ⟨x, ha, hb, -⟩ := h.agree host (k := { k with environment :=
      ((t.parameters.map Declaration.boundName).zip arguments).reverse ++ k.environment })
      fun sym hsym v hv => by
        obtain ⟨i, w, -, hw, hl⟩ := lookup_occurring hsym hlen k.environment
        obtain rfl : v = w := Option.some_inj.mp (hv.symm.trans hl)
        exact hn v (List.mem_of_getElem? hw)
    dsimp only
    rw [Declaration.boundNames_lifted, Eval.withBindings_apply ha, Eval.withBindings_apply hb]
  · have hne : (t.parameters.length != arguments.length) = true := by simpa using hlen
    unfold invoke
    simp only [List.length_map, hne]
    rfl

/-- A lifted form comes to null if the argument of a parameter in it is null. -/
theorem invoke_lifted_null {p : Prim} {a b : Term} {returns delegate : Ty}
    (h : Term.Lifts (e.occurring t) p a b) (hr : returns.isVoid = false)
    (hargs : ConformsAll host ((t.parameters.map Declaration.lifted).map (·.type)) arguments)
    (hit : ∀ d ∈ t.parameters, ∀ d' ∈ t.parameters, d.boundName = d'.boundName → d.type = d'.type)
    (hnull : ∃ sym ∈ e.occurring t, ∃ i, sym.kind = .parameter i ∧
      arguments[Declaration.lastAlike t.parameters i]? = some .null) (k : EvalContext) :
    invoke host ⟨t.parameters.map Declaration.lifted, b, returns, delegate⟩ arguments k =
      (.ok .null, k) := by
  have hlen : t.parameters.length = arguments.length := by
    simpa using (conformsAll_iff.mp hargs).length_eq
  have hconf : ∀ sym ∈ e.occurring t, ∃ v,
      (((t.parameters.map Declaration.boundName).zip arguments).reverse ++ k.environment).lookup
        sym.boundName = some v ∧ Conforms host sym.lifted.type v := fun sym hsym => by
    obtain ⟨i, d, hd, rfl⟩ := Expr.occurring_eq hsym
    obtain ⟨v, hv, hconf⟩ := Declaration.lastNamed_conforms hargs
      (List.mem_map_of_mem (f := Declaration.lifted) (List.mem_of_getElem? hd))
      fun d' hd' hname => by
        obtain ⟨c, hc, rfl⟩ := List.mem_map.mp hd'
        exact congrArg Ty.lifted (hit c hc d (List.mem_of_getElem? hd) hname)
    refine ⟨v, ?_, hconf⟩
    rw [← Declaration.boundNames_lifted, List.lookup_append,
      Declaration.lookup_bindings _ (by simpa using hlen)]
    exact Option.or_eq_some_iff.mpr (.inl hv)
  obtain ⟨w, hw⟩ := h.yields host (k := { k with environment :=
    ((t.parameters.map Declaration.boundName).zip arguments).reverse ++ k.environment }) hconf
  obtain ⟨sym, hsym, i, hkind, hi⟩ := hnull
  obtain ⟨j, v, hj, hv, hl⟩ := lookup_occurring hsym hlen k.environment
  obtain rfl : i = j := SymbolKind.parameter.inj (hkind.symm.trans hj)
  obtain rfl : v = .null := Option.some_inj.mp (hv.symm.trans hi)
  obtain rfl := hw.null ⟨sym, hsym, hl⟩
  rw [invoke_eq_body (by simpa using hlen) hr, Declaration.boundNames_lifted]
  exact Eval.withBindings_apply hw.run

/-- **A sum, difference, product or negation of numbers lifts to null.** The text
compiles for parameters with null just if it does for the parameters. Its type is
then the nullable form of the type, if a parameter occurs. Where no argument is
null the lambda does what it does without null. It yields null where a parameter
that occurs is null and the arguments are of the lifted types, if parameters
bound to one name are of one type: a parameter gets the argument of the last one
that is bound to its name. -/
theorem compile_lifted (hmake : ParameterTable.make ds implicit = .ok t)
    (hparse : Expr.parse (o.grammar t) text.toList = .ok e) (he : e.Arithmetic t)
    (records : RecordCache) :
    let compiled := compile o ds implicit .inferred text records
    let lifted := compile o (ds.map Declaration.lifted) implicit .inferred text records
    ((∃ f, compiled.1 = .ok f) ↔ ∃ g, lifted.1 = .ok g) ∧
    ∀ f g, compiled.1 = .ok f → lifted.1 = .ok g →
      (∃ p, f.returns = .prim p ∧
        g.returns = if e.occurring t = [] then .prim p else .nullable p) ∧
      (∀ host arguments, (∀ v ∈ arguments, v.isNull = false) →
        g.invoke host arguments = f.invoke host arguments) ∧
      ∀ host arguments,
        ConformsAll host ((ds.map Declaration.lifted).map (·.type)) arguments →
        (∀ d ∈ ds, ∀ d' ∈ ds, d.boundName = d'.boundName → d.type = d'.type) →
        (∃ sym ∈ e.occurring t, ∃ i, sym.kind = .parameter i ∧
          arguments[Declaration.lastAlike ds i]? = some .null) →
        ∀ k, g.invoke host arguments k = (.ok .null, k) := by
  dsimp only
  rcases compile_arithmetic hmake hparse he records with ⟨x, y, hf, hg⟩ | ⟨p, a, b, h, hf, hg⟩
  · rw [hf, hg]
    refine ⟨⟨fun h => ?_, fun h => ?_⟩, fun f g h => ?_⟩
    · obtain ⟨f, h⟩ := h
      cases h
    · obtain ⟨f, h⟩ := h
      cases h
    · cases h
  rw [hf, hg]
  obtain ⟨hp, hta, htb⟩ := h.type_eq
  obtain ⟨rfl, hdup⟩ := ParameterTable.make_ok hmake
  refine ⟨⟨fun _ => ⟨_, rfl⟩, fun _ => ⟨_, rfl⟩⟩, fun f g hf hg => ?_⟩
  cases hf
  cases hg
  refine ⟨⟨p, hta, ?_⟩, fun host arguments hn => ?_, fun host arguments hargs hit hnull k => ?_⟩
  · show b.type = _
    rw [htb]
    cases e.occurring t <;> rfl
  · exact invoke_lifted h (by rw [hta]; rfl) (by rw [htb, Ty.isVoid_lift]) hn
  · exact invoke_lifted_null h (by rw [htb, Ty.isVoid_lift]) hargs hit hnull k

set_option maxRecDepth 2000 in
/-- A parameter and a literal: their sum is null with null, and else what it is
without. -/
theorem compile_lifted_sum :
    ∃ f g, compile {} [⟨"x", .int32⟩] none .inferred "x + 1" .empty = (.ok f, .empty) ∧
      compile {} [⟨"x", .nullable (.int .int32)⟩] none .inferred "x + 1" .empty = (.ok g, .empty) ∧
      g.returns = .nullable (.int .int32) ∧ ∀ host k,
        g.invoke host [.int32 5] k = f.invoke host [.int32 5] k ∧
        g.invoke host [.null] k = (.ok .null, k) := by
  have hmake : ParameterTable.make [⟨"x", .int32⟩] none = .ok ⟨[⟨"x", .int32⟩], none⟩ := rfl
  have hx : ParameterTable.denoted? ⟨[⟨"x", .int32⟩], none⟩ "x" =
      some ⟨"x", .parameter 0, .int32⟩ := by with_unfolding_all rfl
  have hparse : Expr.parse (Options.grammar {} ⟨[⟨"x", .int32⟩], none⟩) "x + 1".toList =
      .ok (.binary .add (.name ⟨"x", ⟨0, 1⟩⟩) (.literal (.integer 1 false .none) "1" ⟨4, 1⟩)
        ⟨0, 5⟩) := by with_unfolding_all rfl
  have hf : compile {} [⟨"x", .int32⟩] none .inferred "x + 1" .empty =
      (.ok ⟨[⟨"x", .int32⟩], .binary .add (.parameter "x" .int32 ⟨0, 1⟩)
          (.constant (.int (.wrap .int32 1)) .int32 ⟨4, 1⟩) .int32 ⟨0, 5⟩, .int32,
        .ofDelegate none [⟨"x", .int32⟩] .int32⟩, .empty) := by with_unfolding_all rfl
  have hg : compile {} [⟨"x", .nullable (.int .int32)⟩] none .inferred "x + 1" .empty =
      (.ok ⟨[⟨"x", .nullable (.int .int32)⟩],
        .binary .add (.parameter "x" (.nullable (.int .int32)) ⟨0, 1⟩)
          (.convert (.constant (.int (.wrap .int32 1)) .int32 ⟨4, 1⟩) (.nullable (.int .int32))
            ⟨4, 1⟩) (.nullable (.int .int32)) ⟨0, 5⟩, .nullable (.int .int32),
        .ofDelegate none [⟨"x", .nullable (.int .int32)⟩] (.nullable (.int .int32))⟩,
        .empty) := by with_unfolding_all rfl
  obtain ⟨-, hlifted⟩ := compile_lifted hmake hparse
    (.binary _ (.inl rfl) (.name hx rfl rfl) (.integer _ _ _ _ _)) .empty
  obtain ⟨-, hsame, hnull⟩ := hlifted _ _ (congrArg Prod.fst hf) (congrArg Prod.fst hg)
  refine ⟨_, _, hf, hg, rfl, fun host k => ⟨?_, ?_⟩⟩
  · exact congrFun (hsame host [.int32 5] (List.forall_mem_singleton.mpr rfl)) k
  · exact hnull host [.null] ⟨_, _, rfl, .inl rfl, rfl⟩ (by simp)
      ⟨⟨"x", .parameter 0, .int32⟩, by simp [Expr.occurring, hx], 0, rfl, rfl⟩ k
/-- Two parameters that are both bound to `it`: the text stands for the first, whose
argument is null, and comes to the second. -/
theorem compile_lifted_alike :
    let ds : List Declaration := [⟨"", .int32⟩, ⟨"", .int32⟩]
    let it : Symbol := ⟨"", .parameter 0, .int32⟩
    let e : Expr := .name ⟨"it", ⟨0, 2⟩⟩
    Expr.parse (Options.grammar {} ⟨ds, some 0⟩) "it".toList = .ok e ∧
      e.Arithmetic ⟨ds, some 0⟩ ∧ e.occurring ⟨ds, some 0⟩ = [it] ∧
      ∃ g, ofContext {} (.nullable (.int .int32)) (some (ds.map Declaration.lifted)) none "it"
          .empty = (.ok g, .empty) ∧ ∀ host,
        ConformsAll host ((ds.map Declaration.lifted).map (·.type)) [.null, .int32 5] ∧
          (g.invoke host [.null, .int32 5] (.start 0)).1 = .ok (.int32 5) := by
  intro ds it e
  have hit : ParameterTable.denoted? ⟨ds, some 0⟩ "it" = some it := rfl
  refine ⟨rfl, .name hit rfl rfl, ?_, ⟨ds.map Declaration.lifted, .parameter "it"
    (.nullable (.int .int32)) ⟨0, 2⟩, .nullable (.int .int32), .ofDelegate none
    (ds.map Declaration.lifted) (.nullable (.int .int32))⟩, rfl, fun host => ⟨?_, rfl⟩⟩
  · rw [Expr.occurring, hit]
    rfl
  · exact ⟨_, _, rfl, .inl rfl, _, _, rfl, .inr ⟨_, rfl, rfl⟩, rfl⟩

end Lambda
end QueryExpr
