/-
# Members of projections

A projection makes a record type of the types of its expressions under their names, or
has one made before, and a record of their values in the order of its properties. A
name is a property of that type at the place at which its value is: the member of a
name has the type of its expression and comes to its value. So whoever can compile the
expressions, over whatever cache, can compile the projection over any other one with
the same declared types.

Key definitions: `Eval.Picks`, `Lambda.Valued`, `Lambda.Compiles`.
Key theorems: `Eval.term_projected`, `Check.projected_ok`, `Check.values_of_checks`,
`Lambda.projection_member`.
-/
import QueryExpr.Proofs.BalancedStacks
import QueryExpr.Proofs.CheckedMemberships
import QueryExpr.Proofs.MembershipAgreement
import QueryExpr.Proofs.ProjectedText
import QueryExpr.Proofs.PropertyNames
import QueryExpr.Proofs.RenumberedCheck

namespace QueryExpr

/-! ### Values -/

namespace Eval

variable {host : Host} {es : List Term} {e : Term} {ps : Properties} {n : String} {i id : Nat}
  {span span' : Span} {t : Ty}

/-- Evaluated in order, the evaluations yield several values of which this one yields
the one at the place; or the first of them that fails does so as this one does. -/
def Picks (ms : List (Eval Value)) (i : Nat) (m : Eval Value) : Prop :=
  ∀ c, (∀ vs d, values ms c = (.ok vs, d) → ∃ v, vs[i]? = some v ∧ m c = (.ok v, d)) ∧
    ∀ failure d, values ms c = (.error failure, d) → m c = (.error failure, d)

theorem length_values {ms : List (Eval Value)} {c d : EvalContext} {vs : List Value}
    (h : values ms c = (.ok vs, d)) : vs.length = ms.length := by
  induction ms generalizing c vs with
  | nil =>
    cases h
    rfl
  | cons m ms ih =>
    obtain ⟨v, c', -, hrest⟩ := Step.bind_ok_iff.mp h
    obtain ⟨vs', d', hvs, hpure⟩ := Step.bind_ok_iff.mp hrest
    cases hpure
    rw [List.length_cons, List.length_cons, ih hvs]

theorem terms_eq_map (host : Host) (es : List Term) : terms host es = es.map (term host) := by
  induction es with
  | nil => rfl
  | cons e es ih => rw [terms, ih, List.map_cons]

/-- The value that a list of values has at a place, or null behind its end. -/
def pick (i : Nat) (vs : List Value) : Eval Value := pure (vs[i]?.getD .null)

theorem picks_pick {ms : List (Eval Value)} (hi : i < ms.length) :
    Picks ms i (values ms >>= pick i) := by
  refine fun c => ⟨fun vs d h => ?_, fun failure d h => ?_⟩
  · have hlt : i < vs.length := (length_values h).symm ▸ hi
    refine ⟨vs[i], List.getElem?_eq_getElem hlt, ?_⟩
    rw [Step.bind_apply, h]
    show (Except.ok (vs[i]?.getD .null), d) = _
    rw [List.getElem?_eq_getElem hlt]
    rfl
  · rw [Step.bind_apply, h]

/-- **A member of a record is the value at the place of its name.** No value is missing
from the record, and none is left over. -/
theorem term_projected (hlength : es.length = ps.length) (hi : ps.findIdx? (·.1 == n) = some i) :
    term host (.member (.newRecord es (.record id ps) span) n t span') =
      values (terms host es) >>= pick i := by
  funext c
  have hlt : i < ps.length := (List.findIdx?_eq_some_iff_findIdx_eq.mp hi).1
  rw [term, term]
  simp only [Step.bind_apply]
  rcases h : values (terms host es) c with ⟨failure | vs, d⟩
  · rfl
  · have hvs : vs.length = ps.length := by
      rw [length_values h, terms_eq_map, List.length_map, hlength]
    have hvs' : i < vs.length := hvs.symm ▸ hlt
    have hrecord : Value.ofRecord ⟨id, ps⟩ vs = .ok (.record ⟨id, ps⟩ vs) := by
      rw [Value.ofRecord, hvs, beq_self_eq_true, if_pos rfl]
    have hmember : (Value.record ⟨id, ps⟩ vs).member host n = .ok vs[i] := by
      rw [Value.member, Value.property?, RecordType.position?, hi, Option.bind_some,
        List.getElem?_eq_getElem hvs']
    dsimp only
    rw [hrecord, ofExcept_apply]
    dsimp only
    rw [hmember, ofExcept_apply]
    show _ = (Except.ok (vs[i]?.getD .null), d)
    rw [List.getElem?_eq_getElem hvs', Option.getD_some]

end Eval

/-- For another number of arguments a lambda fails. -/
theorem Lambda.invoke_of_length_ne {host : Host} {f : Lambda} {arguments : List Value}
    (h : f.parameters.length ≠ arguments.length) : f.invoke host arguments =
      throw (.argumentCount f.parameters.length arguments.length) := by
  unfold invoke
  rw [bne_iff_ne.mpr h]
  rfl

/-- A lambda whose body picks one of the bodies of several lambdas picks one of what they
come to, whatever the arguments. -/
theorem Lambda.picks_invoke {host : Host} {f : Lambda} {fs : List Lambda} {i : Nat}
    (hparameters : ∀ g ∈ fs, g.parameters = f.parameters)
    (hvoid : ∀ g ∈ fs, g.returns.isVoid = false) (hvoid' : f.returns.isVoid = false)
    (hi : i < fs.length) (hbody : Eval.term host f.body =
      Eval.values (Eval.terms host (fs.map (·.body))) >>= Eval.pick i) (arguments : List Value) :
    Eval.Picks (fs.map (·.invoke host arguments)) i (f.invoke host arguments) := by
  by_cases hlength : f.parameters.length = arguments.length
  · have hinvoke : fs.map (·.invoke host arguments) =
        (Eval.terms host (fs.map (·.body))).map
          (Eval.withBindings ((f.parameters.map Declaration.boundName).zip arguments)) := by
      rw [Eval.terms_eq_map, List.map_map, List.map_map]
      refine List.map_congr_left fun g hg => ?_
      rw [g.invoke_eq_body ((hparameters g hg).symm ▸ hlength) (hvoid g hg), hparameters g hg]
      rfl
    rw [f.invoke_eq_body hlength hvoid', hbody, Eval.withBindings_values ?_ ?_, hinvoke]
    · refine Eval.picks_pick ?_
      rwa [List.length_map, Eval.terms_eq_map, List.length_map, List.length_map]
    · intro m hm
      obtain ⟨e, -, rfl⟩ := List.mem_map.mp (Eval.terms_eq_map host _ ▸ hm)
      exact Eval.same_term host e
    · exact fun vs => Eval.still_pure _
  · -- the first of the lambdas fails already
    obtain ⟨g, gs, rfl⟩ := List.exists_cons_of_length_pos (Nat.zero_lt_of_lt hi)
    have hg := hparameters g List.mem_cons_self
    have hthrow : g.invoke host arguments = f.invoke host arguments := by
      rw [invoke_of_length_ne hlength, invoke_of_length_ne (hg.symm ▸ hlength), hg]
    rw [List.map_cons, hthrow, invoke_of_length_ne hlength]
    refine fun c => ⟨fun vs d h => ?_, fun failure d h => ?_⟩
    · cases h
    · cases h
      rfl

/-! ### Checking -/

/-- What can be checked over a cache is checked to the same over one that has grown from
what this leaves. -/
theorem Expr.check_again {e : Expr} {o : Options} {table : ParameterTable} {b : Term}
    {c d d' : RecordCache} (h : e.check o table c = (.ok b, d)) (hg : d.Grows d') :
    e.check o table d' = (.ok b, d') := by
  have hagain : e.check o table d' = ((e.check o table c).1, d') := check_of_grows (by rwa [h])
  rwa [h] at hagain

namespace Check

variable {o : Options} {ts : List Ty} {k k' : Context} {es : List Expr} {bs : List Term}
  {ns : List String}

/-- Names that are written as one word each, and are told apart, can be those of a
record. -/
theorem fault_eq_none (hnamed : ∀ n ∈ ns, Named n) (hdistinct : ns.Nodup)
    {us : List Ty} (hlength : ns.length = us.length) : Properties.fault (ns.zip us) = none := by
  refine (Properties.fault_eq_none_iff _).mpr ⟨fun p hp => ?_, ?_⟩
  · exact (hnamed p.1 (List.of_mem_zip hp).1).isPropertyName
  · rwa [List.map_fst_zip (Nat.le_of_eq hlength)]

/-- The place of a name among names that are told apart, and its type. -/
theorem property_at {us : List Ty} (hdistinct : ns.Nodup) {i : Nat} {n : String} {u : Ty}
    (hn : ns[i]? = some n) (hu : us[i]? = some u) :
    (ns.zip us).findIdx? (·.1 == n) = some i ∧ List.lookup n (ns.zip us) = some u := by
  induction ns generalizing us i with
  | nil => cases hn
  | cons m ns ih =>
    cases us with
    | nil => cases hu
    | cons v us =>
      obtain ⟨hm, hdistinct⟩ := List.nodup_cons.mp hdistinct
      rw [List.zip_cons_cons, List.findIdx?_cons, List.lookup_cons]
      cases i with
      | zero =>
        cases hn
        cases hu
        rw [beq_self_eq_true]
        exact ⟨rfl, rfl⟩
      | succ i =>
        obtain ⟨hfind, hlookup⟩ := ih hdistinct hn hu
        have hne : m ≠ n := by
          rintro rfl
          exact hm (List.mem_of_getElem? hn)
        dsimp only
        rw [beq_false_of_ne hne, beq_false_of_ne hne.symm, hfind]
        exact ⟨rfl, hlookup⟩

/-- **A projection of expressions that have types of their own is accepted**, and makes
a record of just these. -/
theorem newRecord_ok (hvalues : values (exprs o es) k = (.ok bs, k'))
    (hnull : ∀ b ∈ bs, b.type.isNull = false) (hserves : k'.records.Serves ts)
    (hknown : ∀ b ∈ bs, b.type.Throughout (Ty.Known ts k'.records))
    (hnamed : ∀ n ∈ ns, Named n) (hdistinct : ns.Nodup) (hlength : ns.length = bs.length) :
    ∃ id d, k'.records.Grows d ∧
      expr o (.newRecord (ns.map fun n => ⟨n, .empty 0⟩) es (.empty 0)) k =
        (.ok (.newRecord bs (.record id (ns.zip (bs.map Term.type))) (.empty 0)),
          ⟨d, k'.scopes⟩) := by
  let ps : Properties := ns.zip (bs.map Term.type)
  have hps : ∀ p ∈ ps, p.2.Throughout (Ty.Known ts k'.records) := fun p hp => by
    obtain ⟨b, hb, htype⟩ := List.mem_map.mp (List.of_mem_zip hp).2
    exact htype ▸ hknown b hb
  obtain ⟨r, d, hr⟩ : ∃ r d, k'.records.request ps = (.ok r, d) := by
    have hfault : ps.fault = none := fault_eq_none hnamed hdistinct (by simpa using hlength)
    rcases k'.records.request_outcomes ps with ⟨r, -, h⟩ | ⟨cause, -, hc, -⟩ | ⟨-, -, h⟩
    · exact ⟨r, _, h⟩
    · rw [hfault] at hc
      cases hc
    · exact ⟨_, _, h⟩
  have hproperties := (hserves.requested hps hr).2.2
  have hgrows := RecordCache.Grows.refl.request (c := k'.records) ps
  rw [hr] at hgrows
  refine ⟨r.id, d, hgrows, ?_⟩
  have hobjects : (bs.map fun e => if e.type.isNull then e.convertTo .object else e) = bs := by
    refine (List.map_congr_left fun b hb => ?_).trans (List.map_id bs)
    rw [hnull b hb]
    rfl
  have hzip : List.zipWith (fun (n : Name) (e : Term) => (n.text, e.type))
      (ns.map fun n => ⟨n, .empty 0⟩) bs = ps := by
    show _ = List.zipWith Prod.mk ns (bs.map Term.type)
    rw [List.zipWith_map_left, List.zipWith_map_right]
  refine Step.bind_ok_iff.mpr ⟨bs, k', hvalues, ?_⟩
  rw [hobjects, hzip]
  refine Step.bind_ok_iff.mpr ⟨r, ⟨d, k'.scopes⟩, ?_, ?_⟩
  · rw [request_apply, hr]
    rfl
  · rw [RecordType.type, hproperties]
    rfl

/-- **A member of a projection is accepted**, and has the type of its expression. -/
theorem projected_ok (hvalues : values (exprs o es) k = (.ok bs, k'))
    (hnull : ∀ b ∈ bs, b.type.isNull = false) (hserves : k'.records.Serves ts)
    (hknown : ∀ b ∈ bs, b.type.Throughout (Ty.Known ts k'.records))
    (hnamed : ∀ n ∈ ns, Named n) (hdistinct : ns.Nodup) (hlength : ns.length = bs.length) :
    ∃ id d, k'.records.Grows d ∧ ∀ (i : Nat) (n : String) (b : Term),
      ns[i]? = some n → bs[i]? = some b →
      expr o (.member (.newRecord (ns.map fun n => ⟨n, .empty 0⟩) es (.empty 0))
          ⟨n, .empty 0⟩ (.empty 0)) k =
        (.ok (.member (.newRecord bs (.record id (ns.zip (bs.map Term.type))) (.empty 0)) n b.type
          (.empty 0)), ⟨d, k'.scopes⟩) := by
  obtain ⟨id, d, hgrows, hrecord⟩ :=
    newRecord_ok hvalues hnull hserves hknown hnamed hdistinct hlength
  refine ⟨id, d, hgrows, fun i n b hn hb => ?_⟩
  have hu : (bs.map Term.type)[i]? = some b.type := by
    rw [List.getElem?_map, hb]
    rfl
  have hlookup := (property_at hdistinct hn hu).2
  refine Step.bind_ok_iff.mpr ⟨_, _, value_of_ok hrecord rfl, ?_⟩
  unfold member
  rw [Term.type, Ty.member?_record, hlookup]
  rfl

/-- **Expressions that can be checked, each over a cache of its own, can be checked one
after the other over any other cache.** Over the cache that this leaves each of them comes
to the same again. -/
theorem values_of_checks {table : ParameterTable} (htable : ∀ p ∈ table.parameters, p.type ∈ ts)
    {c : RecordCache} (hc : c.Serves ts)
    (hes : ∀ e ∈ es, ∃ c' b d, Caches.Sound ts ⟨c', c⟩ ∧ e.check o table c' = (.ok b, d) ∧
      b.type.isVoid = false ∧ b.type.isNull = false) :
    ∃ bs d, values (exprs o es) ⟨c, .ofTable table⟩ = (.ok bs, ⟨d, .ofTable table⟩) ∧
      d.Serves ts ∧ c.Grows d ∧
      (∀ b ∈ bs, (b.type.isVoid = false ∧ b.type.isNull = false) ∧
        b.type.Throughout (Ty.Known ts d)) ∧
      List.Forall₂ (fun e b => e.check o table d = (.ok b, d)) es bs := by
  induction es generalizing c with
  | nil => exact ⟨[], c, rfl, hc, .refl, List.forall_mem_nil _, .nil⟩
  | cons e es ih =>
    obtain ⟨⟨c', b, d', hsound, hcheck, hvoid, hnull⟩, hes⟩ := List.forall_mem_cons.mp hes
    obtain ⟨b', d, hcheck', hsound', hcorr⟩ := Expr.check_corresponds hsound htable hcheck
    have hgrows : c.Grows d := by
      have := e.check_grows o table c
      rwa [hcheck'] at this
    have hvoid' : b'.type.isVoid = false := by rw [← hcorr.type.isVoid, hvoid]
    have hnull' : b'.type.isNull = false := by rw [← hcorr.type.isNull, hnull]
    -- the caches of the others still go with the one that has grown
    obtain ⟨bs, d'', hvalues, hserves, hgrows', hbs, hchecks⟩ := ih hsound'.right fun e he => by
      obtain ⟨c'', b'', d'', hsound, hrest⟩ := hes e he
      exact ⟨c'', b'', d'', hsound.grows ⟨.refl, hgrows⟩ hsound.left hsound'.right, hrest⟩
    refine ⟨b' :: bs, d'', ?_, hserves, hgrows.trans hgrows', ?_, .cons ?_ hchecks⟩
    · refine Step.bind_ok_iff.mpr ⟨b', _, value_of_ok (expr_of_check hcheck') hvoid', ?_⟩
      exact Step.bind_ok_iff.mpr ⟨bs, _, hvalues, rfl⟩
    · refine List.forall_mem_cons.mpr ⟨⟨⟨hvoid', hnull'⟩, ?_⟩, hbs⟩
      exact hcorr.type.known_right.mono fun _ h => h.mono (fun _ h => h) fun _ => hgrows'.mem
    · exact Expr.check_again hcheck' hgrows'

mutual
/-- How deeply a text may be nested is no matter of checking. -/
theorem expr_maxDepth (o : Options) (limit : Nat) :
    ∀ e : Expr, expr { o with maxDepth := limit } e = expr o e
  | .literal .. | .name _ | .typeName _ => rfl
  | .member target n span => by
    have h := expr_maxDepth o limit target
    cases target with
    | typeName => rfl
    | _ => exact congrArg (fun m => value m >>= fun t => member t n.text span) h
  | .index target arguments span => by
    rw [expr, expr, expr_maxDepth o limit target, exprs_maxDepth o limit arguments]
  | .call n arguments span => by
    rw [expr, expr, exprs_maxDepth o limit arguments]
    rfl
  | .callOn target n arguments span => by
    have h := expr_maxDepth o limit target
    have hs := exprs_maxDepth o limit arguments
    cases target with
    | typeName owner => exact congrArg (callOnType o owner n · span) hs
    | _ => exact congrArg₂ (fun m ms => value m >>= fun t => method t n.text ms span) h hs
  | .conversion type arguments span => by
    rw [expr, expr, exprs_maxDepth o limit arguments]
    rfl
  | .unary op operand span => by rw [expr, expr, expr_maxDepth o limit operand]
  | .binary op left right span => by
    rw [expr, expr, expr_maxDepth o limit left, expr_maxDepth o limit right]
    rfl
  | .conditional c a b span => by
    rw [expr, expr, expr_maxDepth o limit c, expr_maxDepth o limit a, expr_maxDepth o limit b]
  | .inList operand items span => by
    rw [expr, expr, expr_maxDepth o limit operand, exprs_maxDepth o limit items]
  | .inSource operand source span => by
    rw [expr, expr, expr_maxDepth o limit operand, expr_maxDepth o limit source]
  | .newRecord names items span => by rw [expr, expr, exprs_maxDepth o limit items]
  | .newArray type items span => by rw [expr, expr, exprs_maxDepth o limit items]
termination_by structural e => e

theorem exprs_maxDepth (o : Options) (limit : Nat) :
    ∀ es : List Expr, exprs { o with maxDepth := limit } es = exprs o es
  | [] => rfl
  | e :: es => by rw [exprs, exprs, expr_maxDepth o limit e, exprs_maxDepth o limit es]
termination_by structural es => es
end

end Check

theorem Expr.check_maxDepth (e : Expr) (o : Options) (limit : Nat) (table : ParameterTable)
    (c : RecordCache) : e.check { o with maxDepth := limit } table c = e.check o table c := by
  unfold check
  rw [Check.expr_maxDepth]

/-! ### Lambdas -/

namespace Lambda

variable {o : Options} {ds : List Declaration} {implicit : Option Nat} {table : ParameterTable}
  {b : Expr} {c d k : RecordCache} {entries : List (Expr × String)}

/-- A text of the expression compiles over a cache that goes with the given one, to a
lambda that returns values, and not just null. -/
def Valued (o : Options) (ds : List Declaration) (implicit : Option Nat) (table : ParameterTable)
    (k : RecordCache) (e : Expr) : Prop :=
  ∃ text c f d, Expr.parse (o.grammar table) text.toList = .ok e ∧
    Caches.Sound (ds.map (·.type)) ⟨c, k⟩ ∧
    compile o ds implicit .inferred text c = (.ok f, d) ∧
    f.returns.isVoid = false ∧ f.returns.isNull = false

/-- Every text of the expression, up to places, compiles over the cache to a lambda of
which the statement is true, and leaves the other cache. -/
def Compiles (o : Options) (ds : List Declaration) (implicit : Option Nat)
    (table : ParameterTable) (c d : RecordCache) (e : Expr) (P : Lambda → Prop) : Prop :=
  ∀ text e', Expr.parse (o.grammar table) text.toList = .ok e' → e'.bare = e.bare →
    ∃ f, compile o ds implicit .inferred text c = (.ok f, d) ∧ P f

/-- The lambda of a body that returns what the body comes to. -/
def ofBody (ds : List Declaration) (body : Term) : Lambda :=
  ⟨ds, body, body.type, .ofDelegate none ds body.type⟩

theorem compiles_ofBody (htable : ParameterTable.make ds implicit = .ok table) {e : Expr}
    {body : Term} (h : e.check o table c = (.ok body, d)) :
    Compiles o ds implicit table c d e fun f => f.bare = (ofBody ds body).bare :=
  fun _ _ hparse hbare => compile_of_bare htable hparse hbare h rfl

/-- What a member of a projection comes to is picked from what its expressions come to. -/
theorem picks_projected {host : Host} {bs : List Term} {ps : Properties} {n : String} {t : Ty}
    {i id : Nat} {span span' : Span} {g : Lambda}
    (hg : g.bare = (ofBody ds (.member (.newRecord bs (.record id ps) span) n t span')).bare)
    (hlength : bs.length = ps.length) (hi : ps.findIdx? (·.1 == n) = some i)
    (hvoid : ∀ b ∈ bs, b.type.isVoid = false) (ht : t.isVoid = false) (arguments : List Value) :
    Eval.Picks ((bs.map (ofBody ds)).map (·.invoke host arguments)) i
      (g.invoke host arguments) := by
  have hparameters : g.parameters = ds := congrArg Lambda.parameters hg
  have hreturns : g.returns = t := congrArg Lambda.returns hg
  have hmap : (bs.map (ofBody ds)).map (·.body) = bs := by
    rw [List.map_map]
    exact List.map_id bs
  refine picks_invoke (fun f hf => ?_) (fun f hf => ?_) (by rw [hreturns, ht]) ?_ ?_ arguments
  · obtain ⟨b, -, rfl⟩ := List.mem_map.mp hf
    exact hparameters.symm
  · obtain ⟨b, hb, rfl⟩ := List.mem_map.mp hf
    exact hvoid b hb
  · rw [List.length_map, hlength]
    exact (List.findIdx?_eq_some_iff_findIdx_eq.mp hi).1
  · rw [hmap]
    exact (Eval.term_of_bare host (congrArg Lambda.body hg)).trans (Eval.term_projected hlength hi)

/-- A text that is checked to be a member of a record compiles under any limit of the
nesting that it keeps to. -/
theorem compiles_member (htable : ParameterTable.make ds implicit = .ok table) {e : Expr}
    {bs : List Term} {ps : Properties} {n : String} {t : Ty} {i id : Nat} {span span' : Span}
    (h : e.check o table c =
      (.ok (.member (.newRecord bs (.record id ps) span) n t span'), d))
    (hlength : bs.length = ps.length) (hi : ps.findIdx? (·.1 == n) = some i)
    (hvoid : ∀ b ∈ bs, b.type.isVoid = false) (ht : t.isVoid = false) (limit : Nat) :
    Compiles { o with maxDepth := limit } ds implicit table c d e fun g => g.returns = t ∧
      ∀ host arguments, Eval.Picks ((bs.map (ofBody ds)).map (·.invoke host arguments)) i
        (g.invoke host arguments) := by
  intro text e' hparse hbare
  rw [← Expr.check_maxDepth e o limit] at h
  obtain ⟨g, hcompile, hg⟩ := compiles_ofBody htable h text e' hparse hbare
  exact ⟨g, hcompile, congrArg Lambda.returns hg,
    fun host => picks_projected hg hlength hi hvoid ht⟩

theorem Valued.check (htable : ParameterTable.make ds implicit = .ok table) {e : Expr}
    (h : Valued o ds implicit table k e) :
    ∃ c b d, Caches.Sound (ds.map (·.type)) ⟨c, k⟩ ∧ e.check o table c = (.ok b, d) ∧
      b.type.isVoid = false ∧ b.type.isNull = false := by
  obtain ⟨text, c, f, d, hparse, hsound, hcompile, hvoid, hnull⟩ := h
  obtain ⟨t, e', b, ht, hparse', hcheck, hassemble⟩ := compile_ok hcompile
  obtain rfl := Except.ok.inj (ht.symm.trans htable)
  obtain rfl := Except.ok.inj (hparse'.symm.trans hparse)
  cases hassemble
  exact ⟨c, b, d, hsound, hcheck, hvoid, hnull⟩

end Lambda
end QueryExpr
