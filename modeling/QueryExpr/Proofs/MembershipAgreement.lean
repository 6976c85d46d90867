/-
# Membership agrees with equality

A membership in a list of integers, characters, truth values, texts or nulls comes to
what the chain of equalities with its candidates comes to, and a membership in a
source that is a bare name or a chain of members to what the aggregate `Contains` of
that source comes to.

It is not so where a character above sixteen bits is brought to another form of its
type: that cuts it, and the common type of a list may be such a form where the type of
a single equality is not.

Key theorems: `Eval.term_of_bare`, `Check.expr_of_bare`, `Term.Typed.delivers`,
`Check.membership_agrees`.
-/
import QueryExpr.Lambda.Compile
import QueryExpr.Proofs.ListedEquality
import QueryExpr.Proofs.RenamedLambda
import QueryExpr.Proofs.SafeTerms
import QueryExpr.Proofs.SourceMembership

namespace QueryExpr

/-! ### Places -/

namespace Eval

variable {f : Nat → Nat}

mutual
/-- Terms that have been moved are evaluated like those they come from. -/
theorem term_relocate (host : Host) : ∀ e : Term, term host (e.relocate f) = term host e
  | .constant .. | .parameter .. => rfl
  | .member e .. | .aggregate _ e .. | .convert e .. | .unary _ e .. => by
    rw [Term.relocate, term, term, term_relocate host e]
  | .index e es .. | .call e _ es .. | .intrinsic _ e es .. | .inList e es ..
  | .invoke e es .. => by
    rw [Term.relocate, term, term, term_relocate host e, terms_relocate host es]
  | .function _ es .. | .newArray es .. => by
    rw [Term.relocate, term, term, terms_relocate host es]
  | .newRecord es t _ => by
    cases t with
    | record => rw [Term.relocate, term, term, terms_relocate host es]
    | _ => rfl
  | .aggregateBy _ e e' .. | .aggregateWith _ e e' .. | .coalesce e e' ..
  | .inSequence e e' .. => by
    rw [Term.relocate, term, term, term_relocate host e, term_relocate host e']
  | .binary op e e' .. => by
    cases op <;> simp only [Term.relocate, term, term_relocate host e, term_relocate host e']
  | .conditional c a b .. => by
    rw [Term.relocate, term, term, term_relocate host c, term_relocate host a,
      term_relocate host b]
termination_by structural e => e

theorem terms_relocate (host : Host) : ∀ es : List Term,
    terms host (Term.relocateAll f es) = terms host es
  | [] => rfl
  | e :: es => by rw [Term.relocateAll, terms, terms, term_relocate host e, terms_relocate host es]
termination_by structural es => es
end

/-- Terms that differ in nothing but places come to the same. -/
theorem term_of_bare {e e' : Term} (host : Host) (h : e'.bare = e.bare) :
    term host e' = term host e := by
  rw [← term_relocate (f := fun _ => 0) host e', ← term_relocate (f := fun _ => 0) host e]
  exact congrArg (term host) h

/-- A term that is safe comes to values of its type. -/
theorem Safe.delivers {host : Host} {env : Environment} {e : Term}
    (h : Safe host env (Conforms host e.type) (term host e)) : Delivers host env e := by
  intro c v d hc hv
  obtain ⟨-, _, -, hok, -⟩ := h c hc
  exact .inl (hok v (by rw [hv]))

end Eval

/-- Over types that are safe to work with, what the rules make comes to values of its
type, if the names in scope do. -/
theorem Term.Typed.delivers {D : Discipline} (hD : D.Safe) {s : Scopes} {e : Term}
    (h : Typed D s e) (hs : s.Valued D) {host : Host} {env : Environment} (hf : s.Fits host env) :
    Eval.Delivers host env e :=
  (h.safe hD hs hf).delivers

namespace Check

open Eval

variable {o : Options} {k k' : Context} {b : Term}

/-- What differs in nothing but places is checked to what differs in nothing but
places. -/
theorem expr_of_bare {e e' : Expr} (hbare : e'.bare = e.bare) (h : expr o e k = (.ok b, k')) :
    ∃ b', expr o e' k = (.ok b', k') ∧ b'.bare = b.bare := by
  have hzero : Monotone fun _ : Nat => 0 := fun _ _ _ => Nat.le_refl _
  have hcheck := moved_expr hzero o e k
  rw [← Expr.bare_eq_relocate, ← hbare, Expr.bare_eq_relocate, moved_expr hzero o e' k, h] at hcheck
  obtain ⟨hresult, hcontext⟩ := Prod.mk.inj hcheck
  rcases hc : expr o e' k with ⟨failure | b', d⟩ <;> rw [hc] at hresult hcontext
  · cases hresult
  · obtain rfl : d = k' := hcontext
    exact ⟨b', rfl, Except.ok.inj hresult⟩

/-- **Main result.** A membership in a list and the chain of equalities with its
candidates that are both accepted have the same operands, and agree. A membership in a
source that is a bare name or a chain of members is accepted just if the aggregate
`Contains` of the source is, and the two agree. Of the expressions nothing is asked but
that they are written so, wherever their parts stand. -/
theorem membership_agrees (o : Options) (k : Context) :
    (∀ (x c : Expr) (cs : List Expr), Expr.AllRegular (· ≠ implicitName) (x :: c :: cs) →
      ∀ (e e' : Expr) (b b' : Term) (k₁ k₂ : Context),
        e.bare = (Expr.inList x (c :: cs) (.empty 0)).bare → e'.bare = (x.anyEqual c cs).bare →
        expr o e k = (.ok b, k₁) → expr o e' k = (.ok b', k₂) →
        k₂ = k₁ ∧ ∃ a es, values (exprs o (x :: c :: cs)) k = (.ok (a :: es), k₁) ∧
          ListAgreement a es b b') ∧
    ∀ (x s : Expr) (source : Term) (k₀ : Context) (t : Ty), s.isPath = true →
      expr o s k = (.ok source, k₀) → source.type.element? = some t →
      ∀ e e' : Expr, e.bare = (Expr.inSource x s (.empty 0)).bare →
        e'.bare = (Expr.callOn s ⟨"Contains", .empty 0⟩ [x] (.empty 0)).bare →
        ((∃ b k₁, expr o e k = (.ok b, k₁)) ↔ ∃ b k₁, expr o e' k = (.ok b, k₁)) ∧
        ∀ (b b' : Term) (k₁ k₂ : Context), expr o e k = (.ok b, k₁) →
          expr o e' k = (.ok b', k₂) →
          k₂ = k₁ ∧ ∃ a, value (expr o x) k = (.ok a, k₁) ∧
            SourceAgreement source (a.convertTo t) b b' := by
  constructor
  · intro x c cs hregular e e' b b' k₁ k₂ he he' hb hb'
    obtain ⟨b₀, hb₀, hbare⟩ := expr_of_bare he.symm hb
    obtain ⟨b₀', hb₀', hbare'⟩ := expr_of_bare he'.symm hb'
    obtain ⟨hk, a, es, hvalues, hagree⟩ := listed_agrees hregular hb₀ hb₀'
    refine ⟨hk, a, es, hvalues, fun hd hfloating host n env hsuits => ?_⟩
    rw [← term_of_bare host hbare, ← term_of_bare host hbare']
    exact hagree hd hfloating host n env hsuits
  · intro x s source k₀ t hp hs ht e e' he he'
    constructor
    · constructor
      · rintro ⟨b, k₁, hb⟩
        obtain ⟨b₀, hb₀, -⟩ := expr_of_bare he.symm hb
        obtain ⟨a, ha, hassignable, -⟩ := (inSource_ok_iff hp hs ht).mp hb₀
        obtain ⟨b', hb', -⟩ :=
          expr_of_bare he' ((contains_ok_iff hp hs ht).mpr ⟨a, ha, hassignable, rfl⟩)
        exact ⟨b', k₁, hb'⟩
      · rintro ⟨b', k₁, hb'⟩
        obtain ⟨b₀, hb₀, -⟩ := expr_of_bare he'.symm hb'
        obtain ⟨a, ha, hassignable, -⟩ := (contains_ok_iff hp hs ht).mp hb₀
        obtain ⟨b, hb, -⟩ :=
          expr_of_bare he ((inSource_ok_iff hp hs ht).mpr ⟨a, ha, hassignable, rfl⟩)
        exact ⟨b, k₁, hb⟩
    · intro b b' k₁ k₂ hb hb'
      obtain ⟨b₀, hb₀, hbare⟩ := expr_of_bare he.symm hb
      obtain ⟨b₀', hb₀', hbare'⟩ := expr_of_bare he'.symm hb'
      obtain ⟨a, ha, -, rfl⟩ := (inSource_ok_iff hp hs ht).mp hb₀
      obtain ⟨a', ha', -, rfl⟩ := (contains_ok_iff hp hs ht).mp hb₀'
      cases ha.symm.trans ha'
      refine ⟨rfl, a, ha, ?_⟩
      intro host c d w items u
      rw [← term_of_bare host hbare, ← term_of_bare host hbare']
      exact sourceAgreement_of_path (path_leaves hp hs).2 host c d w items u

/-- A number is looked for among another one and the constant one, which takes two
types, and among the elements of a sequence. -/
theorem membership_agrees_numbers :
    let x : Expr := .name ⟨"x", .empty 0⟩
    let y : Expr := .name ⟨"y", .empty 0⟩
    let one : Expr := .literal (.integer 1 false .none) "1" (.empty 0)
    let xs : Expr := .name ⟨"xs", .empty 0⟩
    let long : Ty := .prim (.int .int64)
    let k : Context := ⟨.empty,
      .ofTable ⟨[⟨"x", .int32⟩, ⟨"y", long⟩, ⟨"xs", .sequence .int32⟩], none⟩⟩
    let env : Environment := [("x", .int32 1), ("y", .scalar (.int (.wrap .int64 2))),
      ("xs", .list 0 [.int32 1])]
    ∃ b b' d d' a es source, expr {} (.inList x [y, one] (.empty 0)) k = (.ok b, k) ∧
      expr {} (x.anyEqual y [one]) k = (.ok b', k) ∧
      values (exprs {} [x, y, one]) k = (.ok (a :: es), k) ∧
      (∀ e ∈ a :: es, e.type.isDiscrete = true) ∧
      (∀ e t, Converted a es e t → t.isFloating = false) ∧ Suits Script.empty.host 1 env a es ∧
      (∃ r, Comes 1 env (term Script.empty.host b) r ∧ Comes 1 env (term Script.empty.host b') r) ∧
      expr {} xs k = (.ok source, k) ∧ source.type.element? = some .int32 ∧
      expr {} (.inSource x xs (.empty 0)) k = (.ok d, k) ∧
      expr {} (.callOn xs ⟨"Contains", .empty 0⟩ [x] (.empty 0)) k = (.ok d', k) ∧
      term Script.empty.host d ⟨env, 1, []⟩ = (.ok (.boolean true), ⟨env, 1, []⟩) ∧
      term Script.empty.host d' ⟨env, 1, []⟩ = (.ok (.boolean true), ⟨env, 1, []⟩) := by
  intro x y one xs long k env
  let a : Term := .parameter "x" .int32 (.empty 0)
  let e : Term := .parameter "y" long (.empty 0)
  let e' : Term := .constant (.int32 1) .int32 (.empty 0)
  let source : Term := .parameter "xs" (.sequence .int32) (.empty 0)
  have hb : expr {} (.inList x [y, one] (.empty 0)) k =
      (.ok (.inList (a.convertTo long) [e, e'.convertTo long] .boolean (.empty 0)), k) := by
    with_unfolding_all rfl
  have hb' : expr {} (x.anyEqual y [one]) k =
      (.ok (a.anyEqual (e, long) [(e', .int32)]), k) := by with_unfolding_all rfl
  have hvalues : values (exprs {} [x, y, one]) k = (.ok [a, e, e'], k) := by
    with_unfolding_all rfl
  have hs : expr {} xs k = (.ok source, k) := by
    show named {} ⟨"xs", .empty 0⟩ k = _
    with_unfolding_all rfl
  have hx : value (expr {} x) k = (.ok a, k) := by
    show value (named {} ⟨"x", .empty 0⟩) k = _
    with_unfolding_all rfl
  have hd : expr {} (.inSource x xs (.empty 0)) k =
      (.ok (.inSequence (a.convertTo .int32) source .boolean (.empty 0)), k) :=
    (inSource_ok_iff rfl hs rfl).mpr ⟨a, hx, by with_unfolding_all rfl, rfl⟩
  have hd' : expr {} (.callOn xs ⟨"Contains", .empty 0⟩ [x] (.empty 0)) k =
      (.ok (.aggregateWith .contains source (a.convertTo .int32) .boolean (.empty 0)), k) :=
    (contains_ok_iff rfl hs rfl).mpr ⟨a, hx, by with_unfolding_all rfl, rfl⟩
  -- the operands come to integers
  have hmem {e₀ : Term} (h : e₀ ∈ [a, e, e']) : e₀ = a ∨ e₀ = e ∨ e₀ = e' := by simpa using h
  have hbest : Ty.bestOf a.type [e, e'] = .ok long := by with_unfolding_all rfl
  have hequal : Ty.equality? a e = some long := by with_unfolding_all rfl
  have hequal' : Ty.equality? a e' = some .int32 := by with_unfolding_all rfl
  have hconverted {e₀ : Term} {t : Ty} (h : Converted a [e, e'] e₀ t) :
      e₀ ∈ [a, e, e'] ∧ (t = long ∨ t = .int32) := by
    have hpair {e₁ : Term} (h₁ : e₁ ∈ [e, e']) (ht : Ty.equality? a e₁ = some t) :
        t = long ∨ t = .int32 := by
      obtain rfl | rfl : e₁ = e ∨ e₁ = e' := by simpa using h₁
      · exact .inl (Option.some_inj.mp (ht.symm.trans hequal))
      · exact .inr (Option.some_inj.mp (ht.symm.trans hequal'))
    cases h with
    | common ht h => exact ⟨h, .inl (Except.ok.inj (ht.symm.trans hbest))⟩
    | left h ht => exact ⟨List.mem_cons_self, hpair h ht⟩
    | right h ht => exact ⟨List.mem_cons_of_mem _ h, hpair h ht⟩
  have hdelivers : ∀ e₀ ∈ [a, e, e'], Delivers Script.empty.host env e₀ := by
    intro e₀ h₀
    obtain rfl | rfl | rfl := hmem h₀
    · exact Safe.delivers (safe_lookup rfl ⟨_, rfl, rfl⟩)
    · exact Safe.delivers (safe_lookup rfl ⟨_, rfl, rfl⟩)
    · exact Safe.delivers (safe_pure ⟨_, rfl, rfl⟩)
  have hsuits : Suits Script.empty.host 1 env a [e, e'] :=
    { blind := Script.isBlind ⟨List.forall_mem_nil _, List.forall_mem_nil _⟩
      below := fun name v hv => by
        have hmem := mem_of_lookup hv
        simp only [env, List.mem_cons, Prod.mk.injEq, List.not_mem_nil, or_false] at hmem
        obtain ⟨-, rfl⟩ | ⟨-, rfl⟩ | ⟨-, rfl⟩ := hmem
        · exact Value.alike_scalar _
        · exact Value.alike_scalar _
        · exact ⟨0, _, rfl, ⟨rfl, Nat.zero_lt_one⟩, .cons (Value.alike_scalar _) .nil⟩
      delivers := hdelivers
      uncut := by
        intro e₀ t h hcuts
        obtain ⟨h₀, ht⟩ := hconverted h
        obtain rfl | rfl | rfl := hmem h₀ <;> obtain rfl | rfl := ht <;> cases hcuts }
  obtain ⟨hlist, hsource⟩ := membership_agrees {} k
  obtain ⟨-, _, _, hv, hagree⟩ := hlist x y [one] ⟨trivial, trivial, trivial, trivial⟩ _ _ _ _ k k
    rfl rfl hb hb'
  cases hvalues.symm.trans hv
  obtain ⟨-, _, hx', hfound⟩ :=
    (hsource x xs source k .int32 rfl hs rfl _ _ rfl rfl).2 _ _ k k hd hd'
  cases hx.symm.trans hx'
  have hdiscrete : ∀ e₀ ∈ [a, e, e'], e₀.type.isDiscrete = true := fun e₀ h₀ => by
    obtain rfl | rfl | rfl := hmem h₀ <;> rfl
  have hfloating : ∀ e₀ t, Converted a [e, e'] e₀ t → t.isFloating = false := fun e₀ t h => by
    obtain rfl | rfl := (hconverted h).2 <;> rfl
  have hsourced := hfound Script.empty.host ⟨env, 1, []⟩ ⟨env, 1, []⟩ (.list 0 [.int32 1])
    [.int32 1] (.ok (.int32 1)) rfl rfl rfl (by decide) fun v hv => .inl (by cases hv; rfl)
  exact ⟨_, _, _, _, a, [e, e'], source, hb, hb', hvalues, hdiscrete, hfloating, hsuits,
    hagree hdiscrete hfloating _ 1 env hsuits, hs, rfl, hd, hd', hsourced.1, hsourced.2⟩

end Check

set_option maxRecDepth 4000 in
/-- A character above sixteen bits is among two others of which it equals none: the type
that all three are brought to cuts it. -/
theorem Lambda.invoke_member_cut :
    let ds : List Declaration := [⟨"x", .char⟩, ⟨"a", .char⟩, ⟨"b", .nullable .char⟩]
    let arguments : List Value := [.scalar (.char '😀'), .scalar (.char (Char.ofNat 0xf600)), .null]
    ∃ f f', ofText {} ds none "x in (a, b)" .empty = (.ok f, .empty) ∧
      ofText {} ds none "x == a || x == b" .empty = (.ok f', .empty) ∧
      ∀ host, ConformsAll host (ds.map (·.type)) arguments ∧
        (f.invoke host arguments (.start 0)).1 = .ok (.boolean true) ∧
        (f'.invoke host arguments (.start 0)).1 = .ok (.boolean false) := by
  intro ds arguments
  have h : ofText {} ds none "x in (a, b)" .empty = (.ok ⟨ds,
      .inList (.convert (.parameter "x" .char ⟨0, 1⟩) (.nullable .char) ⟨0, 1⟩)
        [.convert (.parameter "a" .char ⟨6, 1⟩) (.nullable .char) ⟨6, 1⟩,
          .parameter "b" (.nullable .char) ⟨9, 1⟩] .boolean ⟨0, 11⟩,
      .boolean, .ofDelegate none ds .boolean⟩, .empty) := by with_unfolding_all rfl
  have h' : ofText {} ds none "x == a || x == b" .empty = (.ok ⟨ds,
      .binary .orElse
        (.binary .equal (.parameter "x" .char ⟨0, 1⟩) (.parameter "a" .char ⟨5, 1⟩) .boolean ⟨0, 6⟩)
        (.binary .equal (.convert (.parameter "x" .char ⟨10, 1⟩) (.nullable .char) ⟨10, 1⟩)
          (.parameter "b" (.nullable .char) ⟨15, 1⟩) .boolean ⟨10, 6⟩) .boolean ⟨0, 16⟩,
      .boolean, .ofDelegate none ds .boolean⟩, .empty) := by cbv
  refine ⟨_, _, h, h', fun host => ⟨?_, rfl, rfl⟩⟩
  exact ⟨_, _, rfl, ⟨_, rfl⟩, _, _, rfl, ⟨_, rfl⟩, _, _, rfl, .inl rfl, rfl⟩

end QueryExpr
