/-
# How memberships and chains of equalities are checked

A membership in a list and the chain of equalities with its candidates visit the same
operands in the same order. The chain checks its left operand anew for each candidate,
on a cache that has grown, and comes to the same term each time. What differs are the
types that the operands are brought to.

Key definitions: `Expr.anyEqual`, `Term.equality`, `Term.anyEqual`, `Converted`.
Key theorems: `Check.inList_ok`, `Check.anyEqual_ok`.
-/
import Mathlib.Data.List.Induction
import QueryExpr.Proofs.CarriedSteps
import QueryExpr.Proofs.RepeatedCompile

namespace QueryExpr

/-- The expression `x == c or … or x == d` for the candidates `c`, …, `d`. -/
def Expr.anyEqual (x c : Expr) (cs : List Expr) : Expr :=
  cs.foldl (fun l c => .binary .or l (.binary .equal x c (.empty 0)) (.empty 0))
    (.binary .equal x c (.empty 0))

namespace Term

/-- The equality of an operand and a candidate, both brought to a type. -/
def equality (a : Term) (p : Term × Ty) : Term :=
  .binary .equal (a.convertTo p.2) (p.1.convertTo p.2) .boolean (.empty 0)

/-- Whether an operand equals one of several candidates, each in a type of its own. -/
def anyEqual (a : Term) (p : Term × Ty) (ps : List (Term × Ty)) : Term :=
  ps.foldl (fun l p => .binary .orElse l (a.equality p) .boolean (.empty 0)) (a.equality p)

theorem anyEqual_concat (a : Term) (p q : Term × Ty) (ps : List (Term × Ty)) :
    a.anyEqual p (ps ++ [q]) =
      .binary .orElse (a.anyEqual p ps) (a.equality q) .boolean (.empty 0) := by
  rw [anyEqual, List.foldl_append]
  rfl

theorem type_anyEqual (a : Term) (p : Term × Ty) (ps : List (Term × Ty)) :
    (a.anyEqual p ps).type = .boolean := by
  induction ps using List.reverseRecOn with
  | nil => rfl
  | append_singleton ps q _ => rw [anyEqual_concat]; rfl

end Term

/-- An operand of a membership is brought to a type: to the common type of all, or to
the type of the equality of two. -/
inductive Converted (a : Term) (es : List Term) : Term → Ty → Prop
  | common {e : Term} {t : Ty} : Ty.bestOf a.type es = .ok t → e ∈ a :: es → Converted a es e t
  | left {e : Term} {t : Ty} : e ∈ es → Ty.equality? a e = some t → Converted a es a t
  | right {e : Term} {t : Ty} : e ∈ es → Ty.equality? a e = some t → Converted a es e t

namespace Check

variable {o : Options} {m : Check Term} {ms : List (Check Term)} {k k' : Context} {a b e : Term}
  {es : List Term} {s : Span} {t u : Ty}

/-! ### Memberships in lists -/

theorem values_cons_iff : values (m :: ms) k = (.ok (e :: es), k') ↔
    ∃ d, value m k = (.ok e, d) ∧ values ms d = (.ok es, k') := by
  rw [values, Step.bind_ok_iff]
  constructor
  · rintro ⟨e', d, he, hes⟩
    obtain ⟨es', d', hes', hpure⟩ := Step.bind_ok_iff.mp hes
    cases hpure
    exact ⟨d, he, hes'⟩
  · rintro ⟨d, he, hes⟩
    exact ⟨e, d, he, Step.bind_ok_iff.mpr ⟨es, k', hes, rfl⟩⟩

/-- The candidates are checked one by one, and their types brought to a common one. -/
theorem candidates_ok {operand : Term} (h : candidates operand s t ms k = (.ok (u, es), k')) :
    values ms k = (.ok es, k') ∧ Ty.bestOf t es = .ok u := by
  induction ms generalizing t es k with
  | nil =>
    cases h
    exact ⟨rfl, rfl⟩
  | cons m ms ih =>
    obtain ⟨e, d, he, hrest⟩ := Step.bind_ok_iff.mp h
    dsimp only at hrest
    cases hv : Ty.unify? t e with
    | none =>
      rw [hv] at hrest
      cases hrest
    | some v =>
      rw [hv] at hrest
      obtain ⟨⟨u', es'⟩, d', hes, hpure⟩ := Step.bind_ok_iff.mp hrest
      cases hpure
      obtain ⟨hvalues, hbest⟩ := ih hes
      refine ⟨values_cons_iff.mpr ⟨d, he, hvalues⟩, ?_⟩
      rw [Ty.bestOf, hv]
      exact hbest

/-- **A membership in a list is checked** operand by operand, and all are brought to
the common type. -/
theorem inList_ok (h : inList m ms s k = (.ok b, k')) :
    ∃ a es t, values (m :: ms) k = (.ok (a :: es), k') ∧ Ty.bestOf a.type es = .ok t ∧
      b = .inList (a.convertTo t) (es.map (·.convertTo t)) .boolean s := by
  obtain ⟨a, d, ha, hrest⟩ := Step.bind_ok_iff.mp h
  obtain ⟨⟨t, es⟩, d', hes, hpure⟩ := Step.bind_ok_iff.mp hrest
  cases hpure
  obtain ⟨hvalues, hbest⟩ := candidates_ok hes
  exact ⟨a, es, t, values_cons_iff.mpr ⟨d, ha, hvalues⟩, hbest, rfl⟩

/-! ### Chains of equalities -/

theorem values_concat {es : List Term} {d : Context} (h : values ms k = (.ok es, d))
    (he : value m d = (.ok e, k')) : values (ms ++ [m]) k = (.ok (es ++ [e]), k') := by
  induction ms generalizing k es with
  | nil =>
    cases h
    exact values_cons_iff.mpr ⟨k', he, rfl⟩
  | cons n ns ih =>
    obtain ⟨e', d', he', hrest⟩ := Step.bind_ok_iff.mp h
    obtain ⟨es', d'', hes', hpure⟩ := Step.bind_ok_iff.mp hrest
    cases hpure
    exact values_cons_iff.mpr ⟨d', he', ih hes'⟩

theorem exprs_eq_map (o : Options) (es : List Expr) : exprs o es = es.map (expr o) := by
  induction es with
  | nil => rfl
  | cons e es ih => rw [exprs, ih, List.map_cons]

theorem binary_equal_ok (h : binary o .equal a e s k = (.ok b, k')) :
    k' = k ∧ ∃ t, Ty.equality? a e = some t ∧
      b = .binary .equal (a.convertTo t) (e.convertTo t) .boolean s := by
  unfold binary at h
  simp only [Operation.ofBinaryOp?, operationTypes?] at h
  cases ht : Ty.equality? a e with
  | none => rw [ht] at h; cases h
  | some t =>
    rw [ht] at h
    cases h
    exact ⟨rfl, t, rfl, rfl⟩

theorem binary_or_ok {l r : Term} (hl : l.type = .boolean) (hr : r.type = .boolean)
    (h : binary o .or l r s k = (.ok b, k')) : k' = k ∧ b = .binary .orElse l r .boolean s := by
  have hself {e : Term} (he : e.type = .boolean) : e.convertTo (Ty.lift .boolean false) = e := by
    rw [Term.convertTo, he]
    rfl
  unfold binary at h
  simp only [Operation.ofBinaryOp?, operationTypes?, hl, hr] at h
  cases h
  refine ⟨rfl, ?_⟩
  show Term.binary _ (l.convertTo (Ty.lift .boolean false))
    (r.convertTo (Ty.lift .boolean false)) _ _ = _
  rw [hself hl, hself hr]
  rfl

/-- An operand that has been checked is checked to the same term wherever the cache
has grown from there. -/
theorem value_again (hm : Composed m) (h : value m k = (.ok e, k')) {d : Context}
    (hscopes : d.scopes = k.scopes) (hgrows : k'.records.Grows d.records) :
    value m d = (.ok e, d) := by
  have hagain := (composed_value hm).repeats k d.records (by rw [h]; exact hgrows)
  have hkept := ((composed_value hm).keeps k).1
  rw [h] at hagain hkept
  have hd : ({ k with records := d.records } : Context) = d := by rw [← hscopes]
  have hd' : ({ k' with records := d.records } : Context) = d := by
    rw [show k'.scopes = d.scopes from hkept.trans hscopes.symm]
  rw [← hd, hagain, hd, hd']

/-- **A chain of equalities is checked** operand by operand, and each candidate is
compared in a type that it and the left operand are brought to. -/
theorem anyEqual_ok {x c : Expr} {cs : List Expr}
    (h : expr o (x.anyEqual c cs) k = (.ok b, k')) :
    ∃ a e es t ts, values (exprs o (x :: c :: cs)) k = (.ok (a :: e :: es), k') ∧
      Ty.equality? a e = some t ∧
      List.Forall₂ (fun e t => Ty.equality? a e = some t) es ts ∧
      b = a.anyEqual (e, t) (es.zip ts) := by
  induction cs using List.reverseRecOn generalizing b k' with
  | nil =>
    obtain ⟨a, d, ha, hrest⟩ := Step.bind_ok_iff.mp h
    obtain ⟨e, d', he, hequal⟩ := Step.bind_ok_iff.mp hrest
    obtain ⟨rfl, t, ht, rfl⟩ := binary_equal_ok hequal
    exact ⟨a, e, [], t, [], values_cons_iff.mpr ⟨d, ha, values_cons_iff.mpr ⟨_, he, rfl⟩⟩, ht,
      .nil, rfl⟩
  | append_singleton cs c' ih =>
    have hstep : x.anyEqual c (cs ++ [c']) =
        .binary .or (x.anyEqual c cs) (.binary .equal x c' (.empty 0)) (.empty 0) := by
      rw [Expr.anyEqual, List.foldl_append]
      rfl
    rw [hstep] at h
    obtain ⟨l, d, hl, hrest⟩ := Step.bind_ok_iff.mp h
    obtain ⟨r, d', hr, hor⟩ := Step.bind_ok_iff.mp hrest
    obtain ⟨a, e, es, t, ts, hvalues, ht, hts, rfl⟩ := ih (value_ok hl).1
    obtain ⟨a', d₁, ha', hrest⟩ := Step.bind_ok_iff.mp (value_ok hr).1
    obtain ⟨e', d₂, he', hequal⟩ := Step.bind_ok_iff.mp hrest
    obtain ⟨rfl, t', ht', rfl⟩ := binary_equal_ok hequal
    obtain ⟨rfl, rfl⟩ := binary_or_ok (a.type_anyEqual _ _) rfl hor
    -- the left operand comes to the same term again
    obtain ⟨k₁, ha, hcs⟩ := values_cons_iff.mp hvalues
    have hcomposed : Composed (values (exprs o (c :: cs))) := by
      refine composed_values fun m hm => ?_
      rw [exprs_eq_map] at hm
      obtain ⟨y, -, rfl⟩ := List.mem_map.mp hm
      exact composed_expr o y
    have hkept := hcomposed.keeps k₁
    have hkept₁ := (composed_value (composed_expr o x)).keeps k
    rw [hcs] at hkept
    rw [ha] at hkept₁
    have hagain := value_again (composed_expr o x) ha (hkept.1.trans hkept₁.1) hkept.2
    cases ha'.symm.trans hagain
    refine ⟨a, e, es ++ [e'], t, ts ++ [t'], ?_, ht, ?_, ?_⟩
    · have hall := values_concat hvalues he'
      rw [exprs_eq_map] at hall ⊢
      simpa using hall
    · exact List.rel_append hts (.cons ht' .nil)
    · rw [List.zip_append (by exact hts.length_eq), List.zip_cons_cons, List.zip_nil_left,
        Term.anyEqual_concat]
      rfl

end Check
end QueryExpr
