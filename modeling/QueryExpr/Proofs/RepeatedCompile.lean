/-
# Compiling again

A compilation asks the cache for record types, adds those it has made, and
keeps them even if it fails later. Made again on any cache that has grown
from there, it asks for the same signatures and gets the same record types,
so it comes to the same lambda or the same failure, and adds nothing.

A cache grows by compiling texts and orderings and by requests. Only a reset
takes record types away.

Key definitions: `Check.Repeats`, `RecordCache.Use`, `RecordCache.afterUses`.
Key theorems: `Check.Built.repeats`, `RecordCache.grows_afterUses`,
`Lambda.compile_of_grows`, `Lambda.compile_again`.
-/
import QueryExpr.Ordering.Clause
import QueryExpr.Proofs.CompiledLambda

namespace QueryExpr

/-! ### Checks -/

namespace Check

variable {α : Type}

/-- Made again with a cache that has grown from where it ended, the check comes
to the same and leaves that cache as it is. -/
def Repeats (m : Check α) : Prop :=
  ∀ c d, (m c).2.records.Grows d →
    m { c with records := d } = ((m c).1, { (m c).2 with records := d })

/-- **A check that is put together from steps on the context repeats**: what its
first step leaves has grown into what its second step leaves. -/
theorem Built.repeats {P : Cause → Prop} {m : Check α} (h : Built P m) : Repeats m := by
  induction h with
  | pure | fail | scopes => exact fun _ _ _ => rfl
  | request ps span =>
    intro c d hd
    rw [request_apply] at hd
    rw [request_apply, request_apply, hd.request_again]
  | withElement type _ ih =>
    intro c d hd
    rw [withElement_apply, withElement_apply]
    have h := ih { c with scopes := c.scopes.push type } d hd
    dsimp only at h ⊢
    rw [h]
  | @bind _ _ m f _ hf ihm ihf =>
    intro c d hd
    rw [Step.bind_apply] at hd ⊢
    rw [Step.bind_apply]
    rcases hm : m c with ⟨e | x, c'⟩ <;> rw [hm] at hd
    · have h := ihm c d (by rw [hm]; exact hd)
      rw [h, hm]
    · have h := ihm c d (by rw [hm]; exact ((hf x).keeps c').2.trans hd)
      rw [h, hm]
      exact ihf x c' d hd

end Check

/-- Checking an expression comes to the same when it is done again. -/
theorem Expr.check_of_grows {e : Expr} {o : Options} {table : ParameterTable}
    {records d : RecordCache} (h : (e.check o table records).2.Grows d) :
    e.check o table d = ((e.check o table records).1, d) := by
  have hr := (Check.composed_expr o e).repeats ⟨records, .ofTable table⟩ d h
  unfold Expr.check
  dsimp only at hr ⊢
  rw [hr]
  rfl

/-! ### Lambdas and orderings -/

namespace Ordering

theorem compileSegment_grows (o : Options) (element : Ty) (table : ParameterTable)
    (text : List Char) (s : Segment) (records : RecordCache) :
    records.Grows (compileSegment o element table text s records).2 := by
  unfold compileSegment
  split
  · exact .refl
  · rename_i e _
    have h := e.check_grows o table records
    split <;> rename_i hc <;> rw [hc] at h
    · exact h
    · split
      · exact h
      · split <;> exact h

theorem compileSegments_grows (o : Options) (element : Ty) (table : ParameterTable)
    (text : List Char) (ss : List Segment) (records : RecordCache) :
    records.Grows (compileSegments o element table text ss records).2 := by
  induction ss generalizing records with
  | nil => exact .refl
  | cons s ss ih =>
    unfold compileSegments
    have h := compileSegment_grows o element table text s records
    split <;> rename_i hs <;> rw [hs] at h
    · exact h
    · rename_i clause d
      have h' := ih d
      split <;> rename_i hss <;> rw [hss] at h' <;> exact h.trans h'

/-- Compiling an ordering makes record types and loses none. -/
theorem compile_grows (o : Options) (element : Ty) (text : String) (records : RecordCache) :
    records.Grows (compile o element text records).2 := by
  unfold compile
  split
  · exact .refl
  · split
    · exact .refl
    · exact compileSegments_grows _ _ _ _ _ _

end Ordering

namespace RecordCache

/-- What a cache is used for, other than being emptied. -/
inductive Use
  | lambda (o : Options) (parameters : List Declaration) (implicit : Option Nat)
      (target : Target) (text : String)
  | ordering (o : Options) (element : Ty) (text : String)
  | recordType (ps : Properties)

/-- The cache behind a use. -/
def afterUse (c : RecordCache) : Use → RecordCache
  | .lambda o parameters implicit target text =>
    (Lambda.compile o parameters implicit target text c).2
  | .ordering o element text => (Ordering.compile o element text c).2
  | .recordType ps => (c.request ps).2

/-- The cache behind several uses in a row. -/
def afterUses (c : RecordCache) (uses : List Use) : RecordCache := uses.foldl afterUse c

theorem grows_afterUse (c : RecordCache) : ∀ use : Use, c.Grows (c.afterUse use)
  | .lambda o parameters implicit target text =>
    Lambda.compile_grows o parameters implicit target text c
  | .ordering o element text => Ordering.compile_grows o element text c
  | .recordType ps => .request ps .refl

/-- However a cache is used, it grows. -/
theorem grows_afterUses (c : RecordCache) (uses : List Use) : c.Grows (c.afterUses uses) := by
  induction uses generalizing c with
  | nil => exact .refl
  | cons use uses ih => exact (c.grows_afterUse use).trans (ih (c.afterUse use))

end RecordCache

namespace Lambda

variable {o : Options} {ds : List Declaration} {implicit : Option Nat} {target : Target}
  {text : String} {records d : RecordCache}

/-- A text compiled again on a cache that has grown since comes to the same. -/
theorem compile_of_grows (h : (compile o ds implicit target text records).2.Grows d) :
    compile o ds implicit target text d = ((compile o ds implicit target text records).1, d) := by
  unfold compile at h ⊢
  split
  · rfl
  · rename_i t ht
    rw [ht] at h
    dsimp only at h
    split
    · rfl
    · rename_i e he
      rw [he] at h
      dsimp only at h
      rcases hc : e.check o t records with ⟨f | body, c⟩ <;> rw [hc] at h
      all_goals
        have hg : (e.check o t records).2.Grows d := by rw [hc]; exact h
        rw [Expr.check_of_grows hg, hc]

/-- **Compiling is repeatable.** Whatever is compiled or asked for in between on
the same cache, as long as it is not emptied, a text compiles to the same
lambda again, record types included, or fails with the same failure, and the
second time leaves the cache as it is. -/
theorem compile_again (o : Options) (ds : List Declaration) (implicit : Option Nat)
    (target : Target) (text : String) (records : RecordCache) (uses : List RecordCache.Use) :
    compile o ds implicit target text
        ((compile o ds implicit target text records).2.afterUses uses) =
      ((compile o ds implicit target text records).1,
        (compile o ds implicit target text records).2.afterUses uses) :=
  compile_of_grows (RecordCache.grows_afterUses _ uses)

end Lambda

end QueryExpr
