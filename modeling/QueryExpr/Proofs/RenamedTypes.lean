/-
# Types under other names

What classes declare can go by other names: a renaming says, for the name of a
class, which name each of its properties and methods has instead. The types of
a model are renamed throughout, records apart from their names. Nothing that is
asked of types depends on those names except finding members.

Key definitions: `Renaming`, `Ty.rename`, `Ty.newName`.
Key theorems: `Ty.same_rename`, `Ty.converts_rename`, `Ty.promote?_rename`,
`Ty.rename_self`.
-/
import QueryExpr.Proofs.AggregateForms

namespace QueryExpr

/-- The name that what a class of the first name declares under the second one
has instead. -/
abbrev Renaming := String → String → String

namespace Ty

mutual
/-- The type with what classes declare under other names. -/
def rename (r : Renaming) : Ty → Ty
  | .prim p => .prim p
  | .nullable p => .nullable p
  | .null => .null
  | .void => .void
  | .sequence e => .sequence (e.rename r)
  | .array e => .array (e.rename r)
  | .cls n ps ms is e b v =>
    .cls n (renameProperties r (r n) ps) (renameMethods r (r n) ms) (renameIndexers r is)
      (renameOption r e) (renameOption r b) v
  | .record id ps => .record id (renameProperties r (fun n => n) ps)
  | .delegate n ns ts t => .delegate n ns (renameAll r ts) (t.rename r)
termination_by structural t => t

/-- Properties with types under other names, and new names themselves. -/
def renameProperties (r : Renaming) (f : String → String) :
    List (String × Ty) → List (String × Ty)
  | [] => []
  | (n, t) :: ps => (f n, t.rename r) :: renameProperties r f ps
termination_by structural ps => ps

/-- Methods with types under other names, and new names themselves. -/
def renameMethods (r : Renaming) (f : String → String) :
    List (String × List Ty × Ty) → List (String × List Ty × Ty)
  | [] => []
  | (n, ts, t) :: ms => (f n, renameAll r ts, t.rename r) :: renameMethods r f ms
termination_by structural ms => ms

/-- Indexers with types under other names. -/
def renameIndexers (r : Renaming) : List (List Ty × Ty) → List (List Ty × Ty)
  | [] => []
  | (ts, t) :: is => (renameAll r ts, t.rename r) :: renameIndexers r is
termination_by structural is => is

/-- A type that may be missing. -/
def renameOption (r : Renaming) : Option Ty → Option Ty
  | none => none
  | some t => some (t.rename r)
termination_by structural t => t

/-- The types with what classes declare under other names. -/
def renameAll (r : Renaming) : List Ty → List Ty
  | [] => []
  | t :: ts => t.rename r :: renameAll r ts
termination_by structural ts => ts
end

/-- The name of what the type itself declares under a name, under the renaming. -/
def newName (r : Renaming) : Ty → String → String
  | .cls c _ _ _ _ _ _, n => r c n
  | _, n => n

variable {r : Renaming}

/-! ### Lists of types -/

theorem renameProperties_eq_map (f : String → String) : ∀ ps : List (String × Ty),
    renameProperties r f ps = ps.map fun p => (f p.1, p.2.rename r)
  | [] => rfl
  | (n, t) :: ps => by rw [renameProperties, renameProperties_eq_map f ps, List.map_cons]

theorem renameAll_eq_map (ts : List Ty) : renameAll r ts = ts.map (rename r) := by
  induction ts with
  | nil => rfl
  | cons t ts ih => rw [renameAll, ih, List.map_cons]

theorem renameMethods_eq_map (f : String → String) : ∀ ms : List (String × List Ty × Ty),
    renameMethods r f ms = ms.map fun m => (f m.1, renameAll r m.2.1, m.2.2.rename r)
  | [] => rfl
  | (n, ts, t) :: ms => by rw [renameMethods, renameMethods_eq_map f ms, List.map_cons]

theorem renameIndexers_eq_map : ∀ is : List (List Ty × Ty),
    renameIndexers r is = is.map fun i => (renameAll r i.1, i.2.rename r)
  | [] => rfl
  | (ts, t) :: is => by rw [renameIndexers, renameIndexers_eq_map is, List.map_cons]

theorem renameOption_eq_map (t : Option Ty) : renameOption r t = t.map (rename r) := by
  cases t <;> rfl

/-! ### Equality -/

mutual
/-- Classes are told apart by their own names, which stay. -/
theorem same_rename : ∀ t u : Ty, (t.rename r).same (u.rename r) = t.same u
  | .sequence e, u | .array e, u => by
    cases u <;> simp only [rename, same, same_rename e]
  | .delegate n ns ts t, u => by
    cases u <;> simp only [rename, same, same_rename t, sameAll_rename ts]
  | .prim _, u | .nullable _, u | .null, u | .void, u | .cls .., u | .record .., u => by
    cases u <;> simp only [rename, same]

theorem sameAll_rename : ∀ ts us : List Ty,
    sameAll (renameAll r ts) (renameAll r us) = sameAll ts us
  | [], us => by cases us <;> simp only [renameAll, sameAll]
  | t :: ts, us => by
    cases us with
    | nil => simp only [renameAll, sameAll]
    | cons u us => simp only [renameAll, sameAll, same_rename t, sameAll_rename ts]
end

theorem beq_rename (t u : Ty) : (t.rename r == u.rename r) = (t == u) := same_rename t u

/-! ### What a type is -/

section
variable (t : Ty)

theorem isVoid_rename : (t.rename r).isVoid = t.isVoid := by cases t <;> rfl

theorem isNull_rename : (t.rename r).isNull = t.isNull := by cases t <;> rfl

theorem isString_rename : (t.rename r).isString = t.isString := by
  cases t with
  | prim p => rfl
  | _ => rfl

theorem isNullable_rename : (t.rename r).isNullable = t.isNullable := by cases t <;> rfl

theorem primitive?_rename : (t.rename r).primitive? = t.primitive? := by cases t <;> rfl

theorem isBoolean_rename : (t.rename r).isBoolean = t.isBoolean := by
  rw [isBoolean, isBoolean, primitive?_rename]

theorem isIntegral_rename : (t.rename r).isIntegral = t.isIntegral := by
  rw [isIntegral, isIntegral, primitive?_rename]

theorem acceptsNull_rename : (t.rename r).acceptsNull = t.acceptsNull := by cases t <;> rfl

theorem rename_lift (p : Prim) (n : Bool) : (lift p n).rename r = lift p n := by cases n <;> rfl

theorem nonNullable_rename : (t.rename r).nonNullable = t.nonNullable.rename r := by
  cases t <;> rfl

theorem toNullable?_rename : (t.rename r).toNullable? = t.toNullable?.map (rename r) := by
  cases t with
  | prim p =>
    rw [rename, toNullable?]
    split <;> rfl
  | cls n ps ms is e b v => cases v <;> rfl
  | _ => rfl

theorem element?_rename : (t.rename r).element? = t.element?.map (rename r) := by
  cases t with
  | cls n ps ms is e b v => exact renameOption_eq_map e
  | _ => rfl

theorem ownProperties_rename : (t.rename r).ownProperties =
    t.ownProperties.map fun p => (t.newName r p.1, p.2.rename r) := by
  cases t with
  | cls n ps => exact renameProperties_eq_map _ ps
  | record id ps => exact renameProperties_eq_map _ ps
  | _ => rfl

theorem ownIndexers_rename : (t.rename r).ownIndexers =
    t.ownIndexers.map fun s => ⟨s.parameters.map (rename r), s.returns.rename r⟩ := by
  cases t with
  | cls n ps ms is =>
    rw [rename, ownIndexers, ownIndexers, renameIndexers_eq_map, List.map_map, List.map_map]
    refine List.map_congr_left fun i _ => ?_
    simp only [Function.comp_apply, renameAll_eq_map]
  | _ => rfl

end

theorem bases_rename : ∀ t : Ty, (t.rename r).bases = t.bases.map (rename r)
  | .cls n ps ms is e (some b) v => by
    rw [rename, renameOption, bases, bases, bases_rename b, List.map_cons]
  | .cls n ps ms is e none v => rfl
  | .prim _ | .nullable _ | .null | .void => rfl
  | .sequence _ | .array _ | .record .. | .delegate .. => rfl

theorem chain_rename (t : Ty) : (t.rename r).chain = t.chain.map (rename r) := by
  rw [chain, bases_rename, chain, List.map_cons]

/-! ### Conversions -/

theorem isBaseOf_rename (t u : Ty) : isBaseOf (t.rename r) (u.rename r) = isBaseOf t u := by
  rw [isBaseOf, bases_rename, List.any_map]
  exact congrArg (u.bases.any ·) (funext fun v => beq_rename v t)

theorem convertsByReference_rename (t u : Ty) :
    convertsByReference (t.rename r) (u.rename r) = convertsByReference t u := by
  have hobject : (u.rename r == object) = (u == object) := beq_rename u object
  have hbase := isBaseOf_rename (r := r) u t
  have hsame := beq_rename (r := r) t u
  have hnull := acceptsNull_rename (r := r) t
  unfold convertsByReference
  rw [hsame, hnull, hobject]
  cases t with
  | cls n ps ms is e b v =>
    dsimp only [rename] at hbase ⊢
    rw [hbase]
  | _ => rfl

theorem converts_rename (t u : Ty) : (t.rename r).converts (u.rename r) = t.converts u := by
  have hsame := beq_rename (r := r) t u
  have hbase := isBaseOf_rename (r := r) u t
  have hnull := acceptsNull_rename (r := r) u
  have href (e f : Ty) := convertsByReference_rename (r := r) e f
  have helement (e : Ty) := acceptsNull_rename (r := r) e
  -- what is told apart are the forms of the two types, `Object`, and elements
  cases u with
  | prim p => cases p <;> cases t <;> simp_all only [converts, rename]
  | sequence f =>
    cases t with
    | cls n ps ms is e b v =>
      cases e <;> simp_all only [converts, rename, renameOption]
    | _ => simp_all only [converts, rename]
  | _ => cases t <;> simp_all only [converts, rename]

theorem conversionCost?_rename (t u : Ty) :
    conversionCost? (t.rename r) (u.rename r) = conversionCost? t u := by
  rw [conversionCost?, beq_rename, converts_rename, conversionCost?]

theorem convertsExplicitly_rename (t u : Ty) :
    (t.rename r).convertsExplicitly (u.rename r) = t.convertsExplicitly u := by
  have hobject : (t.rename r == object) = (t == object) := beq_rename t object
  rw [convertsExplicitly, converts_rename, isVoid_rename, isVoid_rename, primitive?_rename,
    primitive?_rename, hobject, isBaseOf_rename, convertsExplicitly]

/-- What comes of lifting a primitive type is no matter of names. -/
theorem map_lift_rename (p : Option Prim) (n : Bool) :
    (p.map (lift · n)).map (rename r) = p.map (lift · n) := by
  cases p with
  | none => rfl
  | some p => exact congrArg some (rename_lift p n)

theorem promote?_rename (t u : Ty) (arithmetic : Bool) :
    promote? (t.rename r) (u.rename r) arithmetic =
      (promote? t u arithmetic).map (rename r) := by
  unfold promote?
  rw [primitive?_rename, primitive?_rename, isNullable_rename, isNullable_rename]
  cases t.primitive? with
  | none => rfl
  | some p =>
    cases u.primitive? with
    | none => rfl
    | some q =>
      dsimp only
      split
      · rfl
      · split
        · exact congrArg some (rename_lift p _).symm
        · exact (map_lift_rename _ _).symm

theorem negation?_rename (t : Ty) : (t.rename r).negation? = t.negation?.map (rename r) := by
  unfold negation?
  rw [primitive?_rename, isNullable_rename]
  exact (map_lift_rename _ _).symm

theorem accumulator?_rename (t : Ty) :
    (t.rename r).accumulator? = t.accumulator?.map (rename r) := by
  unfold accumulator?
  rw [primitive?_rename, isNullable_rename]
  exact (map_lift_rename _ _).symm

end Ty

/-! ### Aggregates -/

namespace Aggregate

variable {r : Renaming} (op : Aggregate) (t u : Ty)

theorem result?_rename : op.result? (t.rename r) = (op.result? t).map (Ty.rename r) := by
  have hordered : (t.rename r).primitive?.any Prim.isOrderable =
      t.primitive?.any Prim.isOrderable := by rw [Ty.primitive?_rename]
  cases op with
  | sum => exact Ty.accumulator?_rename t
  | average =>
    rw [result?, result?, Ty.accumulator?_rename, Option.map_map, Option.map_map]
    refine congrArg (Option.map · _) (funext fun v => ?_)
    simp only [Function.comp_apply, Ty.isIntegral_rename, Ty.isNullable_rename]
    split
    · exact (Ty.rename_lift _ _).symm
    · rfl
  | min | max =>
    rw [result?, result?, hordered]
    split <;> rfl
  | _ => rfl

theorem input?_rename : op.input? (t.rename r) = (op.input? t).map (Ty.rename r) := by
  cases op with
  | sum | average => exact Ty.accumulator?_rename t
  | _ => rfl

theorem plain?_rename : op.plain? (t.rename r) = (op.plain? t).map (Ty.rename r) := by
  cases op with
  | sum => exact result?_rename .sum t
  | average => exact result?_rename .average t
  | min => exact result?_rename .min t
  | max => exact result?_rename .max t
  | _ => rfl

theorem tested?_rename : op.tested? (t.rename r) = (op.tested? t).map (Ty.rename r) := by
  cases op <;> rfl

theorem selected?_rename : op.selected? (t.rename r) (u.rename r) =
    (op.selected? t u).map (Ty.rename r) := by
  cases op with
  | sum => exact result?_rename .sum u
  | average => exact result?_rename .average u
  | min => exact result?_rename .min u
  | max => exact result?_rename .max u
  | _ => rfl

theorem taken?_rename : op.taken? (t.rename r) =
    (op.taken? t).map (Prod.map (Ty.rename r) (Ty.rename r)) := by
  cases op <;> rfl

end Aggregate

/-! ### Names that stay -/

namespace Ty

mutual
/-- Types are what they were if every name stays. -/
theorem rename_self : ∀ t : Ty, t.rename (fun _ n => n) = t
  | .prim _ | .nullable _ | .null | .void => rfl
  | .sequence e | .array e => by rw [rename, rename_self e]
  | .cls n ps ms is e b v => by
    rw [rename, renameProperties_self ps, renameMethods_self ms, renameIndexers_self is,
      renameOption_self e, renameOption_self b]
  | .record id ps => by rw [rename, renameProperties_self ps]
  | .delegate n ns ts t => by rw [rename, renameAll_self ts, rename_self t]
termination_by structural t => t

theorem renameProperties_self : ∀ ps : List (String × Ty),
    renameProperties (fun _ n => n) (fun n => n) ps = ps
  | [] => rfl
  | (n, t) :: ps => by rw [renameProperties, rename_self t, renameProperties_self ps]
termination_by structural ps => ps

theorem renameMethods_self : ∀ ms : List (String × List Ty × Ty),
    renameMethods (fun _ n => n) (fun n => n) ms = ms
  | [] => rfl
  | (n, ts, t) :: ms => by
    rw [renameMethods, renameAll_self ts, rename_self t, renameMethods_self ms]
termination_by structural ms => ms

theorem renameIndexers_self : ∀ is : List (List Ty × Ty), renameIndexers (fun _ n => n) is = is
  | [] => rfl
  | (ts, t) :: is => by
    rw [renameIndexers, renameAll_self ts, rename_self t, renameIndexers_self is]
termination_by structural is => is

theorem renameOption_self : ∀ t : Option Ty, renameOption (fun _ n => n) t = t
  | none => rfl
  | some t => by rw [renameOption, rename_self t]
termination_by structural t => t

theorem renameAll_self : ∀ ts : List Ty, renameAll (fun _ n => n) ts = ts
  | [] => rfl
  | t :: ts => by rw [renameAll, rename_self t, renameAll_self ts]
termination_by structural ts => ts
end

end Ty
end QueryExpr
