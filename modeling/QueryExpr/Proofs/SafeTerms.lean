/-
# Terms made by the rules are safe

A term that the rules of typing make, over types that are safe to work with,
evaluates to a value of its type, or fails with an error that is tolerated.
The proof goes along the rules: what a rule asks of its parts is what the
evaluation relies on.

Key definitions: `Scopes.Fits`.
Key theorems: `Scopes.Fits.push`, `Eval.safe_index`, `Eval.safe_call`,
`Term.Typed.safe`.
-/
import QueryExpr.Proofs.Referents
import QueryExpr.Proofs.SafeAggregates

namespace QueryExpr

variable {host : Host} {env : Environment} {t u : Ty} {v : Value} {vs : List Value}

/-! ### Access -/

namespace Eval

/-- An index finds an item, or what the host answers. -/
theorem safe_index {sig : Signature} (hv : Conforms host t v) (hs : sig ∈ Check.indexers t)
    (hvs : ConformsAll host sig.parameters vs) :
    Safe host env (Conforms host sig.returns) (index host v vs) := by
  unfold Check.indexers at hs
  split at hs
  · rw [List.mem_singleton.mp hs] at hvs ⊢
    obtain ⟨i, is, rfl, hi, rfl⟩ := hvs
    rcases hv with rfl | ⟨id, items, rfl, hitems⟩
    · exact safe_throw rfl
    · exact safe_ofExcept (Value.itemAt_fine hi hitems)
  · rw [List.mem_singleton.mp hs] at hvs ⊢
    obtain ⟨i, is, rfl, hi, rfl⟩ := hvs
    rcases hv with rfl | ⟨s, rfl⟩
    · exact safe_throw rfl
    · have hc : Fine (fun _ => True) (Value.itemAt s.toList [i]) :=
        Value.itemAt_fine hi fun _ _ => trivial
      exact safe_ofExcept (hc.map fun c _ => ⟨c, rfl⟩)
  · rcases hv.ownIndexers hs with rfl | ⟨id, name, rfl, ha⟩
    · exact safe_throw rfl
    · exact safe_ask (fun w hw => ha vs w hvs hw) fun e he => ⟨name, he⟩

/-- A method comes to what the host answers. -/
theorem safe_call {sig : Signature} {n : String} (hv : Conforms host t v) (hs : sig ∈ t.methods n)
    (hvs : ConformsAll host sig.parameters vs) :
    Safe host env (Conforms host sig.returns) (call host v n vs) := by
  rcases hv.methods hs with rfl | ⟨id, name, rfl, ha⟩
  · exact safe_throw rfl
  · exact safe_ask (fun w hw => ha vs w hvs hw) fun e he => ⟨name, he⟩

/-- A function comes to what the host answers. -/
theorem safe_invoke {name : Option String} {ns : List String} {ts : List Ty}
    (hv : Conforms host (.delegate name ns ts t) v) (hvs : ConformsAll host ts vs) :
    Safe host env (Conforms host t) (invoke host v vs) := by
  rcases hv with rfl | ⟨id, rfl, ha⟩
  · exact safe_throw rfl
  · exact safe_ask (fun w hw => ha vs w hvs hw) fun e he => he

end Eval

/-! ### Names -/

/-- What the names in scope stand for is bound to values of their types: `it`
in the innermost body, and the parameters that have a name of their own. -/
structure Scopes.Fits (s : Scopes) (host : Host) (env : Environment) : Prop where
  implicit {sym : Symbol} : s.implicit? = some sym →
    ∃ v, env.lookup sym.boundName = some v ∧ Conforms host sym.type v
  named {n : String} {sym : Symbol} : n ≠ implicitName → s.root.lookup? n = some sym →
    sym.isParameter = true → ∃ v, env.lookup sym.boundName = some v ∧ Conforms host sym.type v

/-- The element of a body is bound to `it`, and no other name is. -/
theorem Scopes.Fits.push {s : Scopes} (h : s.Fits host env) (hv : Conforms host t v) :
    (s.push t).Fits host ((implicitName, v) :: env) where
  implicit {sym} hi := by
    obtain rfl : (⟨"", .parameter 0, t⟩ : Symbol) = sym := Option.some.inj hi
    exact ⟨v, rfl, hv⟩
  named {n sym} hn hl hp := by
    obtain ⟨w, hw, hc⟩ := h.named hn hl hp
    obtain ⟨hne, i, d, hd, hdn, rfl⟩ := ParameterTable.lookup?_eq hl hp
    have hb : Symbol.boundName ⟨n, .parameter i, d.type⟩ = n := Symbol.boundName_of_name hne
    rw [hb] at hw ⊢
    have hni : (n == implicitName) = false := by simpa using hn
    rw [List.lookup_cons, hni]
    exact ⟨w, hw, hc⟩

variable {D : Discipline}

/-- A symbol that a name or `it` denotes is bound to a value of its type. -/
theorem Scopes.Fits.denotes (hD : D.Safe) {s : Scopes} (h : s.Fits host env) {sym : Symbol}
    (hs : s.Denotes D sym) :
    ∃ v, env.lookup sym.boundName = some v ∧ Conforms host sym.type v := by
  rcases hs with hi | ⟨n, hn, hl, hp⟩
  · exact h.implicit hi
  · exact h.named (hD.call hn) (Scopes.lookup?_eq hl hp) hp

/-- A scalar is a value of the type that it has by itself. -/
theorem conforms_naturalType (s : Scalar) : Conforms host s.naturalType (.scalar s) := by
  cases s with
  | null => rfl
  | int n => exact ⟨n, rfl, rfl⟩
  | string s => exact .inr ⟨s, rfl⟩
  | _ => exact ⟨_, rfl⟩

/-- A value that is not null is one without the nullability of its type. -/
theorem Conforms.nonNullable (h : Conforms host t v) (hn : v.isNull = false) :
    Conforms host t.nonNullable v := by
  cases t with
  | nullable p =>
    rcases h with rfl | h
    · cases hn
    · exact h
  | _ => exact h

/-- A discipline admits primitive types. -/
theorem Discipline.Lawful.admits_primitive (hD : D.Lawful) {ts : List Ty}
    (h : ∀ t ∈ ts, ∃ p, t = .prim p) : ∀ t ∈ ts, D.Admits t := by
  intro t ht
  obtain ⟨p, rfl⟩ := h t ht
  exact hD.admits_prim p

/-! ### Operands -/

namespace Eval

/-- Operands of the types that are asked for come to values of these types. -/
theorem safe_operands (hD : D.Safe) {es : List Term} {ts : List Ty} (ht : Term.HaveTypes es ts)
    (h : ∀ e ∈ es, Safe host env (Conforms host e.type) (term host e))
    (he : ∀ e ∈ es, D.Admits e.type) (hts : ∀ t ∈ ts, D.Admits t) :
    Safe host env (ConformsAll host ts) (values (terms host es)) := by
  refine safe_values ?_
  induction ht with
  | nil => exact .nil
  | @cons e t es ts het _ ih =>
    have heq := hD.exact (he e List.mem_cons_self) (hts t List.mem_cons_self) het
    refine .cons (heq ▸ h e List.mem_cons_self) (ih ?_ ?_ ?_)
    · exact fun a ha => h a (List.mem_cons_of_mem _ ha)
    · exact fun a ha => he a (List.mem_cons_of_mem _ ha)
    · exact fun u hu => hts u (List.mem_cons_of_mem _ hu)

/-- Operands of one type make a list of values of it. -/
theorem safe_items (hD : D.Safe) {es : List Term} (ht : ∀ e ∈ es, (e.type == t) = true)
    (h : ∀ e ∈ es, Safe host env (Conforms host e.type) (term host e))
    (he : ∀ e ∈ es, D.Admits e.type) (hta : D.Admits t) :
    Safe host env (fun vs => ∀ v ∈ vs, Conforms host t v) (values (terms host es)) := by
  induction es with
  | nil => exact safe_pure (List.forall_mem_nil _)
  | cons e es ih =>
    have heq := hD.exact (he e List.mem_cons_self) hta (ht e List.mem_cons_self)
    refine (h e List.mem_cons_self).bind fun v hv => ?_
    refine (ih (fun a ha => ht a (List.mem_cons_of_mem _ ha))
      (fun a ha => h a (List.mem_cons_of_mem _ ha))
      (fun a ha => he a (List.mem_cons_of_mem _ ha))).bind fun vs hvs => ?_
    exact safe_pure (List.forall_mem_cons.mpr ⟨heq ▸ hv, hvs⟩)

/-- A number, or null, may be converted to any type where nothing is asked of
the value. -/
theorem safe_convertTo {e : Term} (h : Safe host env (Conforms host e.type) (term host e))
    (hn : t.isNumberLike = true → e.type.isNumberLike = true ∨ e.type = .null) :
    Safe host env (fun _ => True) (term host (e.convertTo t)) := by
  unfold Term.convertTo
  split
  · exact h.mono fun _ _ => trivial
  · split
    · exact safe_pure trivial
    · exact h.bind fun v hv => safe_ofExcept (hv.convert_any hn)

/-- An operator that evaluates both of its operands. -/
theorem safe_binary {op : Operation} {l r : Term} {span : Span} {P Q R : Value → Prop}
    (h : op ≠ .andAlso) (h' : op ≠ .orElse) (hl : Safe host env P (term host l))
    (hr : Safe host env Q (term host r)) (ha : ∀ v w, P v → Q w → Fine R (op.apply v w)) :
    Safe host env R (term host (.binary op l r t span)) := by
  have both := hl.bind fun v hv => hr.bind fun w hw => safe_ofExcept (ha v w hv hw)
  cases op with
  | andAlso => exact absurd rfl h
  | orElse => exact absurd rfl h'
  | _ => exact both

theorem mem_terms {es : List Term} {m : Eval Value} (h : m ∈ terms host es) :
    ∃ e ∈ es, m = term host e := by
  induction es with
  | nil => cases h
  | cons e es ih =>
    rcases List.mem_cons.mp h with rfl | h
    · exact ⟨e, List.mem_cons_self, rfl⟩
    · obtain ⟨a, ha, rfl⟩ := ih h
      exact ⟨a, List.mem_cons_of_mem _ ha, rfl⟩

/-- Null stays null when it is converted, or may not be converted. -/
theorem safe_convertTo_null {e : Term} (h : Safe host env (Conforms host e.type) (term host e))
    (hn : e.type = .null) :
    Safe host env (fun v => v = .null) (term host (e.convertTo t)) := by
  rw [hn] at h
  unfold Term.convertTo
  split
  · exact h
  · split
    · exact safe_pure rfl
    · refine h.bind fun v hv => ?_
      obtain rfl : v = .null := hv
      exact safe_ofExcept (Value.convert_null_fine t)

end Eval

open Eval in
/-- **A term that the rules make evaluates to a value of its type**, or fails
with an error that is tolerated. -/
theorem Term.Typed.safe (hD : D.Safe) {s : Scopes} {e : Term} (h : Typed D s e)
    (hs : s.Valued D) :
    ∀ {env : Environment}, s.Fits host env →
      Safe host env (Conforms host e.type) (term host e) := by
  have hL := hD.lawful
  induction h with
  | constant _ hv =>
    intro env _
    refine safe_pure ?_
    rcases hv with rfl | ⟨rfl, hn⟩
    · exact conforms_naturalType _
    · exact conforms_null (hD.null hn)
  | parameter hd =>
    intro env hf
    obtain ⟨v, hv, hc⟩ := hf.denotes hD hd
    exact safe_lookup hv hc
  | member h _ hm ih =>
    intro env hf
    have ht := hD.throughout (h.admits hL hs)
    exact (ih hs hf).bind fun v hv => safe_ofExcept (hv.member ht hm)
  | index h _ hes _ hi ht ih ihs =>
    intro env hf
    have hsig := (hL.admits_indexer (h.admits hL hs) hi).1.2
    have hvs := safe_operands hD ht (fun a ha => ihs a ha hs hf)
      (fun a ha => (hes a ha).admits hL hs) hsig
    exact (ih hs hf).bind fun v hv => hvs.bind fun vs hvs => safe_index hv hi hvs
  | call h _ hes _ hm ht ih ihs =>
    intro env hf
    have hsig := ((h.admits hL hs).methods hm).2
    have hvs := safe_operands hD ht (fun a ha => ihs a ha hs hf)
      (fun a ha => (hes a ha).admits hL hs) hsig
    exact (ih hs hf).bind fun v hv => hvs.bind fun vs hvs => safe_call hv hm hvs
  | property _ _ hp ih =>
    intro env hf
    exact (ih hs hf).bind fun v hv => safe_ofExcept (Builtin.property?_fine hp hv)
  | method _ _ hes _ hb ht ih ihs =>
    intro env hf
    have hsig := hL.admits_primitive (Builtin.isPrimitive_methods hb).2
    have hvs := safe_operands hD ht (fun a ha => ihs a ha hs hf)
      (fun a ha => (hes a ha).admits hL hs) hsig
    exact (ih hs hf).bind fun v hv => hvs.bind fun vs hvs =>
      safe_ofExcept (Builtin.methods_fine hb hv hvs)
  | function hes _ hb ht ihs =>
    intro env hf
    have hsig := hL.admits_primitive (Builtin.isPrimitive_functions hb).2
    have hvs := safe_operands hD ht (fun a ha => ihs a ha hs hf)
      (fun a ha => (hes a ha).admits hL hs) hsig
    exact hvs.bind fun vs hvs => safe_ofExcept (Builtin.functions_fine hb hvs)
  | aggregate h _ he hp ih =>
    intro env hf
    have hta := h.admits hL hs
    exact (ih hs hf).bind fun v hv => (safe_ofExcept (hv.elements he)).bind fun items hi =>
      safe_plain (hD.value (hL.element hta.here he)) (hD.sound (hta.element he).here).reference hp hi
  | aggregateTest h _ he _ ht hp ih ihb =>
    intro env hf
    have hta := h.admits hL hs
    have hv' := hL.element hta.here he
    have hb : SafeBody host env _ (Conforms host .boolean) (some (term host _)) := fun v hv =>
      ht ▸ ihb (hs.push (hta.element he) hv') (hf.push hv)
    exact (ih hs hf).bind fun v hv => (safe_ofExcept (hv.elements he)).bind fun items hi =>
      safe_tested (hD.value hv') (hD.sound (hta.element he).here).reference hp hb hi
  | aggregateSelect h _ he _ _ hp _ ih ihb =>
    intro env hf
    have hta := h.admits hL hs
    have hv' := hL.element hta.here he
    have hb : SafeBody host env _ (Conforms host _) (some (term host _)) := fun v hv =>
      ihb (hs.push (hta.element he) hv') (hf.push hv)
    exact (ih hs hf).bind fun v hv => (safe_ofExcept (hv.elements he)).bind fun items hi =>
      safe_selected hp hb hi
  | aggregateWith h _ he _ _ hp _ ih iha =>
    intro env hf
    exact (ih hs hf).bind fun v hv => (safe_ofExcept (hv.elements he)).bind fun items hi =>
      (iha hs hf).bind fun w _ => safe_taken hp hi
  | convert h _ ht _ hc ih =>
    intro env hf
    refine (ih hs hf).bind fun v hv => safe_ofExcept ?_
    have hea := h.admits hL hs
    rcases hc with hc | hc
    · exact hv.assign hD h hea ht hc
    · obtain ⟨⟨q, rfl⟩, hce, hcs⟩ := hD.cast hc
      exact hv.cast hD hea hce hcs
  | negate _ _ ht hn ih =>
    intro env hf
    exact (ih hs hf).bind fun v hv => safe_ofExcept (UnaryOp.negate_fine hn (ht ▸ hv))
  | not _ _ ht hn ih =>
    intro env hf
    exact (ih hs hf).bind fun v hv => safe_ofExcept (UnaryOp.not_fine hn (ht ▸ hv))
  | arithmetic _ _ _ _ ho hp hl hr ihl ihr =>
    intro env hf
    rw [hl] at ihl
    rw [hr] at ihr
    exact safe_binary (by rintro rfl; cases ho) (by rintro rfl; cases ho) (ihl hs hf) (ihr hs hf)
      fun v w hv hw => Operation.arithmetic_fine ho hp hv hw
  | concat _ _ _ _ ihl ihr =>
    intro env hf
    exact (ihl hs hf).bind fun v _ => (ihr hs hf).bind fun w _ => safe_pure (.inr ⟨_, rfl⟩)
  | equality _ _ _ _ ho _ ihl ihr =>
    intro env hf
    rcases ho with rfl | rfl
    · exact (ihl hs hf).bind fun v _ => (ihr hs hf).bind fun w _ => safe_pure ⟨_, rfl⟩
    · exact (ihl hs hf).bind fun v _ => (ihr hs hf).bind fun w _ => safe_pure ⟨_, rfl⟩
  | @ordering s op l r span _ _ _ _ ho _ ihl ihr =>
    intro env hf
    refine safe_binary (by rintro rfl; cases ho) (by rintro rfl; cases ho) (ihl hs hf) (ihr hs hf)
      fun v w _ _ => ?_
    cases op <;> first | exact ⟨_, rfl⟩ | cases ho
  | logic _ _ _ _ ho hl hr ihl ihr =>
    intro env hf
    rcases ho with rfl | rfl
    · exact safe_conjunction (hl ▸ ihl hs hf) (hr ▸ ihr hs hf)
    · exact safe_disjunction (hl ▸ ihl hs hf) (hr ▸ ihr hs hf)
  | conditional _ hct ha _ hb _ ht hat hbt ihc iha ihb =>
    intro env hf
    have hat := hD.exact (ha.admits hL hs) ht hat
    have hbt := hD.exact (hb.admits hL hs) ht hbt
    exact safe_conditional (hct ▸ ihc hs hf) (hat ▸ iha hs hf) (hbt ▸ ihb hs hf)
  | coalesce hl _ hr _ hn ht hrt ihl ihr =>
    intro env hf
    have hla := hl.admits hL hs
    rcases ht with rfl | rfl
    · have hrt := hD.exact (hr.admits hL hs) hla hrt
      exact safe_coalesce (ihl hs hf) (fun v hv _ => hv) (hrt ▸ ihr hs hf)
    · have hrt := hD.exact (hr.admits hL hs) (hL.admits_nonNullable hla) hrt
      exact safe_coalesce (ihl hs hf) (fun v hv hn => hv.nonNullable hn) (hrt ▸ ihr hs hf)
  | coalesceNull _ hlt _ _ ihl ihr =>
    intro env hf
    refine safe_coalesce (safe_convertTo_null (ihl hs hf) hlt) (fun v hv hn => ?_) (ihr hs hf)
    subst hv
    cases hn
  | @inList s e es t span he _ hes _ ht _ hl ih ihs =>
    intro env hf
    have number {a : Term} (ha : Typed D s a) (hm : a ∈ e :: es) (hn : t.isNumberLike = true) :
        a.type.isNumberLike = true ∨ a.type = .null := by
      obtain ⟨u, hu, hua, hlead⟩ := hl a hm
      have hun := Ty.numberLike_of_leads hD hlead hua hn
      rcases isAssignable_iff.mp hu with hc | hfit
      · exact Ty.numberLike_of_converts hD (ha.admits hL hs) hua hc hun
      · obtain ⟨i, -, -, hi, -⟩ := ha.fits_cases hfit
        rw [hi]
        exact .inl rfl
    have operand := safe_convertTo (ih hs hf) (number he List.mem_cons_self)
    refine operand.bind fun v _ => ?_
    refine (safe_isAmong v fun m hm => ?_).bind fun b _ => safe_pure ⟨b, rfl⟩
    obtain ⟨a, ha, rfl⟩ := mem_terms hm
    obtain ⟨b, hb, rfl⟩ := List.mem_map.mp ha
    exact safe_convertTo (ihs b hb hs hf) (number (hes b hb) (List.mem_cons_of_mem _ hb))
  | inSequence _ _ _ _ he _ ih ihs =>
    intro env hf
    exact (ih hs hf).bind fun v _ => (ihs hs hf).bind fun w hw =>
      (safe_ofExcept (hw.elements he)).bind fun items _ => safe_pure ⟨_, rfl⟩
  | @newRecord s es id ps span hes _ hta ht ihs =>
    intro env hf
    have hps : ∀ t ∈ ps.map (·.2), D.Admits t := fun t h => hta.part h
    have hvs := safe_operands hD ht (fun a ha => ihs a ha hs hf)
      (fun a ha => (hes a ha).admits hL hs) hps
    refine hvs.bind fun vs hvs => safe_ofExcept ?_
    have hlen : (vs.length == ps.length) = true := by
      have := (conformsAll_iff.mp hvs).length_eq
      simpa using this.symm
    simp only [Value.ofRecord, hlen, if_true]
    exact .inr ⟨vs, rfl, conformsFields_iff.mpr hvs⟩
  | newArray hes hts hta htv ihs =>
    intro env hf
    refine (safe_items hD hts (fun a ha => ihs a ha hs hf) (fun a ha => (hes a ha).admits hL hs)
      hta).bind fun vs hvs => ?_
    exact safe_newList fun id => .inr ⟨id, vs, rfl, hvs⟩
  | invoke h hes _ ht hts ih ihs =>
    intro env hf
    have hta := h.admits hL hs
    rw [ht] at hta
    have hvs := safe_operands hD hts (fun a ha => ihs a ha hs hf)
      (fun a ha => (hes a ha).admits hL hs) fun u hu => hta.part (List.mem_cons_of_mem _ hu)
    exact (ih hs hf).bind fun v hv => hvs.bind fun vs hvs => safe_invoke (ht ▸ hv) hvs

end QueryExpr
