/-
# Spans in their places

What is read from a stretch of a text lies in it: the nodes of the expression
hold the nodes and names under them, and the nodes under one of them are one
behind the other. The parser makes no span of positions out of order. And
whatever fails when a text is compiled, as a lambda or as an ordering, the failure
is found inside of the text: moving back all positions behind the text's end moves
neither what is read from it nor what that is checked to be.

Key definitions: `Expr.Placed`.
Key theorems: `Expr.relocated_parseIn`, `Lambda.compile_inside`,
`Ordering.compile_inside`, `spans_placed`.
-/
import QueryExpr.Proofs.ClausesApart

namespace QueryExpr

variable {text : List Char} {n : Nat}

theorem monotone_upTo (n : Nat) : Monotone (min · n) := fun _ _ h => min_le_min_right n h

/-- What is not moved when all positions behind another one are moved back to it
ends in front of it. -/
theorem Span.stop_le_of_upTo {s : Span} (h : s.relocate (min · n) = s) : s.stop ≤ n := by
  rw [← h, Span.stop_relocate (monotone_upTo n)]
  exact Nat.min_le_right _ _

namespace Expr

variable {g : Grammar} {e p : Expr}

/-- A node lies in a stretch and holds the nodes and the names right under it,
and the nodes right under it are one behind the other. -/
structure Placed (first last : Nat) (p : Expr) : Prop where
  start : first ≤ p.span.start
  stop : p.span.stop ≤ last
  holds : ∀ c ∈ p.children, p.span.Holds c.span
  named : ∀ s ∈ p.labels, p.span.Holds s
  apart : p.children.Pairwise fun a b => a.span.stop ≤ b.span.start

theorem Fits.placed {a b : Nat} (h : e.Fits a b) (hp : p.Under e) : p.Placed a b := by
  obtain ⟨hlaid, hstart, hstop⟩ := h.laid.under hp
  exact ⟨Nat.le_trans h.start hstart, Nat.le_trans hstop h.stop, hlaid.holds, hlaid.named,
    hlaid.apart⟩

theorem parse_eq_parseIn (g : Grammar) (text : List Char) :
    parse g text = parseIn g text 0 text.length := by
  rw [parse, parseIn, tokens_eq_tokensIn, stretchStart, Nat.zero_min]

/-- What is read from a text stays where it is when all positions behind the
text are moved back to its end. -/
theorem relocated_parseIn (g : Grammar) (text : List Char) (start stop : Nat) :
    relocated (min · text.length) (relocate (min · text.length)) (parseIn g text start stop) =
      parseIn g text start stop := by
  have hfixed : ∀ p, stretchStart text start stop ≤ p → p ≤ min stop text.length →
      min p text.length = p :=
    fun p _ hp => Nat.min_eq_left (Nat.le_trans hp (Nat.min_le_right _ _))
  cases h : parseIn g text start stop with
  | ok e => exact congrArg Except.ok ((fits_of_parseIn h).relocate_eq hfixed)
  | error failure =>
    exact congrArg Except.error
      (relocate_failure (monotone_upTo _) hfixed (row_tokensIn text start stop) h)

theorem relocated_check {f : Nat → Nat} (hf : Monotone f) (he : e.relocate f = e) (o : Options)
    (table : ParameterTable) (records : RecordCache) :
    relocated f (Term.relocate f) (e.check o table records).1 = (e.check o table records).1 := by
  have h := check_relocate hf e o table records
  rw [he] at h
  exact (congrArg Prod.fst h).symm

end Expr

theorem ParameterTable.make_failure {ds : List Declaration} {implicit : Option Nat}
    {failure : Failure} (h : make ds implicit = .error failure) : failure.span = .empty 0 := by
  unfold make at h
  grind

/-- So does what a text is compiled to. -/
theorem Lambda.relocated_compile (o : Options) (ds : List Declaration) (implicit : Option Nat)
    (target : Target) (text : String) (records : RecordCache) :
    relocated (min · text.toList.length) (relocate (min · text.toList.length))
        (compile o ds implicit target text records).1 =
      (compile o ds implicit target text records).1 := by
  have hf := monotone_upTo text.toList.length
  have h0 : min 0 text.toList.length = 0 := Nat.zero_min _
  unfold compile
  split
  · rename_i failure hmake
    rw [relocated, Failure.relocate, ParameterTable.make_failure hmake, Span.relocate_empty, h0,
      ← ParameterTable.make_failure hmake]
  · rename_i table _
    have hparse := Expr.relocated_parseIn (o.grammar table) text.toList 0 text.toList.length
    rw [← Expr.parse_eq_parseIn] at hparse
    split
    · rename_i failure herror
      rw [herror] at hparse
      exact congrArg Except.error (Except.error.inj hparse)
    · rename_i e he
      rw [he] at hparse
      have hcheck := Expr.relocated_check hf (Except.ok.inj hparse) o table records
      split
      · rename_i failure _ herror
        rw [herror] at hcheck
        exact congrArg Except.error (Except.error.inj hcheck)
      · rename_i body _ hbody
        rw [hbody] at hcheck
        rw [← assemble_relocate h0, Except.ok.inj hcheck]

/-- A failure to compile a text is found inside of it. -/
theorem Lambda.compile_inside {o : Options} {ds : List Declaration} {implicit : Option Nat}
    {target : Target} {text : String} {records d : RecordCache} {failure : Failure}
    (h : compile o ds implicit target text records = (.error failure, d)) :
    failure.span.stop ≤ text.toList.length := by
  have hfixed := relocated_compile o ds implicit target text records
  rw [h] at hfixed
  exact Span.stop_le_of_upTo (congrArg Failure.span (Except.error.inj hfixed))

namespace Ordering

variable {o : Options} {element : Ty} {text : String} {records d : RecordCache}
  {failure : Failure}

/-- A failure to compile a segment is found inside of it. -/
theorem compileSegment_inside {s : Segment} (hle : s.start ≤ s.stop)
    (hstop : s.stop ≤ text.toList.length)
    (h : compileSegment o element (.ofElement element) text.toList s records =
      (.error failure, d)) : failure.span.stop ≤ s.stop := by
  have hlength : (s.text text).toList.length + s.start = s.stop := by
    rw [Segment.text, String.toList_ofList, stretch, List.length_drop, List.length_take]
    omega
  -- what ends inside of the text of the segment alone ends inside of the segment
  have hmoved {span : Span} (h : span.stop ≤ (s.text text).toList.length) :
      (span.relocate (· + s.start)).stop ≤ s.stop := by
    rw [Span.stop_relocate (monotone_add s.start), ← hlength]
    exact Nat.add_le_add_right h _
  have hfixed : relocated (min · (s.text text).toList.length)
      (Lambda.relocate (min · (s.text text).toList.length))
      (Lambda.ofContext o element none none (s.text text) records).1 =
        (Lambda.ofContext o element none none (s.text text) records).1 :=
    Lambda.relocated_compile o [⟨"", element⟩] (some 0) .inferred (s.text text) records
  rw [compileSegment_alone hle hstop] at h
  generalize Lambda.ofContext o element none none (s.text text) records = alone at h hfixed
  rcases alone with ⟨f | key, records'⟩
  · cases h
    exact hmoved (Span.stop_le_of_upTo (congrArg Failure.span (Except.error.inj hfixed)))
  · have hbody := congrArg Lambda.body (Except.ok.inj hfixed)
    have hspan := congrArg Term.span hbody
    rw [Lambda.relocate, Term.span_relocate] at hspan
    dsimp only [relocated, Except.bind, Segment.clause] at h
    split at h
    · cases h
      show (Term.span (Term.relocate _ key.body)).stop ≤ s.stop
      rw [Term.span_relocate]
      exact hmoved (Span.stop_le_of_upTo hspan)
    · cases h

theorem compileSegments_inside : ∀ {ss : List Segment} {records : RecordCache},
    (∀ s ∈ ss, s.start ≤ s.stop ∧ s.stop ≤ text.toList.length) →
    compileSegments o element (.ofElement element) text.toList ss records = (.error failure, d) →
      failure.span.stop ≤ text.toList.length
  | [], _, _, h => by cases h
  | s :: ss, records, hss, h => by
    obtain ⟨⟨hle, hstop⟩, hss⟩ := List.forall_mem_cons.mp hss
    rw [compileSegments] at h
    rcases hs : compileSegment o element (.ofElement element) text.toList s records with
      ⟨f | clause, records'⟩
    · rw [hs] at h
      cases h
      exact Nat.le_trans (compileSegment_inside hle hstop hs) hstop
    · rw [hs] at h
      dsimp only at h
      rcases hrest : compileSegments o element (.ofElement element) text.toList ss records' with
        ⟨f | clauses, d'⟩
      · rw [hrest] at h
        cases h
        exact compileSegments_inside hss hrest
      · rw [hrest] at h
        cases h

/-- A failure to compile an ordering is found inside of it. -/
theorem compile_inside (h : compile o element text records = (.error failure, d)) :
    failure.span.stop ≤ text.toList.length := by
  have hinside := segments_inside text.toList
  rw [compile, ParameterTable.make_element] at h
  cases hss : segments text.toList with
  | error f =>
    rw [hss] at h hinside
    cases h
    exact hinside
  | ok ss =>
    rw [hss] at h hinside
    exact compileSegments_inside hinside h

end Ordering

/-- **Spans are nested, in order and in range.** What is read from a stretch of
a text lies in the stretch: every node of the expression holds the nodes and the
names right under it, and the nodes under it are one behind the other. The parser
comes to the same however it makes the spans between positions in order, so that
it makes no others; and the segments of an ordering are in order. Whatever fails
when a text is compiled, as a lambda or as an ordering, is found inside of it. -/
theorem spans_placed (text : String) :
    (∀ (g : Grammar) (start stop : Nat) (e : Expr),
      Expr.parseIn g text.toList start stop = .ok e → ∀ p : Expr, p.Under e →
        p.Placed (stretchStart text.toList start stop) (min stop text.toList.length)) ∧
    (∀ bounds : Nat → Nat → Reader Span,
      (∀ a b, a ≤ b → bounds a b = pure (.ofBounds a b)) → ∀ (g : Grammar) (start stop : Nat),
        Expr.parseInBy bounds g text.toList start stop = Expr.parseIn g text.toList start stop) ∧
    (∀ ss, Ordering.segments text.toList = .ok ss →
      ∀ s ∈ ss, s.start ≤ s.stop ∧ s.stop ≤ text.toList.length) ∧
    (∀ (o : Options) (ds : List Declaration) (implicit : Option Nat) (target : Target)
      (records d : RecordCache) (failure : Failure),
      Lambda.compile o ds implicit target text records = (.error failure, d) →
        failure.span.stop ≤ text.toList.length) ∧
    (∀ (o : Options) (element : Ty) (records d : RecordCache) (failure : Failure),
      Ordering.compile o element text records = (.error failure, d) →
        failure.span.stop ≤ text.toList.length) := by
  refine ⟨fun g start stop e h p hp => (Expr.fits_of_parseIn h).placed hp,
    fun bounds hb g start stop => Expr.ofTokensBy_eq hb g (row_tokensIn text.toList start stop),
    fun ss hss => ?_, fun o ds implicit target records d failure h => Lambda.compile_inside h,
    fun o element records d failure h => Ordering.compile_inside h⟩
  have hinside := Ordering.segments_inside text.toList
  rwa [hss] at hinside

set_option maxRecDepth 2000 in
/-- Two clauses that are not a lambda, and the second of which has an unknown
name. -/
theorem spans_placed_clauses :
    let text := "1,-x"
    let g := Options.grammar {} ⟨[⟨"", .int32⟩], some 0⟩
    text.toList.length = 4 ∧
      Expr.parseIn g text.toList 2 4 = .ok (.unary .negate (.name ⟨"x", ⟨3, 1⟩⟩) ⟨2, 2⟩) ∧
      (Expr.name ⟨"x", ⟨3, 1⟩⟩).Placed 2 4 ∧
      Expr.parseInBy Reader.orderedBounds g text.toList 2 4 = Expr.parseIn g text.toList 2 4 ∧
      Ordering.segments text.toList = .ok [⟨0, 1, .ascending⟩, ⟨2, 4, .ascending⟩] ∧ 4 ≤ 4 ∧
      Lambda.compile {} [⟨"", .int32⟩] (some 0) .inferred text .empty =
        (.error ⟨.unexpected ",", ⟨1, 1⟩⟩, .empty) ∧ 2 ≤ 4 ∧
      Ordering.compile {} .int32 text .empty =
        (.error ⟨.noMember "x" "Int32", ⟨3, 1⟩⟩, .empty) ∧ 4 ≤ 4 := by
  intro text g
  have hlength : text.toList.length = 4 := by cbv
  have hparse : Expr.parseIn g text.toList 2 4 =
      .ok (.unary .negate (.name ⟨"x", ⟨3, 1⟩⟩) ⟨2, 2⟩) := by cbv
  have hsegments : Ordering.segments text.toList =
      .ok [⟨0, 1, .ascending⟩, ⟨2, 4, .ascending⟩] := by cbv
  have hlambda : Lambda.compile {} [⟨"", .int32⟩] (some 0) .inferred text .empty =
      (.error ⟨.unexpected ",", ⟨1, 1⟩⟩, .empty) := by cbv
  have hordering : Ordering.compile {} .int32 text .empty =
      (.error ⟨.noMember "x" "Int32", ⟨3, 1⟩⟩, .empty) := by cbv
  obtain ⟨hplaced, hbounds, hinside, hcompile, horder⟩ := spans_placed text
  have hx := hplaced g 2 4 _ hparse _ (.child (.head _) (.refl _))
  have hstop := (hinside _ hsegments _ (.tail _ (.head _))).2
  have hcomma := hcompile _ _ _ _ _ _ _ hlambda
  have hname := horder _ _ _ _ _ hordering
  rw [stretchStart, hlength] at hx
  rw [hlength] at hstop hcomma hname
  exact ⟨hlength, hparse, hx, hbounds _ (fun _ _ h => if_pos h) g 2 4, hsegments, hstop, hlambda,
    hcomma, hordering, hname⟩

end QueryExpr
