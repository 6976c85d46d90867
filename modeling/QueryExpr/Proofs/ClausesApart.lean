/-
# Clauses on their own

What is read from a stretch of a text is what is read from the stretch alone,
moved to where the stretch starts. So each clause of an ordering is the lambda
that its own text has for the element, at its place in the whole; the clauses are
compiled one after the other, each with the record types that the one before it
has left.

Key definitions: `Ordering.Apart`.
Key theorems: `Expr.parseIn_eq_relocated`, `Ordering.compileSegment_alone`,
`Ordering.parse_apart`.
-/
import Mathlib
import QueryExpr.Ordering.Clause
import QueryExpr.Proofs.MovedCheck
import QueryExpr.Proofs.PlacedReading
import QueryExpr.Proofs.SegmentedText

namespace QueryExpr

theorem Expr.parseIn_eq_relocated (g : Grammar) {text : List Char} {start stop : Nat}
    (h : start ≤ stop) (h' : stop ≤ text.length) :
    Expr.parseIn g text start stop =
      relocated (· + start) (Expr.shift start) (Expr.parse g (stretch text start stop)) := by
  have hrow := row_tokensIn text start stop
  have halone := row_tokensIn (stretch text start stop) 0 (stretch text start stop).length
  have hstart : stretchStart text start stop = 0 + start := by
    rw [stretchStart, Nat.min_eq_left h', Nat.min_eq_left h, Nat.zero_add]
  rw [← tokens_eq_tokensIn, stretchStart, Nat.zero_min] at halone
  rw [hstart, tokensIn_eq_relocate h h'] at hrow
  rw [parseIn, parse, hstart, tokensIn_eq_relocate h h', ofTokens_add g start halone hrow]

/-- The table of a clause is that of its element. -/
theorem ParameterTable.make_element (t : Ty) : make [⟨"", t⟩] (some 0) = .ok (.ofElement t) := rfl

namespace Ordering

/-- The text of a segment alone. -/
def Segment.text (s : Segment) (whole : String) : String :=
  String.ofList (stretch whole.toList s.start s.stop)

/-- The clause that a lambda for the element is the key of. A key has to have a
value. -/
def Segment.clause (s : Segment) (key : Lambda) : Except Failure Clause :=
  if key.body.type.isVoid then .error ⟨.voidValue, key.body.span⟩
  else .ok ⟨key, s.direction⟩

/-- Segments that are compiled one after the other as texts of their own, with
the same record types, and come to the given clauses at the places of the
segments. -/
inductive Apart (o : Options) (element : Ty) (text : String) :
    RecordCache → List Segment → List Clause → RecordCache → Prop
  | nil (records : RecordCache) : Apart o element text records [] [] records
  | cons {records records' d : RecordCache} {s : Segment} {ss : List Segment} {key : Lambda}
      {clauses : List Clause}
      (alone : Lambda.ofContext o element none none (s.text text) records = (.ok key, records'))
      (rest : Apart o element text records' ss clauses d) :
      Apart o element text records (s :: ss) (⟨key.shift s.start, s.direction⟩ :: clauses) d

variable {o : Options} {element : Ty} {text : String} {records d : RecordCache} {s : Segment}

/-- **A segment is compiled like its text alone**, and what this comes to is
moved to the place of the segment. -/
theorem compileSegment_alone (hle : s.start ≤ s.stop) (hstop : s.stop ≤ text.toList.length) :
    compileSegment o element (.ofElement element) text.toList s records =
      ((relocated (· + s.start) (Lambda.shift s.start)
          (Lambda.ofContext o element none none (s.text text) records).1).bind s.clause,
        (Lambda.ofContext o element none none (s.text text) records).2) := by
  rw [compileSegment, Expr.parseIn_eq_relocated _ hle hstop, Lambda.ofContext, Lambda.compile,
    ParameterTable.make_element, Segment.text, String.toList_ofList]
  dsimp only
  cases Expr.parse (o.grammar (.ofElement element)) (stretch text.toList s.start s.stop) with
  | error failure => rfl
  | ok e =>
    dsimp only [relocated, Expr.shift]
    rw [Expr.check_relocate (monotone_add s.start) e o (.ofElement element) records]
    rcases e.check o (.ofElement element) records with ⟨failure | body, records'⟩
    · rfl
    · dsimp only [relocated, Lambda.assemble, Target.ofOption, Except.bind, Segment.clause,
        Lambda.shift, Lambda.relocate]
      rw [body.type_relocate]
      split <;> rfl

/-- Segments inside of a text that are compiled come to what they come to apart. -/
theorem compileSegments_apart : ∀ {ss : List Segment} {records : RecordCache}
    {clauses : List Clause}, (∀ s ∈ ss, s.start ≤ s.stop ∧ s.stop ≤ text.toList.length) →
      compileSegments o element (.ofElement element) text.toList ss records = (.ok clauses, d) →
      Apart o element text records ss clauses d
  | [], _, _, _, h => by
    cases h
    exact .nil _
  | s :: ss, records, clauses, hss, h => by
    obtain ⟨⟨hle, hstop⟩, hss⟩ := List.forall_mem_cons.mp hss
    rw [compileSegments, compileSegment_alone hle hstop] at h
    rcases halone : Lambda.ofContext o element none none (s.text text) records with
      ⟨failure | key, records'⟩
    · rw [halone] at h
      cases h
    · rw [halone] at h
      dsimp only [relocated, Except.bind, Segment.clause] at h
      by_cases hvoid : (key.shift s.start).body.type.isVoid
      · rw [if_pos hvoid] at h
        cases h
      · rw [if_neg hvoid] at h
        dsimp only at h
        rcases hrest : compileSegments o element (.ofElement element) text.toList ss records' with
          ⟨failure | rest, d'⟩
        · rw [hrest] at h
          cases h
        · rw [hrest] at h
          cases h
          exact .cons halone (compileSegments_apart hss hrest)

/-- **What is read from a stretch of a text is what is read from the stretch
alone**, an expression or a failure, with every place moved to where the stretch
starts. So the clauses of an ordering that compiles are the lambdas that their
texts have for the element when they are compiled apart, in order and with the
same record types, moved to where the clauses start. -/
theorem parse_apart :
    (∀ (g : Grammar) (text : List Char) (start stop : Nat), start ≤ stop → stop ≤ text.length →
      Expr.parseIn g text start stop =
        relocated (· + start) (Expr.shift start)
          (Expr.parse g ((text.take stop).drop start))) ∧
    ∀ (o : Options) (element : Ty) (text : String) (records d : RecordCache)
      (clauses : List Clause), compile o element text records = (.ok clauses, d) →
      ∃ ss, segments text.toList = .ok ss ∧ Apart o element text records ss clauses d := by
  refine ⟨fun g text start stop h h' => Expr.parseIn_eq_relocated g h h', ?_⟩
  intro o element text records d clauses h
  have hinside := segments_inside text.toList
  rw [compile, ParameterTable.make_element] at h
  cases hss : segments text.toList with
  | error failure =>
    rw [hss] at h
    cases h
  | ok ss =>
    rw [hss] at h hinside
    exact ⟨ss, rfl, compileSegments_apart hinside h⟩

set_option maxRecDepth 2000 in
/-- Two clauses over numbers, the second of which starts behind the first. -/
theorem parse_apart_numbers :
    Expr.parseIn (Options.grammar {} ⟨[⟨"", .int32⟩], some 0⟩) "it, -it desc".toList 4 7 =
        .ok (.unary .negate (.name ⟨"it", ⟨5, 2⟩⟩) ⟨4, 3⟩) ∧
      ∃ clauses, compile {} .int32 "it, -it desc" .empty = (.ok clauses, .empty) ∧
        ∃ ss, segments "it, -it desc".toList = .ok ss ∧
          Apart {} .int32 "it, -it desc" .empty ss clauses .empty := by
  have hparse : Expr.parse (Options.grammar {} ⟨[⟨"", .int32⟩], some 0⟩) "-it".toList =
      .ok (.unary .negate (.name ⟨"it", ⟨1, 2⟩⟩) ⟨0, 3⟩) := by cbv
  have hcompile : compile {} .int32 "it, -it desc" .empty =
      (.ok [⟨⟨[⟨"", .int32⟩], .parameter "it" .int32 ⟨0, 2⟩, .int32,
          .ofDelegate none [⟨"", .int32⟩] .int32⟩, .ascending⟩,
        ⟨⟨[⟨"", .int32⟩], .unary .negate (.parameter "it" .int32 ⟨5, 2⟩) .int32 ⟨4, 3⟩, .int32,
          .ofDelegate none [⟨"", .int32⟩] .int32⟩, .descending⟩], .empty) := by cbv
  refine ⟨(parse_apart.1 _ _ 4 7 (by decide) (by decide)).trans ?_, _, hcompile,
    parse_apart.2 _ _ _ _ _ _ hcompile⟩
  exact congrArg (relocated (· + 4) (Expr.shift 4)) hparse

end Ordering
end QueryExpr
