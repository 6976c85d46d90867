/-
# Clauses of an ordering

An ordering is a list of clauses with commas between them; commas inside
brackets and quoted literals belong to a clause. A clause may end with a word
for its direction, which white space has to set apart from what is before it.
What is left of a clause is the stretch of text that its key is read from.

Key definitions: `Direction`, `Direction.ofWord?`, `clauses`, `Segment`,
`segmentOf`, `segments`.
-/
import QueryExpr.Failure
import QueryExpr.Text.Search

namespace QueryExpr.Ordering

/-- The direction of a clause. -/
inductive Direction
  | ascending
  | descending
  deriving DecidableEq, Repr

namespace Direction

/-- The name of the direction. -/
def name : Direction → String
  | .ascending => "Ascending"
  | .descending => "Descending"

/-- The direction that a word means, in any case. -/
def ofWord? (word : List Char) : Option Direction :=
  match String.ofList (word.map Char.toLower) with
  | "asc" | "ascending" => some .ascending
  | "desc" | "descending" => some .descending
  | _ => none

end Direction

/-- Splits a text at its commas. Each clause comes with its position and its
characters. The clause at hand starts at `start` and has the characters
`taken`, last one first; `depth` brackets are open, and so is the quote
`quote`. -/
def clausesFrom (start : Nat) (taken : List Char) (depth : Nat) (quote : Option Char) :
    List Char → List (Nat × List Char)
  | [] => [(start, taken.reverse)]
  | c :: cs =>
    match quote with
    | some q => clausesFrom start (c :: taken) depth (if c == q then none else some q) cs
    | none =>
      if c == '"' || c == '\'' then clausesFrom start (c :: taken) depth (some c) cs
      else if c == '(' || c == '[' || c == '\x7b' then
        clausesFrom start (c :: taken) (depth + 1) none cs
      else if c == ')' || c == ']' || c == '\x7d' then
        clausesFrom start (c :: taken) (depth - 1) none cs
      else if c == ',' && depth == 0 then
        (start, taken.reverse) :: clausesFrom (start + taken.length + 1) [] 0 none cs
      else clausesFrom start (c :: taken) depth none cs

/-- The clauses of a text, each with its position. -/
def clauses (text : List Char) : List (Nat × List Char) := clausesFrom 0 [] 0 none text

/-- The stretch of text that the key of a clause is read from, and the
direction of the clause. -/
structure Segment where
  start : Nat
  stop : Nat
  direction : Direction
  deriving DecidableEq, Repr

/-- The word at the end of a clause. -/
def lastWord (cs : List Char) : List Char := (cs.reverse.takeWhile Text.isWordPart).reverse

/-- Whether a text ends with white space. -/
def endsWithSpace (cs : List Char) : Bool := cs.getLast?.any Text.isWhiteSpace

/-- The segment of a clause at `start`, which is the clause of the given
number. -/
def segmentOf (number start : Nat) (cs : List Char) : Except Failure Segment :=
  let body := Text.trim cs
  let first := start + (cs.length - (Text.trimStart cs).length)
  if body.isEmpty then .error ⟨.emptyClause number, .empty first⟩
  else
    let word := lastWord body
    let before := body.take (body.length - word.length)
    match Direction.ofWord? word with
    | some direction =>
      if endsWithSpace before then .ok ⟨first, first + (Text.trimEnd before).length, direction⟩
      else .ok ⟨first, first + body.length, .ascending⟩
    | none => .ok ⟨first, first + body.length, .ascending⟩

/-- The segments of clauses from the given number on. -/
def segmentsFrom (number : Nat) : List (Nat × List Char) → Except Failure (List Segment)
  | [] => .ok []
  | (start, cs) :: rest =>
    match segmentOf number start cs with
    | .error f => .error f
    | .ok s =>
      match segmentsFrom (number + 1) rest with
      | .error f => .error f
      | .ok ss => .ok (s :: ss)

/-- The segments of an ordering. -/
def segments (text : List Char) : Except Failure (List Segment) := segmentsFrom 1 (clauses text)

end QueryExpr.Ordering
