/-
# Changing the case of text

Upper and lower case of a whole text by the default mappings of its
characters. A capital sigma becomes a final sigma at the end of a word: when
the nearest character before it that is not skipped has case, and the nearest
one behind it has none.

Key definitions: `upperChar`, `lowerChar`, `upperCase`, `lowerCase`.
-/
import QueryExpr.Text.CharClass
import QueryExpr.Text.CaseTable

namespace QueryExpr.Text

/-- The image of `n` under the run that holds it. -/
def runImage (runs : List CaseRun) (n : Nat) : Option Nat :=
  (runs.find? fun r => r.first ≤ n && n ≤ r.last && (n - r.first) % r.step == 0).map fun r =>
    (Int.ofNat n + r.offset).toNat

/-- The image of `c` under a case mapping; a character without one stays. -/
def caseImage (runs : List CaseRun) (expansions : List (Nat × List Nat)) (c : Char) : List Char :=
  match runImage runs c.toNat with
  | some m => [Char.ofNat m]
  | none =>
    match expansions.lookup c.toNat with
    | some ms => ms.map Char.ofNat
    | none => [c]

/-- The upper case of one character. -/
def upperChar (c : Char) : List Char :=
  if c.toNat < 0x80 then [c.toUpper] else caseImage upperRuns upperExpansions c

/-- The lower case of one character on its own. -/
def lowerChar (c : Char) : List Char :=
  if c.toNat < 0x80 then [c.toLower] else caseImage lowerRuns lowerExpansions c

/-- Whether the first character that is not skipped has case. -/
def nextHasCase (cs : List Char) : Bool :=
  match cs.dropWhile fun c => inBounds caseIgnorableBounds c.toNat with
  | [] => false
  | c :: _ => inBounds casedBounds c.toNat

/-- The upper case of a text. -/
def upperCase (cs : List Char) : List Char := cs.flatMap upperChar

/-- The lower case of a text that follows the characters `before`, nearest
first. -/
def lowerCaseAfter : List Char → List Char → List Char
  | _, [] => []
  | before, c :: cs =>
    let image :=
      if c == 'Σ' then
        if nextHasCase before && !nextHasCase cs then ['ς'] else ['σ']
      else lowerChar c
    image ++ lowerCaseAfter (c :: before) cs

/-- The lower case of a text. -/
def lowerCase (cs : List Char) : List Char := lowerCaseAfter [] cs

end QueryExpr.Text
