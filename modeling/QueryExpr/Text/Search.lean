/-
# Searching in text

Finding and replacing one text in another. Positions count characters.

Key definitions: `find?`, `replace`, `trimStart`, `trimEnd`, `trim`.
Key theorems: `find?_nil`.
-/
import QueryExpr.Text.CharClass

namespace QueryExpr.Text

/-- The first position at which `needle` occurs. -/
def find? (needle : List Char) : List Char → Option Nat
  | [] => if needle.isEmpty then some 0 else none
  | c :: cs =>
    if needle.isPrefixOf (c :: cs) then some 0 else (find? needle cs).map (· + 1)

theorem find?_nil (cs : List Char) : find? [] cs = some 0 := by
  cases cs <;> simp [find?]

/-- Puts `replacement` in place of every occurrence of `needle`, found from
left to right and never overlapping. The first `skip` characters belong to an
occurrence already replaced. -/
def replaceFrom (needle replacement : List Char) : Nat → List Char → List Char
  | _, [] => []
  | skip + 1, _ :: cs => replaceFrom needle replacement skip cs
  | 0, c :: cs =>
    if needle.isPrefixOf (c :: cs) then
      replacement ++ replaceFrom needle replacement (needle.length - 1) cs
    else c :: replaceFrom needle replacement 0 cs

/-- Puts `replacement` in place of every occurrence of `needle`, which is not
empty. -/
def replace (needle replacement cs : List Char) : List Char :=
  replaceFrom needle replacement 0 cs

/-- Drops the white space at the start. -/
def trimStart (cs : List Char) : List Char := cs.dropWhile isWhiteSpace

/-- Drops the white space at the end. -/
def trimEnd (cs : List Char) : List Char := (trimStart cs.reverse).reverse

/-- Drops the white space at both ends. -/
def trim (cs : List Char) : List Char := trimEnd (trimStart cs)

end QueryExpr.Text
