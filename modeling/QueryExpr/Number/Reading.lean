/-
# Numbers as they are written

Integers from decimal and hexadecimal digits, and real numbers from decimal
digits with a fraction and an exponent.

Key definitions: `digitValue`, `naturalOf`, `decimalOf`, `doubleOfText?`.
Key theorems: `naturalOf_nil`, `naturalOf_append`.
-/
import QueryExpr.Number.Binary

namespace QueryExpr

/-- The value of a digit in either case; anything else counts as zero. -/
def digitValue (c : Char) : Nat :=
  if '0' ≤ c && c ≤ '9' then c.toNat - 48
  else if 'a' ≤ c && c ≤ 'f' then c.toNat - 87
  else if 'A' ≤ c && c ≤ 'F' then c.toNat - 55
  else 0

/-- The number that digits to a base stand for, behind digits that stand for
`before`. -/
def naturalAfter (base before : Nat) (digits : List Char) : Nat :=
  digits.foldl (fun n c => base * n + digitValue c) before

/-- The number that digits to a base stand for. -/
def naturalOf (base : Nat) (digits : List Char) : Nat := naturalAfter base 0 digits

theorem naturalOf_nil (base : Nat) : naturalOf base [] = 0 := rfl

theorem naturalOf_append (base : Nat) (ds es : List Char) :
    naturalOf base (ds ++ es) = naturalAfter base (naturalOf base ds) es := by
  simp [naturalOf, naturalAfter]

/-- The exponent that follows the digits of a real number, with its mark. -/
def exponentOf : List Char → Int
  | _ :: '-' :: digits => -(naturalOf 10 digits)
  | _ :: '+' :: digits => naturalOf 10 digits
  | _ :: digits => naturalOf 10 digits
  | [] => 0

/-- The digits of a real number without its point, and the power of ten they
are to be multiplied by. -/
def decimalOf (text : List Char) : Nat × Int :=
  let whole := text.takeWhile Char.isDigit
  let rest := text.drop whole.length
  let fraction :=
    match rest with
    | '.' :: digits => digits.takeWhile Char.isDigit
    | _ => []
  let rest := if rest.head? == some '.' then rest.drop (fraction.length + 1) else rest
  (naturalOf 10 (whole ++ fraction), exponentOf rest - fraction.length)

/-- The double that a real number's text stands for, unless it is too large. -/
def doubleOfText? (text : List Char) : Option Float :=
  let (digits, scale) := decimalOf text
  let bits := Binary.Format.double.nearestDecimal digits scale
  if bits == Binary.Format.double.infinity then none else some (Binary.double bits)

end QueryExpr
