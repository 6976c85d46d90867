/-
# The shortest decimal text of a floating-point number

A floating-point number is written with the fewest digits that still lie
nearer to it than to any other number of its format; of two such digit
strings of equal length the nearer one is taken, and the larger one if both
are equally near. The digits are written positionally, whatever the
magnitude, and without a point where there is no fraction.

Key definitions: `Binary.shortest`, `Binary.positional`, `doubleText`,
`singleText`.
-/
import QueryExpr.Number.Binary

namespace QueryExpr.Binary

/-- The first grid of powers of ten, from `scale` down, on which one of the
two neighbours of a number reads back. The number is `4 * m`, the ends of the
stretch that reads back are `low` and `high`, each times `num / den`; the ends
belong to the stretch if `closed` holds. -/
def shortestFrom (closed : Bool) (low mid high num den : Nat) : Nat → Int → Nat × Int
  | 0, scale => (mid * num * Nat.pow 10 (-scale).toNat / (den * Nat.pow 10 scale.toNat), scale)
  | steps + 1, scale =>
    let n := num * Nat.pow 10 (-scale).toNat
    let d := den * Nat.pow 10 scale.toNat
    let below := mid * n / d
    let above := below + 1
    let fits (c : Nat) : Bool :=
      if closed then low * n ≤ c * d && c * d ≤ high * n
      else low * n < c * d && c * d < high * n
    match fits below, fits above with
    | true, true => if 2 * (mid * n % d) < d then (below, scale) else (above, scale)
    | true, false => (below, scale)
    | false, true => (above, scale)
    | false, false => shortestFrom closed low mid high num den steps (scale - 1)

/-- Digits and their power of ten for the positive number `m` times two to the
power `e`. -/
def shortest (f : Format) (m : Nat) (e : Int) : Nat × Int :=
  let low := if m == f.fractions && f.leastExponent < e then 4 * m - 1 else 4 * m - 2
  let num := Nat.pow 2 (e - 2).toNat
  let den := Nat.pow 2 (2 - e).toNat
  let scale := ((Nat.log2 m : Int) + e + 1) * 30103 / 100000 + 1
  shortestFrom (m % 2 == 0) low (4 * m) (4 * m + 2) num den 20 scale

/-- `digits` times ten to the power `scale`, written out. -/
def positional (digits : Nat) (scale : Int) : List Char :=
  let text := Nat.toDigits 10 digits
  if 0 ≤ scale then text ++ List.replicate scale.toNat '0'
  else
    let places := (-scale).toNat
    if text.length ≤ places then
      '0' :: '.' :: (List.replicate (places - text.length) '0' ++ text)
    else text.take (text.length - places) ++ '.' :: text.drop (text.length - places)

/-- The text of a number of the format. -/
def text (f : Format) : Parts → List Char
  | .nan => ['N', 'a', 'N']
  | .infinite negative => (if negative then ['-'] else []) ++ ['i', 'n', 'f']
  | .finite negative m e =>
    let size := if m == 0 then ['0'] else
      let (digits, scale) := shortest f m e
      positional digits scale
    (if negative then ['-'] else []) ++ size

/-- The text of a double. -/
def doubleText (v : Float) : String := String.ofList (text Format.double (partsOfDouble v))

/-- The text of a single. -/
def singleText (v : Float32) : String := String.ofList (text Format.single (partsOfSingle v))

end QueryExpr.Binary
