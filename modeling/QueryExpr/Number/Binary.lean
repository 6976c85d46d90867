/-
# Binary floating-point numbers, exactly

The two formats of floating-point numbers, with 53 and 24 significant bits.
A bit pattern is taken apart into sign, integer and power of two, and the
number nearest to a fraction is put together again, a tie going to the even
neighbour. All in between is exact integer arithmetic: numbers of one format
from those of the other, numbers from integers, integers from numbers, the
remainder of a division, and numbers read from decimal digits.

Key definitions: `Binary.Format`, `Binary.Parts`, `Binary.Format.parts`,
`Binary.Format.nearest`, `Binary.Format.nearestDecimal`,
`Binary.Format.pack`, `widen`, `narrow`, `truncate`, `doubleOfInt`,
`singleOfInt`, `remainder`.
-/

namespace QueryExpr.Binary

/-- A format: the number of significant bits, and the number of bits that
hold the exponent. -/
structure Format where
  precision : Nat
  exponentBits : Nat

namespace Format

/-- The format of 64 bits. -/
def double : Format := ⟨53, 11⟩

/-- The format of 32 bits. -/
def single : Format := ⟨24, 8⟩

/-- The bits below the exponent, as their number of combinations. -/
def fractions (f : Format) : Nat := Nat.pow 2 (f.precision - 1)

/-- The exponent field of infinities. -/
def infiniteField (f : Format) : Nat := Nat.pow 2 f.exponentBits - 1

/-- The exponent of the least positive number: that number is two to this
power. -/
def leastExponent (f : Format) : Int :=
  3 - (Nat.pow 2 (f.exponentBits - 1) : Nat) - f.precision

/-- The pattern of the sign. -/
def signBit (f : Format) : Nat := f.fractions * Nat.pow 2 f.exponentBits

/-- The pattern of positive infinity. -/
def infinity (f : Format) : Nat := f.infiniteField * f.fractions

end Format

/-- What a bit pattern stands for. A finite number is `mantissa` times two to
the power `exponent`, with its sign. -/
inductive Parts
  | nan
  | infinite (negative : Bool)
  | finite (negative : Bool) (mantissa : Nat) (exponent : Int)
  deriving DecidableEq, Repr

namespace Format

/-- Takes a bit pattern apart. -/
def parts (f : Format) (bits : Nat) : Parts :=
  let negative := f.signBit ≤ bits
  let magnitude := bits % f.signBit
  let field := magnitude / f.fractions
  let fraction := magnitude % f.fractions
  if field == f.infiniteField then
    if fraction == 0 then .infinite negative else .nan
  else if field == 0 then .finite negative fraction f.leastExponent
  else .finite negative (f.fractions + fraction) (f.leastExponent + field - 1)

/-- The quotient rounded to the nearest integer, a tie to the even one. -/
def roundDiv (num den : Nat) : Nat :=
  let q := num / den
  let r := num % den
  if 2 * r < den then q
  else if den < 2 * r then q + 1
  else if q % 2 == 0 then q else q + 1

/-- The quotient of `num` and `den` times two to the power `-e`, as a fraction. -/
def scaled (num den : Nat) (e : Int) : Nat × Nat :=
  (num * Nat.pow 2 (-e).toNat, den * Nat.pow 2 e.toNat)

/-- The pattern of the number nearest to `num / den`, without its sign. What
is too large becomes infinity. -/
def nearestMagnitude (f : Format) (num den : Nat) : Nat :=
  if num == 0 then 0
  else
    let low : Int := (Nat.log2 num : Int) - Nat.log2 den - f.precision
    let (n, d) := scaled num den low
    let fitted := if n / d < Nat.pow 2 f.precision then low else low + 1
    let e := max fitted f.leastExponent
    let (n, d) := scaled num den e
    min f.infinity ((e - f.leastExponent).toNat * f.fractions + roundDiv n d)

/-- The pattern of the number nearest to `num / den`, with a sign. -/
def nearest (f : Format) (negative : Bool) (num den : Nat) : Nat :=
  (if negative then f.signBit else 0) + f.nearestMagnitude num den

/-- The pattern of the number nearest to `digits` times ten to the power
`scale`. A number far outside the format's range is settled by its order of
magnitude alone. -/
def nearestDecimal (f : Format) (digits : Nat) (scale : Int) : Nat :=
  if digits == 0 then 0
  else
    let order := (Nat.log2 digits : Int) * 30103 / 100000 + scale
    if 400 < order then f.infinity
    else if order < -400 then 0
    else f.nearestMagnitude (digits * Nat.pow 10 scale.toNat) (Nat.pow 10 (-scale).toNat)

/-- The pattern of the number nearest to what the parts stand for. -/
def pack (f : Format) : Parts → Nat
  | .nan => f.infinity + f.fractions / 2
  | .infinite negative => (if negative then f.signBit else 0) + f.infinity
  | .finite negative m e =>
    let (num, den) := scaled m 1 (-e)
    f.nearest negative num den

end Format

/-- The parts of a double. -/
def partsOfDouble (v : Float) : Parts := Format.double.parts v.toBits.toNat

/-- The parts of a single. -/
def partsOfSingle (v : Float32) : Parts := Format.single.parts v.toBits.toNat

/-- The double of a bit pattern. -/
def double (bits : Nat) : Float := Float.ofBits (UInt64.ofNat bits)

/-- The single of a bit pattern. -/
def single (bits : Nat) : Float32 := Float32.ofBits (UInt32.ofNat bits)

/-- The double with the value of a single. -/
def widen (v : Float32) : Float := double (Format.double.pack (partsOfSingle v))

/-- The single nearest to a double. -/
def narrow (v : Float) : Float32 := single (Format.single.pack (partsOfDouble v))

/-- The double nearest to an integer. -/
def doubleOfInt (n : Int) : Float := double (Format.double.nearest (n < 0) n.natAbs 1)

/-- The single nearest to an integer. -/
def singleOfInt (n : Int) : Float32 := single (Format.single.nearest (n < 0) n.natAbs 1)

/-- The integer next to a double on the side of zero. What is no number
becomes zero, and an infinity an integer beyond all finite doubles. -/
def truncate (v : Float) : Int :=
  match partsOfDouble v with
  | .nan => 0
  | .infinite negative =>
    let size : Int := (Nat.pow 2 1024 : Nat)
    if negative then -size else size
  | .finite negative m e =>
    let size : Int := (m * Nat.pow 2 e.toNat / Nat.pow 2 (-e).toNat : Nat)
    if negative then -size else size

/-- What is left of `a` after taking away `b` as often as it goes into it
towards zero. The result has the sign of `a`. -/
def remainder (a b : Float) : Float :=
  match partsOfDouble a, partsOfDouble b with
  | .nan, _ | _, .nan | .infinite _, _ => double (Format.double.infinity + 1)
  | _, .infinite _ => a
  | .finite negative m e, .finite _ n k =>
    if n == 0 then double (Format.double.infinity + 1)
    else
      let low := min e k
      let r := m * Nat.pow 2 (e - low).toNat % (n * Nat.pow 2 (k - low).toNat)
      let (num, den) := Format.scaled r 1 (-low)
      double (Format.double.nearest negative num den)

end QueryExpr.Binary
