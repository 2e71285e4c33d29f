/-!
# Numbers

A number is a 64-bit binary floating-point word. The module reads the word as
sign, exponent field and fraction field, gives the exact rational value of a
finite word as `mantissa * 2 ^ scale`, and rounds an exact quotient back to the
nearest word (`nearest`, ties to the even mantissa). Sums are exact sums
rounded once. `equal` is numeric equality: the two zeros are equal and a NaN
equals nothing.
-/

namespace Microtask

/-- A double-precision number, given by its 64 bits. -/
structure Number where
  bits : UInt64
  deriving DecidableEq, Repr, Inhabited, Hashable

namespace Number

/-! ## Fields of the word -/

/-- The sign bit. -/
def isNegative (x : Number) : Bool := decide (Nat.pow 2 63 ≤ x.bits.toNat)

/-- The eleven exponent bits. -/
def exponentField (x : Number) : Nat := x.bits.toNat / Nat.pow 2 52 % 2048

/-- The fifty-two fraction bits. -/
def fractionField (x : Number) : Nat := x.bits.toNat % Nat.pow 2 52

def isNaN (x : Number) : Bool := x.exponentField == 2047 && x.fractionField != 0

def isInfinite (x : Number) : Bool := x.exponentField == 2047 && x.fractionField == 0

def isFinite (x : Number) : Bool := x.exponentField != 2047

/-- Both zeros. -/
def isZero (x : Number) : Bool := x.exponentField == 0 && x.fractionField == 0

/-- The integer mantissa of a finite number, with the hidden bit of a normal one. -/
def mantissa (x : Number) : Nat :=
  if x.exponentField = 0 then x.fractionField else x.fractionField + Nat.pow 2 52

/-- The power of two that goes with the mantissa: the magnitude of a finite
number is `mantissa * 2 ^ scale`. -/
def scale (x : Number) : Int := (max x.exponentField 1 : Int) - 1075

/-! ## Words with a name -/

/-- The word with the given sign and the given 63 lower bits. -/
def ofMagnitude (negative : Bool) (low : Nat) : Number :=
  ⟨UInt64.ofNat (low % Nat.pow 2 63 + if negative then Nat.pow 2 63 else 0)⟩

def nan : Number := ofMagnitude false (2047 * Nat.pow 2 52 + Nat.pow 2 51)

def infinity (negative : Bool) : Number := ofMagnitude negative (2047 * Nat.pow 2 52)

def zero (negative : Bool) : Number := ofMagnitude negative 0

/-! ## Rounding -/

/-- `num / den` rounded to the nearest natural number, a tie to the even one. -/
def roundHalfEven (num den : Nat) : Nat :=
  let quotient := num / den
  let twice := 2 * (num % den)
  if twice < den then quotient
  else if den < twice then quotient + 1
  else quotient + quotient % 2

/-- The exponent `e` with `2 ^ e ≤ num / den < 2 ^ (e + 1)`, for positive arguments. -/
def binaryExponent (num den : Nat) : Int :=
  let guess : Int := (num.log2 : Int) - den.log2
  let above : Bool :=
    if 0 ≤ guess then den * Nat.pow 2 guess.toNat ≤ num
    else den ≤ num * Nat.pow 2 (-guess).toNat
  if above then guess else guess - 1

/-- The number nearest to `num / den`, a tie going to the even mantissa. Beyond
the largest finite number it is an infinity. -/
def nearest (negative : Bool) (num den : Nat) : Number :=
  if num = 0 then zero negative
  else
    let q := max (binaryExponent num den - 52) (-1074)
    let m :=
      if 0 ≤ q then roundHalfEven num (den * Nat.pow 2 q.toNat)
      else roundHalfEven (num * Nat.pow 2 (-q).toNat) den
    let low := (q + 1074).toNat * Nat.pow 2 52 + m
    ofMagnitude negative (min low (2047 * Nat.pow 2 52))

def ofNat (n : Nat) : Number := nearest false n 1

def ofInt (i : Int) : Number := nearest (decide (i < 0)) i.natAbs 1

/-! ## Arithmetic and comparison -/

/-- The signed mantissa of a finite number at the scale `2 ^ q`, for `q ≤ scale`. -/
def signedAt (x : Number) (q : Int) : Int :=
  let m : Int := x.mantissa * Nat.pow 2 (x.scale - q).toNat
  if x.isNegative then -m else m

/-- The exact sum, rounded once. A zero sum is negative only if both terms are. -/
def add (x y : Number) : Number :=
  if x.isNaN || y.isNaN then nan
  else if x.isInfinite then
    if y.isInfinite && x.isNegative != y.isNegative then nan else x
  else if y.isInfinite then y
  else
    let q := min x.scale y.scale
    let sum := x.signedAt q + y.signedAt q
    if sum = 0 then zero (x.isNegative && y.isNegative)
    else if 0 ≤ q then nearest (decide (sum < 0)) (sum.natAbs * Nat.pow 2 q.toNat) 1
    else nearest (decide (sum < 0)) sum.natAbs (Nat.pow 2 (-q).toNat)

/-- The number itself, with one word for every NaN. -/
def canonical (x : Number) : Number := if x.isNaN then nan else x

/-- Numeric equality. -/
def equal (x y : Number) : Bool :=
  !x.isNaN && !y.isNaN && (x == y || x.isZero && y.isZero)

/-- The magnitude of a finite number without its fractional part. -/
def floorMagnitude (x : Number) : Nat :=
  if 0 ≤ x.scale then x.mantissa * Nat.pow 2 x.scale.toNat
  else x.mantissa / Nat.pow 2 (-x.scale).toNat

/-- Whether a finite number has no fractional part. -/
def isIntegral (x : Number) : Bool :=
  decide (0 ≤ x.scale) || x.mantissa % Nat.pow 2 (-x.scale).toNat == 0

/-- The number as a count: the fractional part is dropped, NaN and negative
numbers count as zero, and everything beyond the largest 64-bit word as that word. -/
def toCount (x : Number) : Nat :=
  if x.isNaN || x.isNegative then 0
  else if x.isInfinite then Nat.pow 2 64 - 1
  else min x.floorMagnitude (Nat.pow 2 64 - 1)

end Number

end Microtask
