import Microtask.Number.Shortest

/-!
# Number text

`Number.text` writes a number without ever using an exponent: an integer below
`10 ^ 21` with all its exact digits, any other number with its shortest decimal
digits. `Number.read?` reads an optional sign and then either decimal digits
with an optional point and an optional exponent, or one of the words for the
infinities and NaN in any case, and rounds the decimal once.
-/

namespace Microtask.Number

/-! ## Writing -/

/-- A decimal in positional notation. -/
def Decimal.positional (d : Decimal) : String :=
  let digits := (toString d.digits).toList
  if 0 ≤ d.exponent then String.ofList (digits ++ List.replicate d.exponent.toNat '0')
  else
    let places := (-d.exponent).toNat
    let padded := List.replicate (places + 1 - digits.length) '0' ++ digits
    let whole := padded.length - places
    String.ofList (padded.take whole ++ '.' :: padded.drop whole)

/-- The text of the magnitude of a nonzero finite number. -/
def magnitudeText (x : Number) : String :=
  if x.isIntegral && decide (x.floorMagnitude < Nat.pow 10 21) then toString x.floorMagnitude
  else x.shortest.positional

/-- The text of a number; both zeros are written `0`. -/
def text (x : Number) : String :=
  if x.isNaN then "NaN"
  else if x.isInfinite then (if x.isNegative then "-Infinity" else "Infinity")
  else if x.isZero then "0"
  else if x.isNegative then "-" ++ x.magnitudeText
  else x.magnitudeText

/-! ## Reading -/

/-- The value of a list of decimal digits. -/
def digitsValue (ds : List Char) : Nat :=
  ds.foldl (fun n c => 10 * n + (c.toNat - '0'.toNat)) 0

/-- The number nearest to `n * 10 ^ e`. Exponents so far out that the result is
an infinity or a zero are not expanded. -/
def ofScientific (negative : Bool) (n : Nat) (e : Int) : Number :=
  if n = 0 then zero negative
  else if 400 < e then infinity negative
  else if e + (n.log2 : Int) < -400 then
    -- `n < 2 ^ (log2 n + 1) ≤ 10 ^ (log2 n + 1)`, so the value is below `10 ^ (-399)`
    zero negative
  else if 0 ≤ e then nearest negative (n * Nat.pow 10 e.toNat) 1
  else nearest negative n (Nat.pow 10 (-e).toNat)

/-- The exponent of a decimal: nothing, or `e` with an optional sign and digits. -/
def readExponent? : List Char → Option Int
  | [] => some 0
  | c :: rest =>
    if c = 'e' ∨ c = 'E' then
      let (negative, digits) := match rest with
        | '-' :: ds => (true, ds)
        | '+' :: ds => (false, ds)
        | ds => (false, ds)
      if !digits.isEmpty && digits.all Char.isDigit then
        let n : Int := digitsValue digits
        some (if negative then -n else n)
      else none
    else none

/-- A decimal without sign: digits, an optional point with digits, at least one
digit in all, and an optional exponent. -/
def readDecimal? (negative : Bool) (cs : List Char) : Option Number :=
  let whole := cs.takeWhile Char.isDigit
  let afterWhole := cs.dropWhile Char.isDigit
  let (places, rest) := match afterWhole with
    | '.' :: r => (r.takeWhile Char.isDigit, r.dropWhile Char.isDigit)
    | r => ([], r)
  if whole.isEmpty && places.isEmpty then none
  else (readExponent? rest).map fun e =>
    ofScientific negative (digitsValue (whole ++ places)) (e - places.length)

/-- A number without its sign. -/
def readMagnitude? (negative : Bool) (cs : List Char) : Option Number :=
  match cs.map Char.toLower with
  | ['i', 'n', 'f'] | ['i', 'n', 'f', 'i', 'n', 'i', 't', 'y'] => some (infinity negative)
  | ['n', 'a', 'n'] => some nan
  | _ => readDecimal? negative cs

/-- The number that a text denotes, if the whole text is one. -/
def read? (s : String) : Option Number :=
  match s.toList with
  | '-' :: cs => readMagnitude? true cs
  | '+' :: cs => readMagnitude? false cs
  | cs => readMagnitude? false cs

end Microtask.Number
