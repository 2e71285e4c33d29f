import Microtask.Number.Basic

/-!
# Shortest decimals

The shortest decimal that reads back as a given positive finite number. The
reals that round to `m * 2 ^ q` form an interval around it, whose ends belong to
it exactly when `m` is even. Decimal grids are tried from the coarsest down;
on each grid only the two neighbours of the value can lie in the interval. The
first grid with a neighbour in the interval gives the fewest digits, and of two
such neighbours the nearer is taken, the upper one on a tie.
-/

namespace Microtask.Number

/-- `digits * 10 ^ exponent`. -/
structure Decimal where
  digits : Nat
  exponent : Int
  deriving DecidableEq, Repr

/-- The interval of reals that round to a number, in units of `num / den`
scaled so that the bounds and the value are natural multiples of one unit. -/
structure Neighbourhood where
  lower : Nat
  value : Nat
  upper : Nat
  /-- Whether the bounds themselves round to the number. -/
  closed : Bool
  /-- One unit is `unitNum / unitDen`. -/
  unitNum : Nat
  unitDen : Nat

/-- The neighbourhood of a positive finite number. Below the least mantissa of a
binade the spacing halves, so the lower bound is nearer. -/
def neighbourhood (x : Number) : Neighbourhood :=
  let m := x.mantissa
  let narrow : Bool := m == Nat.pow 2 52 && decide (1 < x.exponentField)
  let unit : Int := x.scale - 2
  { lower := 4 * m - if narrow then 1 else 2
    value := 4 * m
    upper := 4 * m + 2
    closed := m % 2 == 0
    unitNum := if 0 ≤ unit then Nat.pow 2 unit.toNat else 1
    unitDen := if 0 ≤ unit then 1 else Nat.pow 2 (-unit).toNat }

/-- Whether `digits * num / den` units lie in the neighbourhood. -/
def Neighbourhood.contains (n : Neighbourhood) (digits num den : Nat) : Bool :=
  let p := digits * num
  if n.closed then decide (n.lower * den ≤ p) && decide (p ≤ n.upper * den)
  else decide (n.lower * den < p) && decide (p < n.upper * den)

/-- The decimal on the grid `10 ^ exponent` nearest to the value, if a neighbour
of the value on that grid lies in the neighbourhood. -/
def Neighbourhood.onGrid? (n : Neighbourhood) (exponent : Int) : Option Decimal :=
  -- one grid step is `num / den` units
  let num := (if 0 ≤ exponent then Nat.pow 10 exponent.toNat else 1) * n.unitDen
  let den := (if 0 ≤ exponent then 1 else Nat.pow 10 (-exponent).toNat) * n.unitNum
  let below := n.value * den / num
  let above := below + 1
  match n.contains below num den, n.contains above num den with
  | true, true =>
    if 2 * (n.value * den) < (below + above) * num then some ⟨below, exponent⟩
    else some ⟨above, exponent⟩
  | true, false => some ⟨below, exponent⟩
  | false, true => some ⟨above, exponent⟩
  | false, false => none

/-- The first decimal found on the grids `10 ^ exponent`, `10 ^ (exponent - 1)`, and so on. -/
def Neighbourhood.search (n : Neighbourhood) : Nat → Int → Option Decimal
  | 0, _ => none
  | grids + 1, exponent =>
    match n.onGrid? exponent with
    | some d => some d
    | none => n.search grids (exponent - 1)

/-- An exponent of ten that is at least that of the value and at most two more. -/
def Neighbourhood.coarsest (n : Neighbourhood) : Int :=
  let e := ((n.value * n.unitNum).log2 : Int) - (n.unitDen.log2 : Int)
  (e + 1) * 30103 / 100000 + 1

/-- The shortest decimal that reads back as the positive finite number `x`. -/
def shortest (x : Number) : Decimal :=
  let n := x.neighbourhood
  (n.search 22 n.coarsest).getD ⟨0, 0⟩

end Microtask.Number
