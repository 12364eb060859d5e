import ObjectSelect.Decimal.Double

/-!
# The decimal text of a double

Of the decimals that read back as a given double, `Double.shortest` takes the one with the fewest
digits, of several such the nearest to the double, and of two equally near ones the larger.

Everything is exact. A `Neighbourhood` holds a nonzero double's absolute value and the two halfway
points to its neighbours as multiples of one power of two. `Neighbourhood.onGrid?` looks for a
multiple of `10 ^ e` between the halfway points. If one of the multiples of `10 ^ e` lies there, so
does one of the two around the double, so only these are tried. `Neighbourhood.search` goes from
coarse grids to fine ones; the coarsest grid with a hit gives the fewest digits.

`Double.render` writes the shortest decimal without an exponent: whole numbers have no decimal
point, numbers below one start with a zero, the sign of a negative zero is kept, and the infinities
are `inf` and `-inf`.
-/

set_option autoImplicit false
set_option relaxedAutoImplicit false

namespace ObjectSelect

/-- The decimal `digits * 10 ^ exponent`. -/
structure Decimal where
  digits : Nat
  exponent : Int
  deriving DecidableEq

/-- A number and the ends of the interval that rounds to it, each a multiple of `2 ^ power`. -/
structure Neighbourhood where
  low : Nat
  value : Nat
  high : Nat
  power : Int
  /-- Whether the ends themselves round to the number. -/
  closed : Bool

namespace Neighbourhood

/-- The interval of a nonzero finite double. The gap below is half as wide where the mantissa is
the least one with its leading bit; a halfway point rounds to the even mantissa. -/
def ofDouble (x : Double) : Neighbourhood where
  low := 4 * x.mantissa - if x.mantissa = Nat.pow 2 52 then 1 else 2
  value := 4 * x.mantissa
  high := 4 * x.mantissa + 2
  power := x.power - 2
  closed := x.mantissa % 2 = 0

/-- The factor that takes multiples of `2 ^ n.power` to the unit shared with the grid `10 ^ e`. -/
def scale (n : Neighbourhood) (e : Int) : Nat :=
  Nat.pow 2 n.power.toNat * Nat.pow 10 (-e).toNat

/-- The length of a step of the grid `10 ^ e` in the shared unit. -/
def step (n : Neighbourhood) (e : Int) : Nat :=
  Nat.pow 10 e.toNat * Nat.pow 2 (-n.power).toNat

/-- Whether `d * 10 ^ e` rounds to the number. -/
def contains (n : Neighbourhood) (e : Int) (d : Nat) : Bool :=
  if n.closed then n.low * n.scale e ≤ d * n.step e && d * n.step e ≤ n.high * n.scale e
  else n.low * n.scale e < d * n.step e && d * n.step e < n.high * n.scale e

/-- The largest multiple of `10 ^ e` that is at most the number, counted in steps. -/
def floorOn (n : Neighbourhood) (e : Int) : Nat :=
  n.value * n.scale e / n.step e

/-- The multiple of `10 ^ e` next to the number that rounds to it; of two the nearer, and the upper
one when both are equally near. -/
def onGrid? (n : Neighbourhood) (e : Int) : Option Nat :=
  let below := n.floorOn e
  match n.contains e below, n.contains e (below + 1) with
  | true, true =>
    some (if 2 * n.value * n.scale e < (2 * below + 1) * n.step e then below else below + 1)
  | true, false => some below
  | false, true => some (below + 1)
  | false, false => none

/-- The first hit on the grids `10 ^ e`, `10 ^ (e - 1)`, … within `fuel` grids. -/
def search (n : Neighbourhood) : Nat → Int → Decimal
  | 0, e => ⟨n.floorOn e, e⟩
  | fuel + 1, e =>
    match n.onGrid? e with
    | some d => ⟨d, e⟩
    | none => n.search fuel (e - 1)

/-- A grid too coarse to hit: its step is longer than the upper end. -/
def coarsest (n : Neighbourhood) : Nat :=
  (Nat.toDigits 10 (n.high * n.scale 0 / n.step 0)).length

/-- The shortest decimal. A double is a multiple of `10 ^ (-1074)`, so the search hits by then. -/
def shortest (n : Neighbourhood) : Decimal :=
  n.search (n.coarsest + 1075) n.coarsest

end Neighbourhood

/-- The shortest decimal of the absolute value of a nonzero finite double. -/
def Double.shortest (x : Double) : Decimal :=
  (Neighbourhood.ofDouble x).shortest

/-- The digits of `d` with the decimal point in place. -/
def Decimal.positional (d : Decimal) : List Char :=
  let digits := Nat.toDigits 10 d.digits
  let wholeDigits := digits.length + d.exponent
  if 0 ≤ d.exponent then
    digits ++ List.replicate d.exponent.toNat '0'
  else if 0 < wholeDigits then
    digits.take wholeDigits.toNat ++ '.' :: digits.drop wholeDigits.toNat
  else
    '0' :: '.' :: List.replicate (-wholeDigits).toNat '0' ++ digits

namespace Double

/-- The text of the absolute value. -/
def magnitude (x : Double) : List Char :=
  if x.isInfinite then ['i', 'n', 'f']
  else if x.isZero then ['0']
  else x.shortest.positional

/-- The text of a number. -/
def render (x : Double) : String :=
  String.ofList (if x.isNegative then '-' :: x.magnitude else x.magnitude)

end Double

end ObjectSelect
