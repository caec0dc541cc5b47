/-!
# The shortest decimal that reads back

A positive double `m · 2^q` stands for every real number that is nearer to it than to any other
double; on the borders of that interval the even neighbour wins. `shortest` finds the decimal
`d · 10^p` in the interval with the fewest digits, and of those the one nearest to the double, an
exact tie going to the even `d`. It tries the grids of multiples of `10^p` from the coarsest on
(`onGrid?`). If a grid has a point in the interval, the double's neighbour below or above on that
grid is one, so only these two are tried. All comparisons are between natural numbers.
-/

namespace DocTypes

/-- The decimal `coefficient · 10^exponent`. -/
structure Decimal where
  coefficient : Nat
  exponent : Int
deriving DecidableEq, Repr

namespace Decimal

/-- The magnitude `mantissa · 2^exponent` of a finite double. `narrow` says that the next smaller
double is only half a unit away, as it is below a power of two. -/
structure Magnitude where
  mantissa : Nat
  exponent : Int
  narrow : Bool
deriving DecidableEq, Repr

/-- The magnitude that the `bits` of a finite double stand for, without its sign. -/
def Magnitude.ofBits (bits : UInt64) : Magnitude :=
  let mantissa := (bits &&& 0xFFFFFFFFFFFFF).toNat
  let exponent := (bits >>> 52 &&& 0x7FF).toNat
  if exponent = 0 then ⟨mantissa, -1074, false⟩
  else ⟨0x10000000000000 + mantissa, (exponent : Int) - 1075, mantissa == 0 && 1 < exponent⟩

/-- The power `base^e`, whose exponent counts only if it is positive. -/
def power (base : Nat) (e : Int) : Nat := Nat.pow base e.toNat

/-- A quarter of the unit of `x`, the step that the borders of its interval are whole multiples of,
as a fraction `n / d` of one unit of the grid of multiples of `10^p`. -/
def quarterOnGrid (x : Magnitude) (p : Int) : Nat × Nat :=
  (power 2 (x.exponent - 2) * power 10 (-p), power 10 p * power 2 (2 - x.exponent))

/-- The point of the grid of multiples of `10^p` that lies in the interval of `x` and is nearest to
`x`, if there is any. -/
def onGrid? (x : Magnitude) (p : Int) : Option Decimal :=
  let (quarter, unit) := quarterOnGrid x p
  let value := 4 * x.mantissa * quarter
  let low := (4 * x.mantissa - if x.narrow then 1 else 2) * quarter
  let high := (4 * x.mantissa + 2) * quarter
  -- The borders belong to the interval if the mantissa is even.
  let inside (d : Nat) : Bool :=
    if x.mantissa % 2 = 0 then low ≤ d * unit && d * unit ≤ high
    else low < d * unit && d * unit < high
  let below := value / unit
  let fromBelow := value - below * unit
  let fromAbove := (below + 1) * unit - value
  match inside below, inside (below + 1) with
  | true, true =>
    if fromBelow < fromAbove || (fromBelow == fromAbove && below % 2 == 0) then some ⟨below, p⟩
    else some ⟨below + 1, p⟩
  | true, false => some ⟨below, p⟩
  | false, true => some ⟨below + 1, p⟩
  | false, false => none

/-- The exponents `p` of the grids that a double can need, coarsest first. -/
def gridExponents : List Int := (List.range 634).map fun (i : Nat) => (309 : Int) - i

/-- The shortest decimal that reads back as the double with these `bits`, the sign left out: the
first one that `onGrid?` finds. -/
def shortest (bits : UInt64) : Decimal :=
  let x := Magnitude.ofBits bits
  if x.mantissa = 0 then ⟨0, 0⟩ else (gridExponents.findSome? (onGrid? x)).getD ⟨0, 0⟩

/-- Which decimal exponents of the first digit are written in positional notation, from `lowest` to
`highest`. -/
structure Layout where
  lowest : Int
  highest : Int
deriving DecidableEq, Repr

/-- The decimal `d` in digits, as the `layout` wants it. Positional notation has at least one digit
on each side of the point; in scientific notation the exponent has a sign, and the point is left out
if no digit follows it. -/
def render (layout : Layout) (d : Decimal) : List Char :=
  let digits := Nat.toDigits 10 d.coefficient
  let first : Int := d.exponent + digits.length - 1
  if layout.lowest ≤ first ∧ first ≤ layout.highest then
    if 0 ≤ d.exponent then digits ++ List.replicate d.exponent.toNat '0' ++ ['.', '0']
    else if 0 ≤ first then
      digits.take (first.toNat + 1) ++ '.' :: digits.drop (first.toNat + 1)
    else '0' :: '.' :: List.replicate (-first - 1).toNat '0' ++ digits
  else
    let sign := if 0 ≤ first then '+' else '-'
    let fraction := match digits.drop 1 with
      | [] => []
      | rest => '.' :: rest
    digits.take 1 ++ fraction ++ 'e' :: sign :: Nat.toDigits 10 first.natAbs

end Decimal

end DocTypes
