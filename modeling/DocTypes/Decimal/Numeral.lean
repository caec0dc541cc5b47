/-!
# Decimal numerals

A `Numeral` is a number as written: a sign, digits, and perhaps a fraction and a power of ten. Its
value in double precision is found in two steps (`toFloat?`). The leading digits are taken into a
significand as long as it stays below `2^64`; the significand is then scaled by powers of ten in
double arithmetic. The answer may be off by a unit in the last place, but is exact for significands
below `2^53` with powers of ten up to `10^22`. A numeral beyond the greatest double has no value.
-/

namespace DocTypes

/-- A number as written. Digits are in reading order, most significant first, and `fraction` holds
those behind the point. -/
structure Numeral where
  negative : Bool
  whole : List Nat
  fraction : Option (List Nat)
  exponent : Option Int
deriving DecidableEq, Repr

namespace Numeral

/-- The number that `digits` spell in base ten, continuing after `start`. -/
def spelled (start : Nat) (digits : List Nat) : Nat := digits.foldl (fun n d => 10 * n + d) start

/-- A numeral without a `fraction` and without an `exponent`. -/
def isWhole (n : Numeral) : Bool := n.fraction.isNone && n.exponent.isNone

/-- The `significand` continued with digits as long as it stays below `2^64`, and the digits that no
longer fit. -/
def takeDigits (significand : Nat) : List Nat → Nat × List Nat
  | [] => (significand, [])
  | d :: rest =>
    if 10 * significand + d < UInt64.size then takeDigits (10 * significand + d) rest
    else (significand, d :: rest)

/-- The greatest power of ten that is a double, by its exponent. -/
def greatestPower : Nat := 308

/-- The double next to `10^e`. -/
def powerOfTen (e : Nat) : Float := Float.ofScientific 1 false e

/-- The double `x` divided by `10^e`, in steps of the `greatestPower` there is. -/
def scaleDown (x : Float) (e : Nat) : Float :=
  if e ≤ greatestPower then x / powerOfTen e
  else if x == 0 then x
  else scaleDown (x / powerOfTen greatestPower) (e - greatestPower)
termination_by e
decreasing_by simp only [greatestPower] at *; omega

/-- The double `x` multiplied by `10^e`, unless that leaves the range. -/
def scaleUp? (x : Float) (e : Nat) : Option Float :=
  if e ≤ greatestPower then
    let y := x * powerOfTen e
    if y.isInf then none else some y
  else if x == 0 then some x else none

/-- The value of a numeral in double precision, by `takeDigits` and one of the two scalings. -/
def toFloat? (n : Numeral) : Option Float :=
  let (head, cut) := takeDigits 0 n.whole
  let fraction := n.fraction.getD []
  let (significand, unread) := takeDigits head fraction
  let taken := fraction.length - unread.length
  -- Digits cut from the whole part count as powers of ten, and those taken from the fraction
  -- against them.
  let e : Int := n.exponent.getD 0 + cut.length - taken
  let x := Float.ofNat significand
  let magnitude := if 0 ≤ e then scaleUp? x e.toNat else some (scaleDown x (-e).toNat)
  magnitude.map fun y => if n.negative then -y else y

end Numeral

end DocTypes
