import LazyClasses.Decimal.Binary64
/-! # Shortest decimals

A `Decimal.Value` is a whole number of steps of a decimal grid; `Value.text` writes it. Of all
decimals that read back as a given binary number, `shortest` takes one with the fewest
digits, and of those the nearest; of two that are equally near it takes the one with the even last
digit.

The decimals that read back form an interval around the number, halfway to its neighbours on both
sides; the ends belong to it when the mantissa is even. With `n` digits, if any decimal lies in it,
so does one of the two around the number. -/

namespace LazyClasses.Decimal

/-- The decimal `digits · 10 ^ exponent`. -/
structure Value where
  digits : Nat
  /-- The exponent of the last digit. -/
  exponent : Int
deriving DecidableEq, Repr

namespace Binary64

/-- The number with the ends of its interval, in quarters of its last bit. -/
structure Interval where
  low : Nat
  mid : Nat
  high : Nat
  /-- Whether the ends read back too. -/
  inclusive : Bool

/-- The decimals that read back as the number lie in this interval. -/
def interval (x : Binary64) : Interval where
  low :=
    if x.mantissa = Nat.pow 2 52 ∧ -1074 < x.exponent then 4 * x.mantissa - 1
    else 4 * x.mantissa - 2
  mid := 4 * x.mantissa
  high := 4 * x.mantissa + 2
  inclusive := x.mantissa % 2 == 0

/-- How many quarters of the last bit `10 ^ exponent` is, as a ratio. -/
def gridStep (x : Binary64) (exponent : Int) : Nat × Nat :=
  let ten :=
    if 0 ≤ exponent then (Nat.pow 10 exponent.toNat, 1) else (1, Nat.pow 10 (-exponent).toNat)
  let two :=
    if 0 ≤ x.exponent - 2 then (1, Nat.pow 2 (x.exponent - 2).toNat)
    else (Nat.pow 2 (2 - x.exponent).toNat, 1)
  (ten.1 * two.1, ten.2 * two.2)

/-- Whether `count` steps of a grid lie in the interval. -/
def Interval.holds (i : Interval) (step : Nat × Nat) (count : Nat) : Bool :=
  let value := count * step.1
  if i.inclusive then i.low * step.2 ≤ value && value ≤ i.high * step.2
  else i.low * step.2 < value && value < i.high * step.2

/-- The number of steps of the grid nearest to the number that reads back, if there is one. -/
def onGrid (x : Binary64) (exponent : Int) : Option Nat :=
  let i := x.interval
  let step := x.gridStep exponent
  let below := i.mid * step.2 / step.1
  let rest := i.mid * step.2 % step.1
  let order :=
    if 2 * rest < step.1 ∨ 2 * rest = step.1 ∧ below % 2 = 0 then [below, below + 1]
    else [below + 1, below]
  order.find? (i.holds step)

/-- The exponent of the first digit: the greatest `e` with `10 ^ e` not above the number. -/
def leading (x : Binary64) : Int :=
  let r := x.ratio
  if r.2 ≤ r.1 then ((Nat.toDigits 10 (r.1 / r.2)).length : Int) - 1
  else
    match (List.range 330).find? fun j => r.2 ≤ r.1 * Nat.pow 10 j with
    | some j => -(j : Int)
    | none => 0

/-- The shortest decimal that reads back as the number, which is not zero. -/
def shortest (x : Binary64) : Value :=
  let first := x.leading
  let found := (List.range 17).findSome? fun (n : Nat) =>
    (x.onGrid (first - n)).map (⟨·, first - n⟩)
  found.getD ⟨0, 0⟩

end Binary64

/-- The decimal in positional notation, with at least one digit on both sides of the point. -/
def Value.positional (d : Value) : String :=
  let digits := Nat.toDigits 10 d.digits
  if 0 ≤ d.exponent then
    String.ofList (digits ++ List.replicate d.exponent.toNat '0' ++ ['.', '0'])
  else
    let places := (-d.exponent).toNat
    let padded := List.replicate (places + 1 - digits.length) '0' ++ digits
    let whole := padded.take (padded.length - places)
    let fraction := ((padded.drop (padded.length - places)).reverse.dropWhile (· == '0')).reverse
    String.ofList (whole ++ '.' :: if fraction.isEmpty then ['0'] else fraction)

/-- The exponent of the first digit. -/
def Value.firstExponent (d : Value) : Int :=
  d.exponent + (Nat.toDigits 10 d.digits).length - 1

/-- The decimal with one digit before the point and an exponent; no point without a digit behind
it. -/
def Value.scientific (d : Value) : String :=
  let digits := ((Nat.toDigits 10 d.digits).reverse.dropWhile (· == '0')).reverse
  let exponent := d.firstExponent
  String.ofList (digits.take 1 ++ (if digits.length ≤ 1 then [] else '.' :: digits.drop 1)) ++
    (if exponent < 0 then "e-" else "e+") ++ toString exponent.natAbs

/-- The decimal in positional notation from `10 ^ -5` on and below `10 ^ 16`, otherwise with an
exponent. -/
def Value.text (d : Value) : String :=
  if -5 ≤ d.firstExponent ∧ d.firstExponent < 16 then d.positional else d.scientific

end LazyClasses.Decimal
