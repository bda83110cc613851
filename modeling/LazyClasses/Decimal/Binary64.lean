/-! # Binary floating point numbers

A positive number of the 64-bit binary format is `mantissa · 2 ^ exponent` with a mantissa below
`2 ^ 53`; the mantissa has all its 53 bits unless the exponent is the least one. `round` takes an
exact ratio to the nearest such number, a tie to the even mantissa. -/

namespace LazyClasses.Decimal

/-- A number `mantissa · 2 ^ exponent` that is zero or positive. -/
structure Binary64 where
  mantissa : Nat
  /-- The exponent of the last bit. -/
  exponent : Int
deriving DecidableEq, Repr

namespace Binary64

def zero : Binary64 := ⟨0, -1074⟩

/-- Whether the number is zero. -/
def isZero (x : Binary64) : Bool := x.mantissa == 0

/-- The ratio `numerator / denominator` times `2 ^ -exponent`, as a ratio. -/
def scaled (numerator denominator : Nat) (exponent : Int) : Nat × Nat :=
  if 0 ≤ exponent then (numerator, denominator * Nat.pow 2 exponent.toNat)
  else (numerator * Nat.pow 2 (-exponent).toNat, denominator)

/-- A ratio to the nearest integer, a tie to the even one. -/
def roundHalfEven (numerator denominator : Nat) : Nat :=
  let quotient := numerator / denominator
  let twice := 2 * (numerator % denominator)
  if twice < denominator then quotient
  else if denominator < twice then quotient + 1
  else quotient + quotient % 2

/-- The exponent with which the ratio has 53 significant bits, or the least one. -/
def exponentOf (numerator denominator : Nat) : Int :=
  let guess : Int := (numerator.log2 : Int) - denominator.log2 - 52
  let r := scaled numerator denominator guess
  max (-1074) (if r.1 < r.2 * Nat.pow 2 52 then guess - 1 else guess)

/-- The number nearest to a ratio of positive numbers; `none` if it is too large for the format. -/
def round (numerator denominator : Nat) : Option Binary64 :=
  if numerator = 0 then some zero
  else
    let exponent := exponentOf numerator denominator
    let r := scaled numerator denominator exponent
    let mantissa := roundHalfEven r.1 r.2
    let x : Binary64 :=
      if mantissa = Nat.pow 2 53 then ⟨Nat.pow 2 52, exponent + 1⟩ else ⟨mantissa, exponent⟩
    if 971 < x.exponent then none else some x

/-- The number as a ratio. -/
def ratio (x : Binary64) : Nat × Nat :=
  if 0 ≤ x.exponent then (x.mantissa * Nat.pow 2 x.exponent.toNat, 1)
  else (x.mantissa, Nat.pow 2 (-x.exponent).toNat)

/-- The rounded product. -/
def mul (x y : Binary64) : Option Binary64 :=
  round (x.ratio.1 * y.ratio.1) (x.ratio.2 * y.ratio.2)

/-- The rounded quotient. -/
def div (x y : Binary64) : Option Binary64 :=
  round (x.ratio.1 * y.ratio.2) (x.ratio.2 * y.ratio.1)

/-- The number nearest to an integer. -/
def ofNat (n : Nat) : Option Binary64 := round n 1

end Binary64

end LazyClasses.Decimal
