import LazyClasses.Decimal.Shortest
/-! # JSON numerals

A numeral is kept as it was written. What it stands for is an integer, if it has neither fraction
nor exponent and fits into 64 bits, and otherwise a binary floating point number, worked out as
follows: of the digits as many count as fit into 64 bits without sign, each one left out before
the point raises the exponent, and the significand is multiplied or divided by a power of ten. A
number too large for the format is none.

* `Numeral.quantity?`: what a numeral stands for.
* `Quantity.text`: the quantity in decimal digits. -/

namespace LazyClasses

/-- A numeral of the JSON grammar. -/
structure Numeral where
  negative : Bool
  /-- The digits before the point. -/
  whole : List Char
  /-- The digits behind the point, if there is one. -/
  fraction : Option (List Char)
  /-- The sign and the digits of the exponent, if there is one. -/
  exponent : Option (Bool × List Char)
deriving DecidableEq, Repr

/-- What a numeral stands for. -/
inductive Quantity where
  | integer (n : Int)
  | floating (negative : Bool) (x : Decimal.Binary64)
deriving DecidableEq, Repr

namespace Numeral

/-- The greatest integer of 64 bits without sign. -/
def maxWord : Nat := Nat.pow 2 64 - 1

/-- The greatest exponent that is worked out digit by digit. -/
def maxExponent : Nat := Nat.pow 2 31 - 1

/-- The value of a digit. -/
def digit (c : Char) : Nat := c.toNat - '0'.toNat

/-- The value of a run of digits. -/
def value (digits : List Char) : Nat := digits.foldl (fun n c => 10 * n + digit c) 0

/-- The significand as far as it fits into a word, and how many digits of the run that takes. -/
def significand (start : Nat) : List Char → Nat × Nat
  | [] => (start, 0)
  | c :: rest =>
    let next := 10 * start + digit c
    if maxWord < next then (start, 0)
    else
      let more := significand next rest
      (more.1, more.2 + 1)

/-- A number times a power of ten, one rounding for each factor or divisor up to `10 ^ 308`. -/
def timesPowerOfTen (x : Decimal.Binary64) (exponent : Int) : Option Decimal.Binary64 :=
  if 0 ≤ exponent then
    if exponent ≤ 308 then (Decimal.Binary64.ofNat (Nat.pow 10 exponent.toNat)).bind x.mul
    else if x.isZero then some x else none
  else descend 4 x (-exponent).toNat
where
  /-- Divides by `10 ^ n`, at most `10 ^ 308` at a time; four times leave nothing. -/
  descend : Nat → Decimal.Binary64 → Nat → Option Decimal.Binary64
    | 0, _, _ => some .zero
    | steps + 1, x, n =>
      if n ≤ 308 then (Decimal.Binary64.ofNat (Nat.pow 10 n)).bind x.div
      else if x.isZero then some x
      else
        ((Decimal.Binary64.ofNat (Nat.pow 10 308)).bind x.div).bind fun y =>
          descend steps y (n - 308)

/-- The significand and the exponent of its last digit, without the exponent that was written. -/
def unscaled (n : Numeral) : Nat × Int :=
  let before := significand 0 n.whole
  let behind := significand before.1 (n.fraction.getD [])
  (behind.1, ((n.whole.length - before.2 : Nat) : Int) - behind.2)

/-- The floating point number that the numeral stands for. -/
def floating? (n : Numeral) : Option Decimal.Binary64 :=
  let base := n.unscaled
  match n.exponent with
  | none => (Decimal.Binary64.ofNat base.1).bind (timesPowerOfTen · base.2)
  | some (negative, digits) =>
    if maxExponent < value digits then
      if negative || base.1 = 0 then some .zero else none
    else
      (Decimal.Binary64.ofNat base.1).bind
        (timesPowerOfTen · (if negative then base.2 - value digits else base.2 + value digits))

/-- **What the numeral stands for**; `none` if it is too large. Minus zero is no integer. -/
def quantity? (n : Numeral) : Option Quantity :=
  let v := value n.whole
  let fits := if n.negative then 0 < v && v ≤ Nat.pow 2 63 else v ≤ maxWord
  if n.fraction.isNone && n.exponent.isNone && fits then
    some (.integer (if n.negative then -v else v))
  else n.floating?.map (.floating n.negative)

/-- The numeral of an integer. -/
def ofInt (n : Int) : Numeral := ⟨decide (n < 0), Nat.toDigits 10 n.natAbs, none, none⟩

/-- The numeral as written. -/
def text (n : Numeral) : String :=
  (if n.negative then "-" else "") ++ String.ofList n.whole ++
    (match n.fraction with
      | some digits => "." ++ String.ofList digits
      | none => "") ++
    (match n.exponent with
      | some (negative, digits) => (if negative then "e-" else "e") ++ String.ofList digits
      | none => "")

end Numeral

/-- The quantity in decimal digits; a floating point number has the fewest that read back, and a
point or an exponent in any case. -/
def Quantity.text : Quantity → String
  | .integer n => toString n
  | .floating negative x =>
    (if negative then "-" else "") ++ (if x.isZero then "0.0" else x.shortest.text)

end LazyClasses
