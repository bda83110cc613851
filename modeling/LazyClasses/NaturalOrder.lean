/-! # Natural order

The order in which people expect numbered names: a run of digits counts by its value, so `p2`
comes before `p10`, and everything else counts byte by byte. Leading zeros do not count, so
distinct texts may be equal in this order. -/

namespace LazyClasses.NaturalOrder

/-- A byte that is an ASCII digit. -/
def isDigit (b : UInt8) : Bool := 0x30 ≤ b && b ≤ 0x39

/-- The digits from the first that is not zero on. -/
def significant (digits : List UInt8) : List UInt8 := digits.dropWhile (· == 0x30)

/-- Compares two texts byte by byte, a proper beginning first. -/
def compareBytes : List UInt8 → List UInt8 → Ordering
  | [], [] => .eq
  | [], _ :: _ => .lt
  | _ :: _, [] => .gt
  | a :: as, b :: bs => (compare a b).then (compareBytes as bs)

/-- Compares two runs of digits by value: of numbers without leading zeros the longer is greater. -/
def compareNumbers (a b : List UInt8) : Ordering :=
  (compare (significant a).length (significant b).length).then
    (compareBytes (significant a) (significant b))

/-- Compares two byte strings: digit runs that meet by value, all else byte by byte. -/
def compareNatural : List UInt8 → List UInt8 → Ordering
  | [], [] => .eq
  | [], _ :: _ => .lt
  | _ :: _, [] => .gt
  | a :: as, b :: bs =>
    if isDigit a && isDigit b then
      (compareNumbers (a :: as.takeWhile isDigit) (b :: bs.takeWhile isDigit)).then
        (compareNatural (as.dropWhile isDigit) (bs.dropWhile isDigit))
    else (compare a b).then (compareNatural as bs)
termination_by l => l.length
decreasing_by
  · have := (List.dropWhile_suffix isDigit (l := as)).length_le
    simp only [List.length_cons]; omega
  · simp

/-- The bytes of a text. -/
def bytes (s : String) : List UInt8 := s.toUTF8.data.toList

/-- **The natural order** of two texts. -/
def cmp (a b : String) : Ordering := compareNatural (bytes a) (bytes b)

/-- Whether the first text may come before the second. -/
def le (a b : String) : Bool := (cmp a b).isLE

/-- The texts in natural order; texts that are equal in it keep theirs. -/
def sort (texts : List String) : List String := texts.mergeSort le

end LazyClasses.NaturalOrder
