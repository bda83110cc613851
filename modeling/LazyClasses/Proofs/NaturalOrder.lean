import LazyClasses.NaturalOrder
import Mathlib.Tactic.SplitIfs
/-! # The natural order is a total preorder

A text is read as a sequence of tokens: the runs of digits, and the bytes that are no digits. A
run of digits counts as one token of the size of a digit, and two runs are told apart by their
significant digits. In this view the natural order compares two sequences token by token, so it
inherits from the order of tokens that it can be sorted by.

* `compareNatural_eq_compareLex`: the natural order is the lexicographic order of the tokens.
* `le_trans`, `le_total`: any two texts can be compared, and comparisons can be chained. -/

namespace LazyClasses.NaturalOrder

/-- What the natural order looks at in one piece. -/
inductive Token where
  /-- A run of digits. -/
  | number (digits : List UInt8)
  | byte (b : UInt8)

namespace Token

/-- Where a token stands among the bytes: a run of digits stands where digits do. -/
def place : Token → UInt8
  | number _ => 0x30
  | byte b => b

/-- The digits that tell a run from others. -/
def figures : Token → List UInt8
  | number digits => significant digits
  | byte _ => []

/-- The order of tokens: by place, then by value, of two values the longer being greater. -/
def cmp : Token → Token → Ordering :=
  compareLex (compareOn place) <|
    compareLex (compareOn fun t => t.figures.length) (compareOn figures)

instance : Std.TransCmp cmp := inferInstanceAs (Std.TransCmp (compareLex _ _))

end Token

/-- The tokens of a byte string. -/
def tokens : List UInt8 → List Token
  | [] => []
  | b :: bs =>
    if isDigit b then .number (b :: bs.takeWhile isDigit) :: tokens (bs.dropWhile isDigit)
    else .byte b :: tokens bs
termination_by l => l.length
decreasing_by
  · have := (List.dropWhile_suffix isDigit (l := bs)).length_le
    simp only [List.length_cons]; omega
  · simp

theorem compareBytes_eq_compare : ∀ as bs : List UInt8, compareBytes as bs = compare as bs
  | [], [] => rfl
  | [], _ :: _ => rfl
  | _ :: _, [] => rfl
  | a :: as, b :: bs => by
    rw [compareBytes, compareBytes_eq_compare as bs]
    exact (List.compareLex_cons_cons ..).symm

theorem compareNumbers_eq_cmp (a b : List UInt8) :
    compareNumbers a b = Token.cmp (.number a) (.number b) := by
  rw [compareNumbers, compareBytes_eq_compare]
  rfl

theorem cmp_byte_byte (a b : UInt8) : Token.cmp (.byte a) (.byte b) = compare a b := by
  change (compare a b).then _ = _
  cases compare a b <;> rfl

theorem compare_byte (a b : UInt8) :
    compare a b = if a.toNat < b.toNat then .lt else if a.toNat = b.toNat then .eq else .gt := by
  change compareOfLessAndEq a b = _
  simp only [compareOfLessAndEq, UInt8.lt_iff_toNat_lt, ← UInt8.toNat_inj]

/-- A byte that is no digit stands before all digits or behind all of them. -/
theorem compare_digit {a b : UInt8} (ha : isDigit a = true) (hb : isDigit b = false) :
    compare a b = compare 0x30 b ∧ compare b a = compare b 0x30 ∧ compare 0x30 b ≠ .eq ∧
      compare b 0x30 ≠ .eq := by
  have h30 : (0x30 : UInt8).toNat = 48 := rfl
  have h39 : (0x39 : UInt8).toNat = 57 := rfl
  simp only [isDigit, Bool.and_eq_true, decide_eq_true_eq, UInt8.le_iff_toNat_le, h30, h39] at ha
  simp only [isDigit, Bool.and_eq_false_iff, decide_eq_false_iff_not, UInt8.le_iff_toNat_le, h30,
    h39] at hb
  simp only [compare_byte, h30]
  grind

/-- Where a run of digits meets another byte, the first digit decides. -/
theorem cmp_number_byte {a b : UInt8} (ha : isDigit a = true) (hb : isDigit b = false)
    (digits : List UInt8) : Token.cmp (.number digits) (.byte b) = compare a b ∧
      Token.cmp (.byte b) (.number digits) = compare b a ∧ compare a b ≠ .eq ∧
      compare b a ≠ .eq := by
  obtain ⟨hab, hba, hne, hne'⟩ := compare_digit ha hb
  rw [hab, hba]
  refine ⟨?_, ?_, hne, hne'⟩
  · change (compare 0x30 b).then _ = _
    revert hne
    cases compare 0x30 b <;> simp
  · change (compare b 0x30).then _ = _
    revert hne'
    cases compare b 0x30 <;> simp

theorem then_of_ne_eq {o : Ordering} (h : o ≠ .eq) (o' : Ordering) : o.then o' = o := by
  cases o <;> simp_all

/-- **The natural order compares token by token.** -/
theorem compareNatural_eq_compareLex (as bs : List UInt8) :
    compareNatural as bs = List.compareLex Token.cmp (tokens as) (tokens bs) := by
  fun_induction compareNatural as bs with
  | case1 => rw [tokens]; rfl
  | case2 b bs => rw [tokens, tokens]; split_ifs <;> rfl
  | case3 a as => rw [tokens, tokens]; split_ifs <;> rfl
  | case4 a as b bs h ih =>
    rw [Bool.and_eq_true] at h
    rw [tokens, tokens, if_pos h.1, if_pos h.2, List.compareLex_cons_cons, ih,
      compareNumbers_eq_cmp]
  | case5 a as b bs h ih =>
    rw [tokens, tokens]
    split_ifs with ha hb hb
    · simp [ha, hb] at h
    · obtain ⟨hcmp, -, hne, -⟩ := cmp_number_byte ha (by simpa using hb) (a :: as.takeWhile isDigit)
      rw [List.compareLex_cons_cons, hcmp, then_of_ne_eq hne, then_of_ne_eq hne]
    · obtain ⟨-, hcmp, -, hne⟩ := cmp_number_byte hb (by simpa using ha) (b :: bs.takeWhile isDigit)
      rw [List.compareLex_cons_cons, hcmp, then_of_ne_eq hne, then_of_ne_eq hne]
    · rw [List.compareLex_cons_cons, cmp_byte_byte, ih]

theorem cmp_eq_compareLex (a b : String) :
    cmp a b = List.compareLex Token.cmp (tokens (bytes a)) (tokens (bytes b)) :=
  compareNatural_eq_compareLex _ _

theorem le_trans {a b c : String} (hab : le a b = true) (hbc : le b c = true) : le a c = true := by
  rw [le, cmp_eq_compareLex] at *
  exact Std.TransCmp.isLE_trans hab hbc

theorem le_total (a b : String) : (le a b || le b a) = true := by
  rw [le, le, cmp_eq_compareLex, cmp_eq_compareLex,
    @Std.OrientedCmp.eq_swap _ (List.compareLex Token.cmp) _ (tokens (bytes b))]
  cases List.compareLex Token.cmp (tokens (bytes a)) (tokens (bytes b)) <;> rfl

/-- Texts that are equal to one key in the natural order are equal to each other. -/
theorem le_of_cmp_eq {a b key : String} (ha : cmp a key = .eq) (hb : cmp b key = .eq) :
    le a b = true := by
  rw [le, cmp_eq_compareLex]
  rw [cmp_eq_compareLex] at ha hb
  rw [Std.TransCmp.eq_trans ha (Std.OrientedCmp.eq_symm hb)]
  rfl

end LazyClasses.NaturalOrder
