/-! # Letter case

PHP compares the names of classes, methods and types without regard to the case of the letters
`A` to `Z`; every other character counts as it is. `lower` is the common spelling of such a name,
and two names are the same when their lower spellings are.

* `lower_lower`: a lower spelling is its own lower spelling.
* `same_iff`: the test compares lower spellings. -/

namespace LazyClasses.Text

/-- The text with the letters `A` to `Z` replaced by `a` to `z`. -/
def lower (s : String) : String := String.ofList (s.toList.map Char.toLower)

/-- Whether two texts differ at most in the case of ASCII letters. -/
def same (a b : String) : Bool := lower a == lower b

@[simp] theorem toList_lower (s : String) : (lower s).toList = s.toList.map Char.toLower := by
  simp [lower]

theorem toNat_toLower (c : Char) : c.toLower.toNat =
    if 65 ≤ c.toNat ∧ c.toNat ≤ 90 then c.toNat + 32 else c.toNat := by
  have hA : 'A'.val.toNat = 65 := rfl
  have hZ : 'Z'.val.toNat = 90 := rfl
  have hshift : ('a'.val - 'A'.val).toNat = 32 := rfl
  have hletter : c.val ≥ 'A'.val ∧ c.val ≤ 'Z'.val ↔ 65 ≤ c.toNat ∧ c.toNat ≤ 90 := by
    rw [ge_iff_le, UInt32.le_iff_toNat_le, UInt32.le_iff_toNat_le, hA, hZ]
    rfl
  by_cases hc : 65 ≤ c.toNat ∧ c.toNat ≤ 90
  · have hval : c.toLower.toNat = (c.val + ('a'.val - 'A'.val)).toNat :=
      congrArg Char.toNat (dif_pos (hletter.2 hc))
    have hnat : c.toNat = c.val.toNat := rfl
    rw [if_pos hc, hval, UInt32.toNat_add]
    omega
  · rw [if_neg hc]
    exact congrArg Char.toNat (dif_neg (mt hletter.1 hc))

theorem toLower_eq_self {c : Char} (h : ¬(65 ≤ c.toNat ∧ c.toNat ≤ 90)) : c.toLower = c := by
  rw [← Char.toNat_inj, toNat_toLower, if_neg h]

/-- A character that is no letter of ASCII is the lower case of itself alone. -/
theorem toLower_eq_iff {c d : Char} (hupper : ¬(65 ≤ d.toNat ∧ d.toNat ≤ 90))
    (hlower : ¬(97 ≤ d.toNat ∧ d.toNat ≤ 122)) : c.toLower = d ↔ c = d := by
  rw [← Char.toNat_inj, ← Char.toNat_inj, toNat_toLower]
  split <;> omega

theorem toLower_toLower (c : Char) : c.toLower.toLower = c.toLower := by
  -- What is lower is not between `A` and `Z`.
  have hlower : ¬(65 ≤ c.toLower.toNat ∧ c.toLower.toNat ≤ 90) := by
    rw [toNat_toLower]
    split <;> omega
  exact toLower_eq_self hlower

theorem lower_lower (s : String) : lower (lower s) = lower s := by
  rw [lower, toList_lower, List.map_map, lower]
  congr 2
  exact funext toLower_toLower

theorem lower_append (a b : String) : lower (a ++ b) = lower a ++ lower b := by
  rw [lower, String.toList_append, List.map_append, String.ofList_append]
  rfl

theorem lower_separator (name : String) : lower ("\\" ++ name) = "\\" ++ lower name :=
  lower_append "\\" name

theorem same_iff {a b : String} : same a b = true ↔ lower a = lower b := by simp [same]

@[simp] theorem same_refl (a : String) : same a a = true := by simp [same]

theorem same_comm (a b : String) : same a b = same b a := by
  simp only [same]; exact BEq.comm

/-- Whether the list holds the text, up to the case of ASCII letters. -/
def memIgnoreCase (s : String) (l : List String) : Bool := l.any (same s)

theorem memIgnoreCase_iff {s : String} {l : List String} :
    memIgnoreCase s l = true ↔ ∃ t ∈ l, lower s = lower t := by
  simp [memIgnoreCase, same]

end LazyClasses.Text
