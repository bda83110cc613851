import LazyClasses.Text.Case
/-! # Class names

A class reference may begin with one namespace separator, which says that the rest is the full
name; `bare` is the reference without it. Two references mean the same class when their bare names
differ at most in the case of ASCII letters, so classes are filed under `key`. -/

namespace LazyClasses.ClassName

/-- The characters after one leading `\`, if there is one. -/
def bareChars : List Char → List Char
  | '\\' :: rest => rest
  | l => l

/-- The reference without one leading `\`. -/
def bare (name : String) : String := String.ofList (bareChars name.toList)

/-- What a class is filed under. -/
def key (name : String) : String := Text.lower (bare name)

@[simp] theorem toList_bare (name : String) : (bare name).toList = bareChars name.toList := by
  simp [bare]

/-- A name that does not begin with `\` is its own bare name. -/
theorem bareChars_of_head?_ne {l : List Char} (h : l.head? ≠ some '\\') : bareChars l = l := by
  unfold bareChars
  split
  · simp at h
  · rfl

theorem toLower_eq_separator_iff {c : Char} : c.toLower = '\\' ↔ c = '\\' :=
  Text.toLower_eq_iff (by decide) (by decide)

theorem bareChars_map_toLower (l : List Char) :
    bareChars (l.map Char.toLower) = (bareChars l).map Char.toLower := by
  cases l with
  | nil => rfl
  | cons c l =>
    by_cases hc : c = '\\'
    · rw [hc]; rfl
    · have hlower : c.toLower ≠ '\\' := fun h => hc (toLower_eq_separator_iff.1 h)
      rw [List.map_cons, bareChars_of_head?_ne (by simpa using hlower),
        bareChars_of_head?_ne (by simpa using hc), List.map_cons]

theorem key_eq_bare_lower (p : String) : key p = bare (Text.lower p) := by
  rw [key, Text.lower, bare, bare, Text.toList_lower, bareChars_map_toLower, String.toList_ofList]

end LazyClasses.ClassName
