/-! # Cutting texts

`split` cuts a text at every character of a kind and gives the pieces between them, empty ones
included; there is always one piece more than cuts. -/

namespace LazyClasses.Text

/-- Puts a character in front of the first piece. -/
def pushFront (c : Char) : List (List Char) → List (List Char)
  | [] => [[c]]
  | piece :: pieces => (c :: piece) :: pieces

/-- The pieces between the characters that `isCut` holds of. -/
def split (isCut : Char → Bool) : List Char → List (List Char)
  | [] => [[]]
  | c :: rest => if isCut c then [] :: split isCut rest else pushFront c (split isCut rest)

theorem split_ne_nil (isCut : Char → Bool) (l : List Char) : split isCut l ≠ [] := by
  cases l with
  | nil => simp [split]
  | cons c rest =>
    unfold split
    split
    · simp
    · unfold pushFront; split <;> simp

end LazyClasses.Text
