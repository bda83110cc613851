/-! # Replacing in texts

`replace` puts one text in the place of another wherever it stands, from left to right; what has
been put in is not searched again. -/

namespace LazyClasses.Text

/-- The characters with `new` in the place of each `old`; an empty `old` stands nowhere. -/
def replaceChars (old new : List Char) : List Char → List Char
  | [] => []
  | c :: rest =>
    if !old.isEmpty && old.isPrefixOf (c :: rest) then
      new ++ replaceChars old new (rest.drop (old.length - 1))
    else c :: replaceChars old new rest
termination_by l => l.length
decreasing_by
  · simp only [List.length_drop, List.length_cons]; omega
  · simp

/-- The text with `new` in the place of each `old`. -/
def replace (old new s : String) : String :=
  String.ofList (replaceChars old.toList new.toList s.toList)

end LazyClasses.Text
