/-! # Blanks

The characters with the Unicode property `White_Space`, and the text between the blanks at both
ends of a string. -/

namespace LazyClasses.Text

/-- The characters with the property `White_Space`. -/
def isBlank (c : Char) : Bool :=
  let n := c.toNat
  (0x09 ≤ n && n ≤ 0x0D) || n == 0x20 || n == 0x85 || n == 0xA0 || n == 0x1680 ||
    (0x2000 ≤ n && n ≤ 0x200A) || n == 0x2028 || n == 0x2029 || n == 0x202F || n == 0x205F ||
    n == 0x3000

/-- The characters from the first that is no blank on. -/
def trimLeft (l : List Char) : List Char := l.dropWhile isBlank

/-- The characters without the blanks at both ends. -/
def trimChars (l : List Char) : List Char := (trimLeft (trimLeft l).reverse).reverse

/-- The text without the blanks at both ends. -/
def trim (s : String) : String := String.ofList (trimChars s.toList)

@[simp] theorem toList_trim (s : String) : (trim s).toList = trimChars s.toList := by simp [trim]

end LazyClasses.Text
