import LazyClasses.Json.Basic
/-! # JSON tokens

`tokens` cuts a text into the tokens of the JSON grammar. Where no token can be read, `Token.bad`
ends the list.

* `numeral`: a numeral has no needless zero in front and digits on both sides of its point.
* `stringUnits`: what stands between the quotes, each escape `\u` as a 16-bit unit.
* `joinUnits`: units to text; half a surrogate pair stands for nothing. -/

namespace LazyClasses.Json

/-- A token of the JSON grammar. -/
inductive Token where
  | openArray
  | closeArray
  | openObject
  | closeObject
  | comma
  | colon
  | null
  | bool (value : Bool)
  | number (numeral : Numeral)
  | string (text : Option String)
  /-- No token can be read here. -/
  | bad
deriving DecidableEq, Repr

/-- The four characters that may stand between tokens. -/
def isSpace (c : Char) : Bool := c == ' ' || c == '\t' || c == '\n' || c == '\r'

/-! ### Numerals -/

/-- The digits at the front, and the rest. -/
def digits : List Char → List Char × List Char
  | [] => ([], [])
  | c :: rest => if c.isDigit then (c :: (digits rest).1, (digits rest).2) else ([], c :: rest)

/-- The digits at the front, of which there must be one, and the rest. -/
def someDigits (l : List Char) : Option (List Char × List Char) :=
  match digits l with
  | ([], _) => none
  | p => some p

/-- The digits before the point: a zero stands alone. -/
def wholeDigits (l : List Char) : Option (List Char × List Char) :=
  match someDigits l with
  | some ('0' :: _ :: _, _) => none
  | p => p

/-- The fraction, if a point follows, and the rest. -/
def fractionDigits : List Char → Option (Option (List Char) × List Char)
  | '.' :: rest => (someDigits rest).map fun p => (some p.1, p.2)
  | l => some (none, l)

/-- The sign of an exponent, and the rest. -/
def exponentSign : List Char → Bool × List Char
  | '+' :: rest => (false, rest)
  | '-' :: rest => (true, rest)
  | l => (false, l)

/-- The exponent, if its letter follows, and the rest. -/
def exponentPart : List Char → Option (Option (Bool × List Char) × List Char)
  | [] => some (none, [])
  | c :: rest =>
    if c = 'e' ∨ c = 'E' then
      let sign := exponentSign rest
      (someDigits sign.2).map fun p => (some (sign.1, p.1), p.2)
    else some (none, c :: rest)

/-- The numeral at the front behind its sign, and the rest. -/
def unsignedNumeral (negative : Bool) (l : List Char) : Option (Numeral × List Char) := do
  let (whole, l) ← wholeDigits l
  let (fraction, l) ← fractionDigits l
  let (exponent, l) ← exponentPart l
  return (⟨negative, whole, fraction, exponent⟩, l)

/-- The numeral at the front, and the rest. -/
def numeral : List Char → Option (Numeral × List Char)
  | '-' :: rest => unsignedNumeral true rest
  | l => unsignedNumeral false l

/-! ### Strings -/

/-- What a string is made of. -/
inductive TextUnit where
  | char (c : Char)
  /-- A 16-bit unit, written as an escape. -/
  | unit (n : Nat)
deriving DecidableEq, Repr

/-- The value of a hexadecimal digit. -/
def hexDigit (c : Char) : Option Nat :=
  if c.isDigit then some (c.toNat - 0x30)
  else if 'a' ≤ c ∧ c ≤ 'f' then some (c.toNat - 0x61 + 10)
  else if 'A' ≤ c ∧ c ≤ 'F' then some (c.toNat - 0x41 + 10)
  else none

/-- The unit that four hexadecimal digits name. -/
def hexUnit (a b c d : Char) : Option Nat := do
  return 4096 * (← hexDigit a) + 256 * (← hexDigit b) + 16 * (← hexDigit c) + (← hexDigit d)

/-- The character that an escape of one letter stands for. -/
def simpleEscape : Char → Option Char
  | '"' => some '"'
  | '\\' => some '\\'
  | '/' => some '/'
  | 'b' => some '\x08'
  | 'f' => some '\x0c'
  | 'n' => some '\n'
  | 'r' => some '\r'
  | 't' => some '\t'
  | _ => none

/-- The units up to the closing quote, and the rest behind it. `before` are those already read,
last first. -/
def stringUnits (before : List TextUnit) : List Char → Option (List TextUnit × List Char)
  | [] => none
  | '"' :: rest => some (before.reverse, rest)
  | '\\' :: 'u' :: a :: b :: c :: d :: rest =>
    match hexUnit a b c d with
    | some n => stringUnits (.unit n :: before) rest
    | none => none
  | '\\' :: e :: rest =>
    match simpleEscape e with
    | some c => stringUnits (.char c :: before) rest
    | none => none
  | c :: rest => if c.toNat < 0x20 ∨ c = '\\' then none else stringUnits (.char c :: before) rest

/-- The characters that the units stand for; a surrogate needs its other half right behind it. -/
def joinUnits : List TextUnit → Option (List Char)
  | [] => some []
  | .char c :: rest => (joinUnits rest).map (c :: ·)
  | .unit n :: .unit m :: rest =>
    if n < 0xD800 ∨ 0xDFFF < n then (joinUnits (.unit m :: rest)).map (Char.ofNat n :: ·)
    else if n < 0xDC00 ∧ 0xDC00 ≤ m ∧ m ≤ 0xDFFF then
      (joinUnits rest).map (Char.ofNat (0x10000 + 1024 * (n - 0xD800) + (m - 0xDC00)) :: ·)
    else none
  | .unit n :: rest =>
    if n < 0xD800 ∨ 0xDFFF < n then (joinUnits rest).map (Char.ofNat n :: ·) else none

/-! ### Tokens -/

/-- The rest of the text behind a word that stands at its front. -/
def afterWord (word : String) (l : List Char) : Option (List Char) :=
  if word.toList.isPrefixOf l then some (l.drop word.length) else none

/-- The token at the front of a text that begins with a character, and the rest. -/
def nextToken (c : Char) (rest : List Char) : Option (Token × List Char) :=
  match c with
  | '[' => some (.openArray, rest)
  | ']' => some (.closeArray, rest)
  | '\x7b' => some (.openObject, rest)
  | '\x7d' => some (.closeObject, rest)
  | ',' => some (.comma, rest)
  | ':' => some (.colon, rest)
  | 'n' => (afterWord "ull" rest).map (.null, ·)
  | 't' => (afterWord "rue" rest).map (.bool true, ·)
  | 'f' => (afterWord "alse" rest).map (.bool false, ·)
  | '"' => (stringUnits [] rest).map fun p => (.string ((joinUnits p.1).map String.ofList), p.2)
  | _ => (numeral (c :: rest)).map fun p => (.number p.1, p.2)

/-! ### What a token leaves of the text -/

theorem digits_append (l : List Char) : (digits l).1 ++ (digits l).2 = l := by
  induction l with
  | nil => rfl
  | cons c rest ih =>
    by_cases h : c.isDigit = true
    · simp [digits, h, ih]
    · simp [digits, h]

theorem length_someDigits_lt {l : List Char} {p : List Char × List Char}
    (h : someDigits l = some p) : p.2.length < l.length := by
  have happ := congrArg List.length (digits_append l)
  unfold someDigits at h
  split at h
  · simp at h
  · rename_i q hq
    cases h
    have : (digits l).1 ≠ [] := fun e => hq _ (Prod.ext e rfl)
    have := List.length_pos_iff.2 this
    simp only [List.length_append] at happ
    omega

theorem length_wholeDigits_lt {l : List Char} {p : List Char × List Char}
    (h : wholeDigits l = some p) : p.2.length < l.length := by
  unfold wholeDigits at h
  split at h
  · simp at h
  · exact length_someDigits_lt h

theorem length_fractionDigits_le {l : List Char} {p : Option (List Char) × List Char}
    (h : fractionDigits l = some p) : p.2.length ≤ l.length := by
  unfold fractionDigits at h
  split at h
  · obtain ⟨q, hq, rfl⟩ := Option.map_eq_some_iff.1 h
    have := length_someDigits_lt hq
    simp only [List.length_cons]; omega
  · cases h; exact Nat.le_refl _

theorem length_exponentSign_le (l : List Char) : (exponentSign l).2.length ≤ l.length := by
  unfold exponentSign
  split <;> simp

theorem length_exponentPart_le {l : List Char} {p : Option (Bool × List Char) × List Char}
    (h : exponentPart l = some p) : p.2.length ≤ l.length := by
  unfold exponentPart at h
  split at h
  · cases h; exact Nat.le_refl _
  · rename_i c rest
    split at h
    · obtain ⟨q, hq, rfl⟩ := Option.map_eq_some_iff.1 h
      have h1 := length_someDigits_lt hq
      have h2 := length_exponentSign_le rest
      simp only [List.length_cons]; omega
    · cases h; exact Nat.le_refl _

theorem length_unsignedNumeral_lt {negative : Bool} {l : List Char} {p : Numeral × List Char}
    (h : unsignedNumeral negative l = some p) : p.2.length < l.length := by
  simp only [unsignedNumeral, bind, Option.bind_eq_some_iff, pure] at h
  obtain ⟨whole, h1, fraction, h2, exponent, h3, h4⟩ := h
  cases h4
  have := length_wholeDigits_lt h1
  have := length_fractionDigits_le h2
  have := length_exponentPart_le h3
  simp only; omega

theorem length_stringUnits_le {before : List TextUnit} {l : List Char}
    {p : List TextUnit × List Char} (h : stringUnits before l = some p) :
    p.2.length ≤ l.length := by
  fun_induction stringUnits before l with
  | case1 => simp at h
  | case2 => cases h; simp
  | case3 _ _ _ _ _ _ _ _ ih => have := ih h; simp only [List.length_cons]; omega
  | case4 => simp at h
  | case5 _ _ _ _ _ _ ih => have := ih h; simp only [List.length_cons]; omega
  | case6 => simp at h
  | case7 => simp at h
  | case8 _ _ _ _ _ _ _ ih => have := ih h; simp only [List.length_cons]; omega

theorem length_afterWord_le {word : String} {l after : List Char}
    (h : afterWord word l = some after) : after.length ≤ l.length := by
  unfold afterWord at h
  split at h
  · cases h; simp
  · simp at h

theorem length_numeral_le {c : Char} {rest : List Char} {p : Numeral × List Char}
    (h : numeral (c :: rest) = some p) : p.2.length ≤ rest.length := by
  unfold numeral at h
  split at h
  · rename_i e
    cases e
    exact Nat.le_of_lt (length_unsignedNumeral_lt h)
  · have := length_unsignedNumeral_lt h
    simp only [List.length_cons] at this; omega

theorem length_nextToken_le {c : Char} {rest : List Char} {p : Token × List Char}
    (h : nextToken c rest = some p) : p.2.length ≤ rest.length := by
  unfold nextToken at h
  split at h
  all_goals first
    | (cases h; exact Nat.le_refl _)
    | (obtain ⟨q, hq, rfl⟩ := Option.map_eq_some_iff.1 h
       first
         | exact length_afterWord_le hq
         | exact length_stringUnits_le hq
         | exact length_numeral_le hq)

/-- The tokens of a text. -/
def tokens : List Char → List Token
  | [] => []
  | c :: rest =>
    if isSpace c then tokens rest
    else
      match _h : nextToken c rest with
      | some (token, after) => token :: tokens after
      | none => [.bad]
termination_by l => l.length
decreasing_by
  · simp
  · have := length_nextToken_le _h
    simp only [List.length_cons] at this ⊢; omega

end LazyClasses.Json
