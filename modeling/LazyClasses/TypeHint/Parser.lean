import LazyClasses.Text.Blank
import LazyClasses.Text.Split
import LazyClasses.ClassName
import LazyClasses.TypeHint.Basic
/-! # Reading type hints

`parse` reads PHP type syntax. A hint is `?` and a name, a name, two or more names joined by `&`,
or two or more branches joined by `|`; a branch is a name or a group of names joined by `&` in
parentheses. Blanks around a name, a branch or a member do not count, and neither does one leading
`\` of a name.

* `splitBars`: the branches, cut at the bars outside parentheses, or `none` if the parentheses do
  not balance.
* `collapseNull`: a union of `null` and one other name is that name made nullable. -/

namespace LazyClasses.TypeHint

/-- Why a text is no type hint. -/
inductive ParseFault where
  /-- There is nothing between the blanks. -/
  | emptyType
  /-- What follows `?` is no name. -/
  | badName
  /-- The parentheses do not balance. -/
  | unbalanced
  /-- The text has one branch, and that is no type. -/
  | badType
  /-- A branch of a union is neither a name nor a group of names. -/
  | badMember
deriving DecidableEq, Repr

/-- The fault in words. -/
def ParseFault.reason : ParseFault → String
  | .emptyType => "empty type"
  | .badName => "bad name"
  | .unbalanced => "unbalanced parentheses"
  | .badType => "bad type"
  | .badMember => "bad union member"

/-- A text that is no type hint, and why. -/
structure ParseError where
  input : String
  fault : ParseFault
deriving DecidableEq, Repr

/-- The message for a text that is no type hint. -/
def ParseError.message (e : ParseError) : String :=
  "Invalid type \"" ++ e.input ++ "\": " ++ e.fault.reason

/-! ### Names -/

/-- A character outside ASCII. -/
def isWide (c : Char) : Bool := 128 ≤ c.toNat

/-- A character that a name may begin with. -/
def isNameStart (c : Char) : Bool := c.isAlpha || c == '_' || isWide c

/-- A character that a name may hold. -/
def isNameChar (c : Char) : Bool := c.isAlphanum || c == '_' || c == '\\' || isWide c

/-- The name, if the characters are one: it begins with a letter and does not end with `\`. -/
def nameOf (l : List Char) : Option String :=
  if l.head?.any isNameStart && l.all isNameChar && l.getLast? != some '\\' then
    some (String.ofList l)
  else none

/-- The name between the blanks, without one leading `\`. -/
def parseName (l : List Char) : Option String := nameOf (ClassName.bareChars (Text.trimChars l))

/-! ### Cutting -/

/-- The pieces between the bars outside parentheses, `depth` of which are open at the start. -/
def splitBars (depth : Nat) : List Char → Option (List (List Char))
  | [] => if depth = 0 then some [[]] else none
  | c :: rest =>
    if c = '(' then (splitBars (depth + 1) rest).map (Text.pushFront c)
    else if c = ')' then
      if depth = 0 then none else (splitBars (depth - 1) rest).map (Text.pushFront c)
    else if c = '|' ∧ depth = 0 then (splitBars 0 rest).map ([] :: ·)
    else (splitBars depth rest).map (Text.pushFront c)

/-! ### Branches -/

/-- Two or more names joined by `&`. -/
def parseNames (l : List Char) : Option TypeHint :=
  match (Text.split (· == '&') l).mapM parseName with
  | some (a :: b :: names) => some (.intersection ((a :: b :: names).map (.named · false)))
  | _ => none

/-- What stands between the parentheses that open and close the text, if it has both. -/
def groupOf : List Char → Option (List Char)
  | '(' :: rest => if rest.getLast? = some ')' then some rest.dropLast else none
  | _ => none

def parseLeaf (l : List Char) : Option TypeHint := (parseName l).map (.named · false)

/-- A branch of a union: a name, or a group of names in parentheses. -/
def parseBranch (l : List Char) : Option TypeHint :=
  let l := Text.trimChars l
  match groupOf l with
  | some inner => parseNames inner
  | none => if '&' ∈ l then none else parseLeaf l

/-- A text with one branch: a name, or names joined by `&` without parentheses. -/
def parseSingle (l : List Char) : Option TypeHint :=
  let l := Text.trimChars l
  match groupOf l with
  | some _ => none
  | none => if '&' ∈ l then parseNames l else parseLeaf l

/-- Whether the hint is the plain name `null`. -/
def isNull : TypeHint → Bool
  | .named name _ => Text.same name "null"
  | _ => false

/-- The nullable hint for a name that stands beside `null`, unless it is `mixed`. -/
def nullableOf : TypeHint → Option TypeHint
  | .named name _ => if Text.same name "mixed" then none else some (.named name true)
  | _ => none

/-- The hint for the branches of a union: `null` and one other name are that name made nullable. -/
def collapseNull : List TypeHint → TypeHint
  | [a, b] =>
    if isNull a then (nullableOf b).getD (.union [a, b])
    else if isNull b then (nullableOf a).getD (.union [a, b])
    else .union [a, b]
  | members => .union members

/-- The hint that the characters between the outer blanks stand for. -/
def parseTrimmed : List Char → Except ParseFault TypeHint
  | [] => .error .emptyType
  | '?' :: rest =>
    match parseName rest with
    | some name => .ok (.named name true)
    | none => .error .badName
  | l =>
    match splitBars 0 l with
    | none => .error .unbalanced
    | some (first :: second :: more) =>
      match (first :: second :: more).mapM parseBranch with
      | some members => .ok (collapseNull members)
      | none => .error .badMember
    | some _ =>
      match parseSingle l with
      | some hint => .ok hint
      | none => .error .badType

/-- **Reads a type hint.** -/
def parse (s : String) : Except ParseError TypeHint :=
  (parseTrimmed (Text.trimChars s.toList)).mapError (⟨s, ·⟩)

end LazyClasses.TypeHint
