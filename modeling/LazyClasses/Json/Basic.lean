import LazyClasses.Json.Numeral
/-! # JSON values

A JSON value as far as a text gives one. A text may break off or go wrong at any place; what was
written before that place is kept, and the place itself is marked, so that a reader of values
meets it exactly when it gets there.

* `Json.broken` stands where no value could be read.
* A string without a text is one whose escapes name half a surrogate pair: well formed, but
  standing for nothing.
* `Ending.broken` ends an array or an object that goes wrong behind its last part.
* `Json.isWhole`: nothing in the value is broken. -/

namespace LazyClasses

/-- How an array or an object ends. -/
inductive Ending where
  | closed
  /-- With something that does not belong there, or with the text. -/
  | broken
deriving DecidableEq, Repr

inductive Json where
  | null
  | bool (value : Bool)
  | number (numeral : Numeral)
  /-- A string; without a text it stands for nothing. -/
  | string (text : Option String)
  | array (items : List Json) (ending : Ending)
  /-- Named values in their order; a name without a text stands for nothing. -/
  | object (fields : List (Option String × Json)) (ending : Ending)
  /-- No value at all. -/
  | broken
deriving Repr, Inhabited

namespace Json

mutual

/-- Whether nothing in the value is broken. Strings that stand for nothing are whole. -/
def isWhole : Json → Bool
  | .array items ending => ending = .closed && areWhole items
  | .object fields ending => ending = .closed && fieldsAreWhole fields
  | .broken => false
  | _ => true

/-- Whether nothing in the values is broken. -/
def areWhole : List Json → Bool
  | [] => true
  | item :: items => isWhole item && areWhole items

/-- Whether nothing in the named values is broken. -/
def fieldsAreWhole : List (Option String × Json) → Bool
  | [] => true
  | (_, value) :: fields => isWhole value && fieldsAreWhole fields

end

def ofString (s : String) : Json := .string (some s)

def ofInt (n : Int) : Json := .number (.ofInt n)

def ofList (items : List Json) : Json := .array items .closed

def ofFields (fields : List (String × Json)) : Json :=
  .object (fields.map fun f => (some f.1, f.2)) .closed

/-- The value, or `null` for none. -/
def ofOption (value : Option Json) : Json := value.getD .null

end Json

end LazyClasses
