import LazyClasses.Json.Basic
/-! # Writing JSON

`Json.text` writes a value on one line without blanks. What is broken is written as far as it
goes. -/

namespace LazyClasses.Json

def hexChar (n : Nat) : Char := (Nat.digitChar n)

/-- A character as it stands in a string. -/
def escapeChar (c : Char) : List Char :=
  if c = '"' then ['\\', '"']
  else if c = '\\' then ['\\', '\\']
  else if c.toNat < 0x20 then
    ['\\', 'u', '0', '0', hexChar (c.toNat / 16), hexChar (c.toNat % 16)]
  else [c]

/-- A text as a string. -/
def quote (s : String) : String := "\"" ++ String.ofList (s.toList.flatMap escapeChar) ++ "\""

/-- A string, or nothing if it stands for nothing. -/
def quoteOption (s : Option String) : String := (s.map quote).getD ""

mutual

/-- **The value on one line.** -/
def text : Json → String
  | .null => "null"
  | .bool b => if b then "true" else "false"
  | .number n => n.text
  | .string s => quoteOption s
  | .array items ending =>
    "[" ++ ",".intercalate (itemTexts items) ++ (if ending = .closed then "]" else "")
  | .object fields ending =>
    "\x7b" ++ ",".intercalate (fieldTexts fields) ++ (if ending = .closed then "\x7d" else "")
  | .broken => ""

/-- The values one by one. -/
def itemTexts : List Json → List String
  | [] => []
  | item :: items => text item :: itemTexts items

/-- The named values one by one. -/
def fieldTexts : List (Option String × Json) → List String
  | [] => []
  | (key, value) :: fields => (quoteOption key ++ ":" ++ text value) :: fieldTexts fields

end

end LazyClasses.Json
