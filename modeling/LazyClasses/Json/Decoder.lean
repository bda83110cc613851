import LazyClasses.Json.Reader
import LazyClasses.Text.Quoted
import LazyClasses.TypeHint.Parser
/-! # Decoding JSON

A decoder reads a JSON value as a value of the program, or reports the first problem in the order
of the text: a broken value is a problem when the decoder gets to it, and not before.

* `decodeString`, `decodeBool`, `decodeList`, `decodeOption`: values.
* `Slot`: a named part of a record and how it is read.
* `decodeRecord`: a record is an object with its parts in any order, or an array with its parts in
  the order of their slots. A part that is missing keeps its default. Names without a slot do not
  count. -/

namespace LazyClasses

/-- Why a value cannot be decoded. -/
inductive DecodeError where
  | malformed
  /-- A value of another kind is there than is expected. -/
  | mismatch (found expected : String)
  /-- A word is none of those that are known. -/
  | unknownVariant (word : String) (known : List String)
  /-- A part of a record comes twice. -/
  | duplicateField (name : String)
  /-- A text is no type hint. -/
  | badType (error : TypeHint.ParseError)
deriving DecidableEq, Repr

def backquoted (word : String) : String := "\x60" ++ word ++ "\x60"

/-- The problem in words; for a malformed text, none. -/
def DecodeError.message? : DecodeError → Option String
  | .malformed => none
  | .mismatch found expected => some ("invalid type: " ++ found ++ ", expected " ++ expected)
  | .unknownVariant word known =>
    some ("unknown variant " ++ backquoted word ++ ", expected one of " ++
      ", ".intercalate (known.map backquoted))
  | .duplicateField name => some ("duplicate field " ++ backquoted name)
  | .badType error => some error.message

namespace Json

/-- What a value is called where another one is expected; `none` if it cannot be read. -/
def called : Json → Option String
  | .null => some "null"
  | .bool b => some ("boolean " ++ backquoted (if b then "true" else "false"))
  | .number n =>
    n.quantity?.map fun
      | .integer i => "integer " ++ backquoted (Quantity.integer i).text
      | .floating negative x => "floating point " ++ backquoted (Quantity.floating negative x).text
  | .string s => s.map fun s => "string " ++ Text.quoted s
  | .array _ _ => some "sequence"
  | .object _ _ => some "map"
  | .broken => none

/-- The problem of a value that is not what is expected. -/
def mismatch (expected : String) (j : Json) : DecodeError :=
  match j.called with
  | some found => .mismatch found expected
  | none => .malformed

/-! ### Values -/

def decodeString : Json → Except DecodeError String
  | .string (some s) => .ok s
  | j => .error (j.mismatch "a string")

def decodeBool : Json → Except DecodeError Bool
  | .bool b => .ok b
  | j => .error (j.mismatch "a boolean")

/-- A value, or `null` for none. -/
def decodeOption {α : Type} (decode : Json → Except DecodeError α) :
    Json → Except DecodeError (Option α)
  | .null => .ok none
  | j => (decode j).map some

/-- The end of a list or a record. -/
def checkEnding : Ending → Except DecodeError Unit
  | .closed => .ok ()
  | .broken => .error .malformed

def decodeList {α : Type} (decode : Json → Except DecodeError α) :
    Json → Except DecodeError (List α)
  | .array items ending => do
    let values ← items.mapM decode
    checkEnding ending
    return values
  | j => .error (j.mismatch "a sequence")

/-- One of the values, by its word. -/
def decodeWord {α : Type} (word : α → String) (known : List α) : Json → Except DecodeError α
  | .string (some s) =>
    match known.find? fun a => word a == s with
    | some a => .ok a
    | none => .error (.unknownVariant s (known.map word))
  | _ => .error .malformed

/-- A type hint, written as a text. -/
def decodeHint (j : Json) : Except DecodeError TypeHint := do
  (TypeHint.parse (← decodeString j)).mapError .badType

/-! ### Records -/

/-- A named part of a record, and how a value is put into its place. -/
structure Slot (α : Type) where
  name : String
  /-- The record with the part that the value stands for. -/
  put : Json → α → Except DecodeError α

/-- The slot of a part that is read by `decode` and put into its place by `set`. -/
def slot {α β : Type} (name : String) (decode : Json → Except DecodeError β)
    (set : α → β → α) : Slot α :=
  ⟨name, fun j record => (decode j).map (set record)⟩

/-- Puts named values into their places; `seen` are the names that have come already. -/
def putFields {α : Type} (slots : List (Slot α)) (seen : List String) (record : α) :
    List (Option String × Json) → Except DecodeError α
  | [] => .ok record
  | (none, _) :: _ => .error .malformed
  | (some key, value) :: fields =>
    match slots.find? fun s => s.name == key with
    | none => if value.isWhole then putFields slots seen record fields else .error .malformed
    | some s =>
      if key ∈ seen then .error (.duplicateField key)
      else
        match s.put value record with
        | .ok record => putFields slots (key :: seen) record fields
        | .error e => .error e

/-- Puts values into the places in order; there may be fewer values than places, not more. -/
def putItems {α : Type} (record : α) : List (Slot α) → List Json → Except DecodeError α
  | _, [] => .ok record
  | [], _ :: _ => .error .malformed
  | s :: slots, value :: values =>
    match s.put value record with
    | .ok record => putItems record slots values
    | .error e => .error e

/-- **A record** of the given slots, `default` being the record whose parts are all missing. -/
def decodeRecord {α : Type} (called : String) (slots : List (Slot α)) (default : α) :
    Json → Except DecodeError α
  | .object fields ending => do
    let record ← putFields slots [] default fields
    checkEnding ending
    return record
  | .array items ending => do
    let record ← putItems default slots items
    checkEnding ending
    return record
  | j => .error (j.mismatch ("struct " ++ called))

end Json

end LazyClasses
