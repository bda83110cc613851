import LazyClasses.Json.Token
/-! # Reading JSON

`Json.read` takes a text from left to right, token by token, and never gives up: at the first
token that does not belong where it stands, everything that is open is ended as broken.

The reader holds the arrays and objects that are open around the place it has come to (`Frame`)
and what may stand there (`Place`). One token leads from one place to the next (`step`), and
`abandon` is the value of a text that goes wrong at a place. -/

namespace LazyClasses.Json

/-- A named value. -/
abbrev Field := Option String × Json

/-- An array or an object around a value that is still to come; its parts so far are last first. -/
inductive Frame where
  | items (before : List Json)
  /-- An object, and the name of the value to come. -/
  | fields (before : List Field) (key : Option String)

/-- What may stand at a place. -/
inductive Place where
  | value
  /-- The first value of an array, or its end. -/
  | firstItem
  /-- The comma or the end behind values of an array. -/
  | afterItems (items : List Json)
  /-- The first name of an object, or its end. -/
  | firstKey
  /-- A name of an object behind a comma. -/
  | nextKey (fields : List Field)
  /-- The colon behind a name. -/
  | colon (fields : List Field) (key : Option String)
  /-- The comma or the end behind values of an object. -/
  | afterFields (fields : List Field)

/-- What a token leads to. -/
inductive Step where
  /-- Another place. -/
  | goOn (frames : List Frame) (place : Place)
  /-- The end of the outermost value. -/
  | finish (value : Json)
  /-- Nowhere: it does not belong here. -/
  | stop

/-- What follows a value inside the open frames. -/
def settle (value : Json) : List Frame → Step
  | [] => .finish value
  | .items before :: frames => .goOn frames (.afterItems (value :: before))
  | .fields before key :: frames => .goOn frames (.afterFields ((key, value) :: before))

/-- What a token leads to where a value may stand. -/
def beginValue (frames : List Frame) : Token → Step
  | .null => settle .null frames
  | .bool b => settle (.bool b) frames
  | .number n => settle (.number n) frames
  | .string s => settle (.string s) frames
  | .openArray => .goOn frames .firstItem
  | .openObject => .goOn frames .firstKey
  | _ => .stop

/-- What a token leads to. -/
def step (frames : List Frame) (place : Place) (token : Token) : Step :=
  match place, token with
  | .value, token => beginValue frames token
  | .firstItem, .closeArray => settle (.array [] .closed) frames
  | .firstItem, token => beginValue (.items [] :: frames) token
  | .afterItems items, .closeArray => settle (.array items.reverse .closed) frames
  | .afterItems items, .comma => .goOn (.items items :: frames) .value
  | .firstKey, .closeObject => settle (.object [] .closed) frames
  | .firstKey, .string key => .goOn frames (.colon [] key)
  | .nextKey fields, .string key => .goOn frames (.colon fields key)
  | .colon fields key, .colon => .goOn (.fields fields key :: frames) .value
  | .afterFields fields, .closeObject => settle (.object fields.reverse .closed) frames
  | .afterFields fields, .comma => .goOn frames (.nextKey fields)
  | _, _ => .stop

/-- The value at a place where the text goes wrong. -/
def brokenAt : Place → Json
  | .value => .broken
  | .firstItem => .array [] .broken
  | .afterItems items => .array items.reverse .broken
  | .firstKey => .object [] .broken
  | .nextKey fields => .object fields.reverse .broken
  | .colon fields key => .object ((key, .broken) :: fields).reverse .broken
  | .afterFields fields => .object fields.reverse .broken

/-- The outermost value, all frames being broken behind the innermost. -/
def unwind (value : Json) : List Frame → Json
  | [] => value
  | .items before :: frames => unwind (.array (value :: before).reverse .broken) frames
  | .fields before key :: frames =>
    unwind (.object ((key, value) :: before).reverse .broken) frames

/-- What a text holds: a value, and whether nothing but blanks follows it. -/
structure Document where
  value : Json
  /-- Whether the text ends behind it. -/
  ending : Ending
deriving Repr

/-- Reads on from a place. -/
def readTokens (frames : List Frame) (place : Place) : List Token → Document
  | [] => ⟨unwind (brokenAt place) frames, .broken⟩
  | token :: rest =>
    match step frames place token with
    | .goOn frames place => readTokens frames place rest
    | .finish value => ⟨value, if rest.isEmpty then .closed else .broken⟩
    | .stop => ⟨unwind (brokenAt place) frames, .broken⟩

/-- **Reads a text.** -/
def read (text : String) : Document := readTokens [] .value (tokens text.toList)

end LazyClasses.Json
