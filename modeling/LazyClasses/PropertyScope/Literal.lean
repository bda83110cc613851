import LazyClasses.Text.Split
import LazyClasses.NaturalOrder
import LazyClasses.PropertyScope.Basic
/-! # Scope maps as array literals

A scope map is written as a PHP array literal, one line `key => [owner, name, writer],` for each
name, in natural order of the names. Texts stand in single quotes, NUL as `"\0"`; the text that
names the parent class is written `parent::class`.

* `quoted`: a text in single quotes.
* `keyLiteral`: a name, cut at its NUL characters; an empty piece is left out.
* `lines`: the elements, indented for the body of a class. -/

namespace LazyClasses.ScopeLiteral

/-- The characters of a text as they stand in single quotes: `\` and `'` escaped. -/
def escape (l : List Char) : List Char :=
  l.flatMap fun c => if c = '\\' ∨ c = '\'' then ['\\', c] else [c]

/-- The text in single quotes, or `parent::class` for the parent class. -/
def quoted (parent text : String) : String :=
  if text = parent then "parent::class"
  else "'" ++ String.ofList (escape text.toList) ++ "'"

/-- A segment as an operand of the concatenation; an empty one is left out. -/
def operands (parent : String) (segment : List Char) : List String :=
  if segment.isEmpty then [] else [quoted parent (String.ofList segment)]

/-- The operands of the concatenation that stands for a name: before each segment but the first
comes a NUL. -/
def keyOperands (parent : String) : List (List Char) → List String
  | [] => []
  | first :: segments =>
    operands parent first ++ segments.flatMap fun s => "\"\\0\"" :: operands parent s

/-- A name as an expression. -/
def keyLiteral (parent key : String) : String :=
  match keyOperands parent (Text.split (· == '\x00') key.toList) with
  | [] => "''"
  | parts => ".".intercalate parts

/-- A scope as a list of its three parts. -/
def scopeLiteral (parent : String) (scope : PropertyScope) : String :=
  "[" ++ quoted parent scope.owner ++ ", " ++ quoted parent scope.name ++ ", " ++
    (scope.writer.map (quoted parent)).getD "null" ++ "]"

/-- One element of the array literal. -/
def line (parent : String) (entry : String × PropertyScope) : String :=
  "        " ++ keyLiteral parent entry.1 ++ " => " ++ scopeLiteral parent entry.2 ++ ","

/-- The entries in natural order of their names. -/
def sorted (m : ScopeMap) : List (String × PropertyScope) :=
  m.entries.mergeSort fun a b => NaturalOrder.le a.1 b.1

/-- The elements of the array literal in order. -/
def lines (parent : String) (m : ScopeMap) : List String := (sorted m).map (line parent)

/-- **The array literal** for the scopes of a class, `parent` being the class that is extended. -/
def text (parent : String) (m : ScopeMap) : String :=
  if m.isEmpty then "[]"
  else "[\n" ++ String.join ((lines parent m).map (· ++ "\n")) ++ "    ]"

end LazyClasses.ScopeLiteral
