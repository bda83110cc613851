import LazyClasses.Declaration
import LazyClasses.Json.Decoder
import LazyClasses.TypeHint.Printer
/-! # Declarations in JSON

Each kind of declaration is a record whose parts may all be missing. Type hints are written in PHP
syntax, visibilities and kinds by their keywords.

* `ClassDecl.ofJson?`, `Method.ofJson?`, `FunctionDecl.ofJson?` read one declaration.
* `ClassDecl.listOfDocument?` reads a text that holds a list of classes.
* `toJson` writes every part, absent ones as `null`. -/

namespace LazyClasses

open Json

/-- A visibility, by its keyword. -/
def Visibility.ofJson? : Json → Except DecodeError Visibility := decodeWord keyword all

/-- A kind, by its keyword. -/
def ClassKind.ofJson? : Json → Except DecodeError ClassKind := decodeWord keyword all

/-- The parts of a parameter. -/
def Parameter.slots : List (Slot Parameter) := [
  slot "name" decodeString fun p v => { p with name := v },
  slot "type" (decodeOption decodeHint) fun p v => { p with hint := v },
  slot "default" (decodeOption decodeString) fun p v => { p with default := v },
  slot "is_variadic" decodeBool fun p v => { p with isVariadic := v },
  slot "by_ref" decodeBool fun p v => { p with byRef := v },
  slot "is_sensitive" decodeBool fun p v => { p with isSensitive := v }]

def Parameter.ofJson? : Json → Except DecodeError Parameter :=
  decodeRecord "ParameterDescriptor" slots {}

/-- The parts of a method. -/
def Method.slots : List (Slot Method) := [
  slot "name" decodeString fun m v => { m with name := v },
  slot "visibility" Visibility.ofJson? fun m v => { m with visibility := v },
  slot "is_static" decodeBool fun m v => { m with isStatic := v },
  slot "is_abstract" decodeBool fun m v => { m with isAbstract := v },
  slot "is_final" decodeBool fun m v => { m with isFinal := v },
  slot "returns_reference" decodeBool fun m v => { m with returnsRef := v },
  slot "declaring_class" decodeString fun m v => { m with declaringClass := v },
  slot "parameters" (decodeList Parameter.ofJson?) fun m v => { m with parameters := v },
  slot "return_type" (decodeOption decodeHint) fun m v => { m with returnType := v },
  slot "tentative_return_type" decodeBool fun m v => { m with isTentative := v }]

def Method.ofJson? : Json → Except DecodeError Method := decodeRecord "MethodDescriptor" slots {}

/-- The parts of a function. -/
def FunctionDecl.slots : List (Slot FunctionDecl) := [
  slot "name" decodeString fun f v => { f with name := v },
  slot "parameters" (decodeList Parameter.ofJson?) fun f v => { f with parameters := v },
  slot "return_type" (decodeOption decodeHint) fun f v => { f with returnType := v },
  slot "returns_reference" decodeBool fun f v => { f with returnsRef := v },
  slot "tentative_return_type" decodeBool fun f v => { f with isTentative := v },
  slot "is_closure" decodeBool fun f v => { f with isClosure := v }]

def FunctionDecl.ofJson? : Json → Except DecodeError FunctionDecl :=
  decodeRecord "FunctionDescriptor" slots {}

/-- The parts of a property. -/
def Property.slots : List (Slot Property) := [
  slot "name" decodeString fun p v => { p with name := v },
  slot "visibility" Visibility.ofJson? fun p v => { p with visibility := v },
  slot "is_static" decodeBool fun p v => { p with isStatic := v },
  slot "is_readonly" decodeBool fun p v => { p with isReadonly := v },
  slot "type" (decodeOption decodeHint) fun p v => { p with hint := v },
  slot "default" (decodeOption decodeString) fun p v => { p with default := v }]

def Property.ofJson? : Json → Except DecodeError Property :=
  decodeRecord "PropertyDescriptor" slots {}

/-- The parts of a class. -/
def ClassDecl.slots : List (Slot ClassDecl) := [
  slot "name" decodeString fun c v => { c with name := v },
  slot "kind" ClassKind.ofJson? fun c v => { c with kind := v },
  slot "is_final" decodeBool fun c v => { c with isFinal := v },
  slot "is_abstract" decodeBool fun c v => { c with isAbstract := v },
  slot "is_internal" decodeBool fun c v => { c with isInternal := v },
  slot "is_readonly" decodeBool fun c v => { c with isReadonly := v },
  slot "parent" (decodeOption decodeString) fun c v => { c with parent := v },
  slot "interfaces" (decodeList decodeString) fun c v => { c with interfaces := v },
  slot "methods" (decodeList Method.ofJson?) fun c v => { c with methods := v },
  slot "properties" (decodeList Property.ofJson?) fun c v => { c with properties := v }]

def ClassDecl.ofJson? : Json → Except DecodeError ClassDecl :=
  decodeRecord "ClassDescriptor" slots {}

/-- The classes that a text holds. -/
def ClassDecl.listOfDocument? (document : Document) : Except DecodeError (List ClassDecl) := do
  let classes ← decodeList ClassDecl.ofJson? document.value
  checkEnding document.ending
  return classes

/-! ### Writing -/

/-- A type hint, or `null` for none. -/
def hintToJson (hint : Option TypeHint) : Json := ofOption (hint.map fun h => ofString h.text)

/-- A text, or `null` for none. -/
def textToJson (s : Option String) : Json := ofOption (s.map ofString)

/-- Every part of a parameter. -/
def Parameter.toJson (p : Parameter) : Json := ofFields [
  ("name", ofString p.name), ("type", hintToJson p.hint), ("default", textToJson p.default),
  ("is_variadic", .bool p.isVariadic), ("by_ref", .bool p.byRef),
  ("is_sensitive", .bool p.isSensitive)]

/-- Every part of a method. -/
def Method.toJson (m : Method) : Json := ofFields [
  ("name", ofString m.name), ("visibility", ofString m.visibility.keyword),
  ("is_static", .bool m.isStatic), ("is_abstract", .bool m.isAbstract),
  ("is_final", .bool m.isFinal), ("returns_reference", .bool m.returnsRef),
  ("declaring_class", ofString m.declaringClass),
  ("parameters", ofList (m.parameters.map Parameter.toJson)),
  ("return_type", hintToJson m.returnType), ("tentative_return_type", .bool m.isTentative)]

/-- Every part of a function. -/
def FunctionDecl.toJson (f : FunctionDecl) : Json := ofFields [
  ("name", ofString f.name), ("parameters", ofList (f.parameters.map Parameter.toJson)),
  ("return_type", hintToJson f.returnType), ("returns_reference", .bool f.returnsRef),
  ("tentative_return_type", .bool f.isTentative), ("is_closure", .bool f.isClosure)]

/-- Every part of a property. -/
def Property.toJson (p : Property) : Json := ofFields [
  ("name", ofString p.name), ("visibility", ofString p.visibility.keyword),
  ("is_static", .bool p.isStatic), ("is_readonly", .bool p.isReadonly),
  ("type", hintToJson p.hint), ("default", textToJson p.default)]

/-- Every part of a class. -/
def ClassDecl.toJson (c : ClassDecl) : Json := ofFields [
  ("name", ofString c.name), ("kind", ofString c.kind.keyword), ("is_final", .bool c.isFinal),
  ("is_abstract", .bool c.isAbstract), ("is_internal", .bool c.isInternal),
  ("is_readonly", .bool c.isReadonly), ("parent", textToJson c.parent),
  ("interfaces", ofList (c.interfaces.map ofString)),
  ("methods", ofList (c.methods.map Method.toJson)),
  ("properties", ofList (c.properties.map Property.toJson))]

end LazyClasses
