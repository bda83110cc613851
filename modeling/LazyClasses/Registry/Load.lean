import LazyClasses.Declaration.Json
import LazyClasses.Event
import LazyClasses.Registry.Basic
import LazyClasses.Registry.FileTree
/-! # Loading registries

Classes come from texts that hold a list of them. A path stands for one file, whatever it is
called, or for all files with the extension `json` below a directory: in each directory in the
order of their names, what is below a directory in its place.

* `Registry.ofText`: the registry that a text describes.
* `Source.ofListing`: the files that a path stands for, in order.
* `Registry.loadFile`: all classes of a file, or none of them if anything is wrong with it.
* `Registry.load`: file by file up to the first that is wrong; what came before it stays. -/

namespace LazyClasses

/-- Why classes cannot be loaded. -/
inductive LoadError where
  | unreadable (path : String) (fault : ReadFault)
  /-- What was read describes no classes. -/
  | invalid (origin : String) (error : DecodeError)
deriving DecidableEq, Repr

/-- The problem in words; for a text that is not well formed, none. -/
def LoadError.message? : LoadError → Option String
  | .unreadable _ (.unlisted reason) => some ("Failed to scan registry directory: " ++ reason)
  | .unreadable path fault => some ("Failed to read " ++ path ++ ": " ++ fault.reason)
  | .invalid origin error =>
    error.message?.map fun m => "Invalid class descriptors in " ++ origin ++ ": " ++ m

/-- The classes that a text describes. -/
def classesOf (origin text : String) : Except LoadError (List ClassDecl) :=
  (ClassDecl.listOfDocument? (Json.read text)).mapError (.invalid origin)

/-- The registry that a document describes. -/
def Registry.ofDocument (document : Json.Document) : Except LoadError Registry :=
  ((ClassDecl.listOfDocument? document).mapError (.invalid "<inline>")).map (insertAll ∅)

/-- **The registry that a text describes.** -/
def Registry.ofText (text : String) : Except LoadError Registry :=
  Registry.ofDocument (Json.read text)

/-! ### Files -/

/-- A file to load, or why it cannot be read. -/
structure Source where
  /-- The path as it is shown. -/
  path : String
  text : Except ReadFault String

/-- The text that bytes encode. -/
def decodeText (content : ByteArray) : Except ReadFault String :=
  match String.fromUTF8? content with
  | some text => .ok text
  | none => .error .notText

/-- Whether the extension of a file name, what stands behind its last dot but one at the very
front, is `json`. -/
def hasExtension (name : String) : Bool :=
  let l := name.toList
  ".json".toList.isSuffixOf l && 5 < l.length

/-- A path below a directory. -/
def joinPath (root : String) (names : List String) : String :=
  (if root.toList.getLast? = some '/' then root else root ++ "/") ++ "/".intercalate names

/-- The order of files: by the first name in which their paths differ. -/
def inOrder {α : Type} (a b : List String × α) : Bool := !decide (b.1 < a.1)

/-- **The files that a path stands for**, in order. For a directory that cannot be listed it is the
path itself, which cannot be read. -/
def Source.ofListing (path : String) : Listing → List Source
  | .file content => [⟨path, decodeText content⟩]
  | .absent fault => [⟨path, .error fault⟩]
  | .unlisted reason => [⟨path, .error (.unlisted reason)⟩]
  | .directory files =>
    ((files.filter fun f => f.1.getLast?.any hasExtension).mergeSort inOrder).map fun f =>
      ⟨joinPath path f.1, f.2.bind decodeText⟩

/-- The classes that a file describes. -/
def Source.classes (s : Source) : Except LoadError (List ClassDecl) :=
  match s.text with
  | .ok text => classesOf s.path text
  | .error fault => .error (.unreadable s.path fault)

/-- What came of loading. -/
structure LoadOutcome where
  registry : Registry
  /-- The files that were loaded, with the number of classes in each. -/
  loaded : List (String × Nat)
  /-- What ended the loading early. -/
  error : Option LoadError

/-- The number of classes that were read, repeated ones included. -/
def LoadOutcome.total (o : LoadOutcome) : Nat := o.loaded.foldl (fun n f => n + f.2) 0

def LoadOutcome.events (o : LoadOutcome) : List Event := o.loaded.map fun f => .loaded f.1 f.2

/-- Loads file by file, up to the first that is wrong. -/
def Registry.load (r : Registry) : List Source → LoadOutcome
  | [] => ⟨r, [], none⟩
  | s :: rest =>
    match s.classes with
    | .error e => ⟨r, [], some e⟩
    | .ok classes =>
      let outcome := (r.insertAll classes).load rest
      { outcome with loaded := (s.path, classes.length) :: outcome.loaded }

end LazyClasses
