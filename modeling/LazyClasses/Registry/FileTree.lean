/-! # File trees

A file tree is a root directory with the files and directories below it, each under the names that
lead to it. `FileTree.look` follows a path as a file system does: empty names and `.` stay, `..`
goes up, and nothing but a directory has anything below it. -/

namespace LazyClasses

/-- Why a file cannot be read. -/
inductive ReadFault where
  | notFound
  /-- A file is where the path goes on. -/
  | notDirectory
  | notText
  /-- The path holds a NUL, which no name does. -/
  | badName
  /-- The path leads to a directory of which some part cannot be listed, for the reason given. -/
  | unlisted (reason : String)
  /-- Any other fault, in words. -/
  | other (reason : String)
deriving DecidableEq, Repr

/-- The fault in words. -/
def ReadFault.reason : ReadFault → String
  | .notFound => "No such file or directory (os error 2)"
  | .notDirectory => "Not a directory (os error 20)"
  | .notText => "stream did not contain valid UTF-8"
  | .badName => "file name contained an unexpected NUL byte"
  | .unlisted reason => reason
  | .other reason => reason

/-- What a path leads to. -/
inductive Listing where
  | file (content : ByteArray)
  /-- A directory, with the files at any depth below it, or why they cannot be read, under the
  names that lead to them. -/
  | directory (files : List (List String × Except ReadFault ByteArray))
  /-- A directory that cannot be listed as a whole, and why. -/
  | unlisted (reason : String)
  /-- Nothing that could be read. -/
  | absent (fault : ReadFault)

/-- The files and directories below a root. -/
structure FileTree where
  /-- The content of each file, none for a directory, under the names that lead to it. -/
  entries : List (List String × Option ByteArray)

namespace FileTree

def empty : FileTree := ⟨[]⟩

instance : EmptyCollection FileTree := ⟨empty⟩

/-- Puts a file, or for no content a directory, into the place that the names lead to. -/
def put (t : FileTree) (names : List String) (content : Option ByteArray) : FileTree :=
  ⟨t.entries.filter (fun e => e.1 ≠ names || e.2.isNone) ++ [(names, content)]⟩

/-- The file that the names lead to. -/
def file? (t : FileTree) (names : List String) : Option ByteArray :=
  t.entries.findSome? fun e => if e.1 = names then e.2 else none

/-- Whether the names lead to a directory: to the root, one that was put there, or one on the way
to something. -/
def isDirectory (t : FileTree) (names : List String) : Bool :=
  names.isEmpty || t.entries.any fun e =>
    (e.1 == names && e.2.isNone) || (names.isPrefixOf e.1 && names.length < e.1.length)

/-- The files below a directory, under the names that lead there from it. -/
def filesBelow (t : FileTree) (names : List String) :
    List (List String × Except ReadFault ByteArray) :=
  t.entries.filterMap fun e =>
    if names.isPrefixOf e.1 && names.length < e.1.length then
      e.2.map fun content => (e.1.drop names.length, .ok content)
    else none

/-- The place to which further names lead from a place. -/
def walk (t : FileTree) (here : List String) : List String → Except ReadFault (List String)
  | [] => .ok here
  | name :: rest =>
    if t.isDirectory here then
      if name = "" ∨ name = "." then walk t here rest
      else if name = ".." then walk t here.dropLast rest
      else walk t (here ++ [name]) rest
    else if (t.file? here).isSome then .error .notDirectory
    else .error .notFound

/-- **What a path leads to**, the path being cut into names. -/
def look (t : FileTree) (names : List String) : Listing :=
  if names.any fun name => name.toList.contains '\x00' then .absent .badName
  else
    match t.walk [] names with
    | .error fault => .absent fault
    | .ok here =>
      if t.isDirectory here then .directory (t.filesBelow here)
      else
        match t.file? here with
        | some content => .file content
        | none => .absent .notFound

end FileTree

end LazyClasses
