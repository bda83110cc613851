import LazyClasses.Command.Log
import LazyClasses.Command.Run
import LazyClasses.Json.Printer
/-! # The command line

Generates lazy ghosts and lazy proxies from class descriptions. Only what touches the surroundings
is here: files are read, the answer and the log are written. -/

namespace LazyClasses.Command

/-- Why a file cannot be read. -/
def faultOf : IO.Error → ReadFault
  | .noFileOrDirectory .. => .notFound
  | e => .other (toString e)

/-- The content of a file, or why it cannot be read. -/
def readFile (path : String) : IO (Except ReadFault ByteArray) := do
  try
    return .ok (← IO.FS.readBinFile path)
  catch e =>
    return .error (faultOf e)

/-- The files below a directory, under the names that lead there. -/
partial def filesBelow (path : String) (names : List String) :
    IO (List (List String × Except ReadFault ByteArray)) := do
  let mut files := []
  for entry in ← ((← IO.currentDir) / path).readDir do
    let below := path ++ "/" ++ entry.fileName
    let names := names ++ [entry.fileName]
    if ← entry.path.isDir then
      files := files ++ (← filesBelow below names)
    else
      files := files ++ [(names, ← readFile below)]
  return files

/-- What a path leads to. -/
def lookAt (path : String) : IO Listing := do
  try
    if ← ((← IO.currentDir) / path).isDir then
      try
        return .directory (← filesBelow path [])
      catch e =>
        return .unlisted (toString e)
    else
      match ← readFile path with
      | .ok content => return .file content
      | .error fault => return .absent fault
  catch e =>
    return .absent (faultOf e)

/-- The variables that set up the log. -/
def readEnvironment : IO Environment := do
  let mut env := []
  for name in [levelVariable, fallbackLevelVariable, formatVariable] do
    if let some value ← IO.getEnv name then env := env ++ [(name, value)]
  return env

/-- One line of the log. -/
def logLine (json : Bool) (e : Event) : String :=
  if json then
    (Json.ofFields [("level", .ofString e.level.name), ("fields", .ofFields e.fields)]).text
  else
    e.level.name ++ " " ++ e.message ++
      String.join (e.fields.tail.map fun f => " " ++ f.1 ++ "=" ++ f.2.text)

/-- How the program is used. -/
def usage : String :=
  "Usage: -r REGISTRY [--namespace NS] [--no-readonly] ghost CLASS [-n NAME]\n" ++
  "       -r REGISTRY [...] proxy [-c CLASS] [-i INTERFACE]... [-n NAME]\n" ++
  "       -r REGISTRY [...] signature CLASS METHOD [--no-types]\n"

end LazyClasses.Command

open LazyClasses.Command in
/-- Runs the program: the paths among the arguments are looked at first. -/
def main (args : List String) : IO UInt32 := do
  let paths := match Invocation.parse args with
    | .ok i => i.registries
    | .error _ => []
  let listings ← paths.mapM fun path => return (path, ← lookAt path)
  let outcome := run (fun path => (listings.lookup path).getD (.absent .notFound)) args
  let env ← readEnvironment
  for e in env.shown outcome.events do
    IO.eprintln (logLine env.wantsJson e)
  match outcome.conclusion with
  | .printed text => IO.print text
  | .failed failure => IO.eprintln ("Error: " ++ failure.message)
  | .stopped .help => IO.print usage
  | .stopped .misuse => IO.eprint usage
  return outcome.conclusion.exitCode.toUInt32
