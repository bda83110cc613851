/-! # Command-line arguments

A command line is words and options. An option is spelt out behind `--` or is one letter behind
`-`; its value follows it, or stands behind it after `=`, and behind a letter also without. A value
that follows does not itself look like an option. Behind a lone `--` everything is a word.

A command line is understood from left to right: a request for help counts if all before it is in
order. An item is put in order when the next one begins, so the last option before the task may
wait for the task.

* `readItems`: the items of a command line; a leading part ends before its first word.
* `inOrder`: whether items are as many as there may be, and have values where they need them.
* `Invocation.parse`: what the program is asked to do. -/

namespace LazyClasses.Command

/-- How an option is used. -/
inductive Use where
  /-- Without a value, at most once. -/
  | flag
  /-- With a value, at most once. -/
  | once
  /-- With a value, any number of times. -/
  | often
deriving DecidableEq, Repr

structure OptionSpec where
  /-- Its name behind `--`. -/
  long : String
  /-- Its letter behind `-`. -/
  short : Option Char
  use : Use
  /-- Whether its value may be the empty text. -/
  allowsEmpty : Bool := true
deriving DecidableEq, Repr

/-- An item of a command line. -/
inductive Item where
  | word (text : String)
  /-- An option without a value. -/
  | flag (name : String)
  /-- An option with its value; `apart` says that the value is an argument of its own. -/
  | setting (name value : String) (apart : Bool)
deriving DecidableEq, Repr

/-- Why a command line asks for nothing. -/
inductive Stop where
  | help
  | misuse
deriving DecidableEq, Repr

/-! ### Items -/

/-- What one argument is. -/
inductive ArgumentKind where
  | item (item : Item)
  /-- An option whose value is still to come. -/
  | awaiting (name : String)
  /-- Nothing that can be used. -/
  | stop (why : Stop)
deriving DecidableEq, Repr

/-- Whether an argument cannot be the value of the option before it. -/
def looksLikeOption (arg : String) : Bool :=
  match arg.toList with
  | '-' :: _ :: _ => true
  | _ => false

/-- An option with the value that stands behind it in the same argument, if any does. -/
def useOption (spec : OptionSpec) (value : Option (List Char)) : ArgumentKind :=
  match spec.use, value with
  | .flag, none => .item (.flag spec.long)
  | .flag, some _ => .stop .misuse
  | _, some v => .item (.setting spec.long (String.ofList v) false)
  | _, none => .awaiting spec.long

/-- The text before the first `=`, and what stands behind it if there is one. -/
def splitAtEquals : List Char → List Char × Option (List Char)
  | [] => ([], none)
  | c :: rest =>
    if c = '=' then ([], some rest)
    else
      let p := splitAtEquals rest
      (c :: p.1, p.2)

/-- What one argument is, no option before it being open. -/
def classify (specs : List OptionSpec) (arg : String) : ArgumentKind :=
  match arg.toList with
  | '-' :: '-' :: body =>
    let p := splitAtEquals body
    if p = ("help".toList, none) then .stop .help
    else
      match specs.find? fun s => s.long.toList == p.1 with
      | some spec => useOption spec p.2
      | none => .stop .misuse
  | '-' :: letter :: body =>
    if letter = 'h' then .stop .help
    else
      match specs.find? fun s => s.short == some letter with
      | some spec =>
        match body with
        | [] => useOption spec none
        | '=' :: value => useOption spec (some value)
        | value => useOption spec (some value)
      | none => .stop .misuse
  | _ => .item (.word arg)

/-- What the reading of a command line comes to. -/
structure Reading where
  items : List Item
  rest : List String
  /-- Why the reading ended before the command line. -/
  stop : Option Stop
deriving DecidableEq, Repr

/-- A reading with one more item in front. -/
def Reading.cons (item : Item) (r : Reading) : Reading := { r with items := item :: r.items }

/-- The items of a command line; if it `leads`, what is left begins with its first word.
`pending` is an option whose value is still to come. -/
def readItems (specs : List OptionSpec) (leads : Bool) (pending : Option String) :
    List String → Reading
  | [] => ⟨[], [], if pending.isSome then some .misuse else none⟩
  | arg :: rest =>
    match pending with
    | some name =>
      if looksLikeOption arg then ⟨[], [], some .misuse⟩
      else (readItems specs leads none rest).cons (.setting name arg true)
    | none =>
      if arg = "--" then
        if leads then ⟨[], [], some .misuse⟩ else ⟨rest.map .word, [], none⟩
      else
        match classify specs arg with
        | .stop why => ⟨[], [], some why⟩
        | .awaiting name => readItems specs leads (some name) rest
        | .item (.word text) =>
          if leads then ⟨[], text :: rest, none⟩
          else (readItems specs leads none rest).cons (.word text)
        | .item item => (readItems specs leads none rest).cons item

/-- The words among the items. -/
def words (items : List Item) : List String :=
  items.filterMap fun
    | .word text => some text
    | _ => none

/-- The values given to an option. -/
def valuesOf (name : String) (items : List Item) : List String :=
  items.filterMap fun
    | .setting n value _ => if n = name then some value else none
    | _ => none

/-- How often a flag is set. -/
def flagCount (name : String) (items : List Item) : Nat := items.count (.flag name)

/-- Whether an option is used as it may be. -/
def OptionSpec.admits (s : OptionSpec) (items : List Item) : Bool :=
  (match s.use with
    | .flag => flagCount s.long items ≤ 1
    | .once => (valuesOf s.long items).length ≤ 1
    | .often => true) &&
  (s.allowsEmpty || !(valuesOf s.long items).contains "")

/-- Whether each option is used as it may be and there are at most `limit` words. -/
def inOrder (specs : List OptionSpec) (limit : Nat) (items : List Item) : Bool :=
  specs.all (·.admits items) && (words items).length ≤ limit

/-- The items without a last one whose value is an argument of its own. -/
def settled (items : List Item) : List Item :=
  match items.getLast? with
  | some (.setting _ _ true) => items.dropLast
  | _ => items

/-! ### Invocations -/

/-- What is asked for. -/
inductive Task where
  /-- The ghost of a class, declared under a name if one is given. -/
  | ghost (cls : String) (name : Option String)
  /-- The proxy for a class and interfaces, declared under a name if one is given. -/
  | proxy (cls : Option String) (interfaces : List String) (name : Option String)
  | signature (cls method : String) (withTypes : Bool)
deriving DecidableEq, Repr

/-- A task with what it needs. -/
structure Invocation where
  /-- Where the classes come from. -/
  registries : List String
  /-- The namespace of the support library, if it is not the usual one. -/
  supportNamespace : Option String
  /-- Whether generated classes may be read-only. -/
  allowReadonly : Bool
  task : Task
deriving DecidableEq, Repr

/-- The options before the task. -/
def leadingOptions : List OptionSpec :=
  [⟨"registry", some 'r', .often, false⟩, ⟨"namespace", none, .once, true⟩,
    ⟨"no-readonly", none, .flag, true⟩]

/-- The options of the task `ghost`. -/
def ghostOptions : List OptionSpec := [⟨"name", some 'n', .once, true⟩]

/-- The options of the task `proxy`. -/
def proxyOptions : List OptionSpec :=
  [⟨"class", some 'c', .once, true⟩, ⟨"interface", some 'i', .often, true⟩,
    ⟨"name", some 'n', .once, true⟩]

/-- The options of the task `signature`. -/
def signatureOptions : List OptionSpec := [⟨"no-types", none, .flag, true⟩]

/-- The items of a task of at most `limit` words, in order. -/
def taskItems (specs : List OptionSpec) (limit : Nat) (args : List String) :
    Except Stop (List Item) :=
  let r := readItems specs false none args
  if inOrder specs limit r.items then
    match r.stop with
    | some why => .error why
    | none => .ok r.items
  else .error .misuse

/-- Whether help can be had on the words. -/
def isHelpTopic (words : List String) : Bool :=
  [[], ["ghost"], ["proxy"], ["signature"], ["help"]].contains words

/-- The task that a word and the arguments behind it name. -/
def Task.parse (word : String) (args : List String) : Except Stop Task := do
  if word = "ghost" then
    let items ← taskItems ghostOptions 1 args
    match words items with
    | [cls] => return .ghost cls (valuesOf "name" items).head?
    | _ => throw .misuse
  else if word = "proxy" then
    let items ← taskItems proxyOptions 0 args
    return .proxy (valuesOf "class" items).head? (valuesOf "interface" items)
      (valuesOf "name" items).head?
  else if word = "signature" then
    let items ← taskItems signatureOptions 2 args
    match words items with
    | [cls, method] => return .signature cls method (flagCount "no-types" items == 0)
    | _ => throw .misuse
  else if word = "help" && isHelpTopic args then throw .help
  else throw .misuse

/-- **What the program is asked to do.** There must be a task, and a place for classes to come
from. -/
def Invocation.parse (args : List String) : Except Stop Invocation := do
  let r := readItems leadingOptions true none args
  match r.stop, r.rest with
  | some why, _ => throw (if inOrder leadingOptions 0 r.items then why else .misuse)
  | none, [] => throw .misuse
  | none, word :: rest =>
    if !inOrder leadingOptions 0 (settled r.items) then throw .misuse
    let task ← Task.parse word rest
    let registries := valuesOf "registry" r.items
    if !inOrder leadingOptions 0 r.items || registries.isEmpty then throw .misuse
    return ⟨registries, (valuesOf "namespace" r.items).head?,
      flagCount "no-readonly" r.items == 0, task⟩

end LazyClasses.Command
