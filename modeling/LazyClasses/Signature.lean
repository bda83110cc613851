import LazyClasses.DefaultExpr
import LazyClasses.Event
import LazyClasses.Hierarchy
import LazyClasses.Text.Blank
import LazyClasses.TypeHint.Render
/-! # Signatures

The header with which a method or function is declared again in another scope, and the arguments
that hand a call on.

* `Argument`, `forwarded`: what the body of the method passes on.
* `Parameter.render`: a parameter as the header shows it.
* `Method.signature`, `FunctionDecl.signature`: header and arguments.
* `hasTentativeReturn`: whether the result type of a method, or of a declaration that it overrides,
  is one that need not be adopted yet. An abstract declaration ends the search. -/

namespace LazyClasses

/-! ### Arguments -/

/-- What a call hands on. -/
inductive Argument where
  /-- The value of a parameter. -/
  | value (name : String)
  /-- Each value that a variadic parameter took. -/
  | unpacked (name : String)
  | everything
  /-- Every argument received behind the first `n`. -/
  | after (n : Nat)
deriving DecidableEq, Repr

namespace Argument

/-- The argument in PHP. -/
def text : Argument → String
  | .value name => "$" ++ name
  | .unpacked name => "...$" ++ name
  | .everything => "...\\func_get_args()"
  | .after n => "...\\array_slice(\\func_get_args(), " ++ toString n ++ ")"

/-- The parameter handed on as a variable of its own. -/
def ofParameter (p : Parameter) : Argument :=
  if p.isVariadic then .unpacked p.name else .value p.name

end Argument

/-- The arguments that hand on a call with these parameters: all that were received, but one by one
if a parameter is passed by reference. -/
def forwarded (params : List Parameter) : List Argument :=
  if params.any (·.byRef) then
    if params.getLast?.any (·.isVariadic) then params.map Argument.ofParameter
    else params.map Argument.ofParameter ++ [.after params.length]
  else [.everything]

/-- A declaration header and the arguments that hand a call on. -/
structure Signature where
  /-- The header, up to the body. -/
  header : String
  arguments : List Argument
deriving DecidableEq, Repr

/-- The argument list in PHP. -/
def Signature.argumentText (s : Signature) : String :=
  ", ".intercalate (s.arguments.map Argument.text)

/-! ### Parameters -/

/-- A character that can only occur in a default value that refers to something. -/
def opensReference (c : Char) : Bool := c == '\\' || c == ':' || c == '(' || c == '\x00'

/-- A default value as the header shows it. -/
def renderDefault (scope : Option ClassScope) (written : String) : String :=
  let expr := Text.trim written
  if expr = "<default>" ∨ expr = "NULL" then "null"
  else if expr.toList.any opensReference then DefaultExpr.requalify scope expr
  else expr

/-- A parameter as the header shows it, with its type if types are wanted. -/
def Parameter.render (scope : Option ClassScope) (withType : Bool) (p : Parameter) : String :=
  (if p.isSensitive then "#[\\SensitiveParameter] " else "") ++
    (match p.hint with
      | some hint => if withType then hint.render (scope.getD .free) .full ++ " " else ""
      | none => "") ++
    (if p.byRef then "&" else "") ++ (if p.isVariadic then "..." else "") ++ "$" ++ p.name ++
    (match p.default with
      | some written => if p.isVariadic then "" else " = " ++ renderDefault scope written
      | none => "")

/-- The parameter list as the header shows it. -/
def renderParameters (scope : Option ClassScope) (withTypes : Bool) (params : List Parameter) :
    String :=
  ", ".intercalate (params.map (Parameter.render scope withTypes))

/-- The result type as the header shows it. -/
def renderReturn (scope : ClassScope) (hint : Option TypeHint) : String :=
  match hint with
  | some hint => ": " ++ hint.render scope .full
  | none => ""

/-- The attribute of a method whose result type is tentative. -/
def tentativeMark (isTentative : Bool) : String :=
  if isTentative then "#[\\ReturnTypeWillChange] " else ""

/-! ### Tentative result types -/

/-- How many declarations the search for a tentative result type looks at. -/
def tentativeDepth : Nat := 66

/-- Whether one of the next `n` declarations is tentative and none before it is abstract. -/
def Registry.meetsTentative (r : Registry) : Nat → Method → Bool
  | 0, _ => false
  | n + 1, m =>
    m.isTentative || (!m.isAbstract &&
      match r.prototype? m with
      | none => false
      | some p => r.meetsTentative n p)

/-- Whether the method, or a declaration that it overrides, has a tentative result type. -/
def Registry.hasTentativeReturn (r : Registry) (m : Method) : Bool :=
  r.meetsTentative tentativeDepth m

/-! ### Headers -/

/-- **The signature of a method**, readable outside its class. -/
def Registry.signature (r : Registry) (m : Method) (withTypes : Bool) : Signature :=
  let scope := r.scope m.declaringClass
  { header :=
      tentativeMark (r.hasTentativeReturn m) ++ m.visibility.keyword ++ " " ++
        (if m.isStatic then "static " else "") ++ "function " ++
        (if m.returnsRef then "&" else "") ++ m.name ++ "(" ++ renderParameters (some scope) withTypes m.parameters ++ ")" ++
        renderReturn scope m.returnType
    arguments := forwarded m.parameters }

/-- **The signature of a function**; that of a closure shows no name. -/
def FunctionDecl.signature (f : FunctionDecl) (withTypes : Bool) : Signature where
  header :=
    tentativeMark f.isTentative ++ "function " ++ (if f.returnsRef then "&" else "") ++
      (if f.isClosure then "" else f.name) ++ "(" ++ renderParameters none withTypes f.parameters ++
      ")" ++ renderReturn .free f.returnType
  arguments := forwarded f.parameters

/-! ### Events -/

/-- The events of rendering a type in the scope. -/
def TypeHint.events (scope : ClassScope) (hint : TypeHint) : List Event :=
  List.replicate (hint.countLackingParent scope) (.parentMissing (scope.self.getD ""))

/-- The events of rendering a default value. -/
def defaultEvents (scope : ClassScope) (written : String) : List Event :=
  let expr := Text.trim written
  if expr.toList.any opensReference then
    List.replicate (DefaultExpr.countLackingParent (some scope) expr)
      (.parentMissing (scope.self.getD ""))
  else []

/-- The events of rendering a parameter. -/
def Parameter.events (scope : ClassScope) (withType : Bool) (p : Parameter) : List Event :=
  (if withType then (p.hint.map (TypeHint.events scope)).getD [] else []) ++
    (if p.isVariadic then [] else (p.default.map (defaultEvents scope)).getD [])

/-- The events of rendering the signature of a method. -/
def Registry.signatureEvents (r : Registry) (m : Method) (withTypes : Bool) : List Event :=
  let scope := r.scope m.declaringClass
  m.parameters.flatMap (Parameter.events scope withTypes) ++
    (m.returnType.map (TypeHint.events scope)).getD []

end LazyClasses
