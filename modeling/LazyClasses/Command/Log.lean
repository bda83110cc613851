import LazyClasses.Event
import LazyClasses.Json.Basic
import LazyClasses.Text.Case
/-! # The log

Events are logged only if the environment names a level; those that matter at least as much are
shown, as text or as JSON. -/

namespace LazyClasses

/-- The facts of an event, its wording first. -/
def Event.fields (e : Event) : List (String × Json) :=
  ("message", Json.ofString e.message) ::
    match e with
    | .loaded path classes => [("path", Json.ofString path), ("classes", Json.ofInt classes)]
    | .parentMissing cls => [("class", Json.ofString cls)]
    | .writingGhost cls => [("class", Json.ofString cls)]
    | .keptFinal method => [("method", Json.ofString method)]
    | .notForwarded method => [("method", Json.ofString method)]
    | .wroteProxy cls interfaces mustProxy =>
      [("class", Json.ofString cls), ("interfaces", Json.ofInt interfaces),
       ("must_proxy", .bool mustProxy)]

namespace Command

/-- The variables of an environment. -/
abbrev Environment := List (String × String)

/-- The variable that sets the level. -/
def levelVariable : String := "PHP_LAZY_PROXY_LOG"

/-- The variable that sets the level if the other does not. -/
def fallbackLevelVariable : String := "RUST_LOG"

/-- The variable that sets the format. -/
def formatVariable : String := "PHP_LAZY_PROXY_LOG_FORMAT"

/-- The words for the ranks up to which events may be shown, `off` for none of them. -/
def rankWords : List String := ["off", "error", "warn", "info", "debug", "trace"]

/-- The rank up to which events are shown. It is named or given as a number; the empty text means
errors alone, and what means no rank shows nothing. -/
def maxRank (text : String) : Nat :=
  if text = "" then Level.error.rank
  else
    ((rankWords.findIdx? (Text.same text)).or
      ((List.range rankWords.length).find? (toString · == text))).getD 0

/-- The rank up to which the environment wants events to be shown. -/
def Environment.maxRank (env : Environment) : Nat :=
  match (env.lookup levelVariable).or (env.lookup fallbackLevelVariable) with
  | some text => Command.maxRank text
  | none => 0

/-- The events that the environment wants to be shown. -/
def Environment.shown (env : Environment) (events : List Event) : List Event :=
  events.filter fun e => e.level.rank ≤ env.maxRank

/-- Whether the log is written as JSON. -/
def Environment.wantsJson (env : Environment) : Bool :=
  (env.lookup formatVariable).any fun f => Text.lower f = "json"

end Command

end LazyClasses
