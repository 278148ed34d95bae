import StreamPipeline.StringMap
import StreamPipeline.Text.Blank

/-!
# Stages

A stage runs one app. Among its properties are those that bind it to destinations, from which it
consumes and to which it publishes; the rest configures the app.
-/

namespace StreamPipeline

/-- Texts by name. -/
abbrev Settings := StringMap String

/-! ### The properties that bind a stage -/

namespace Binding

/-- The destination from which a stage consumes. -/
def input : String := "input.destination"

/-- The destination to which a stage publishes. -/
def output : String := "output.destination"

/-- The group of consumers to which a stage belongs. -/
def group : String := "input.group"

/-- Whether a property binds a stage. -/
def isBinding (key : String) : Bool := key == input || key == output || key == group

end Binding

/-- A stage of a pipeline. -/
structure Stage where
  /-- What the stage is called within its pipeline. -/
  label : String
  /-- The name under which its app is registered. -/
  app : String
  properties : Settings := ∅
  deriving DecidableEq

namespace Stage

/-- A stage that is called as its app is. -/
def ofApp (app : String) : Stage := ⟨app, app, ∅⟩

/-- The stage with another property. -/
def set (s : Stage) (key value : String) : Stage :=
  { s with properties := s.properties.insert key value }

/-- The stage with another property unless it has that one. -/
def setIfNew (s : Stage) (key value : String) : Stage :=
  { s with properties := s.properties.insertIfNew key value }

/-- The destination from which the stage consumes. -/
def input? (s : Stage) : Option String := s.properties.get? Binding.input

/-- The destination to which the stage publishes. -/
def output? (s : Stage) : Option String := s.properties.get? Binding.output

/-- Whether the stage consumes from a destination. -/
def hasInput (s : Stage) : Bool := s.input?.isSome

/-- Whether the stage publishes to a destination. -/
def hasOutput (s : Stage) : Bool := s.output?.isSome

/-- An option of the stage as its pipeline's text shows it, quoted if it has blanks. -/
def renderOption (key value : String) : String :=
  if value.toList.any Text.isBlank then " --" ++ key ++ "='" ++ value ++ "'"
  else " --" ++ key ++ "=" ++ value

/-- The stage as its pipeline's text shows it: the app, under its label if that is another, and
the options that configure it. -/
def render (s : Stage) : String :=
  (if s.label = s.app then s.app else s.label ++ ": " ++ s.app)
    ++ String.join ((s.properties.filterKeys (!Binding.isBinding ·)).toList.map fun e =>
      renderOption e.1 e.2)

/-- The stage with what configures its app replaced, and its bindings kept. -/
def withSettings (s : Stage) (settings : Settings) : Stage :=
  { s with properties := (s.properties.filterKeys Binding.isBinding).overlay
            (settings.filterKeys (!Binding.isBinding ·)) }

end Stage

end StreamPipeline
