import StreamPipeline.Release.Spec
import StreamPipeline.Coordinate
import StreamPipeline.Properties

/-!
# Overrides

What an update changes about stages, by label: properties of the app and the platform, and either a
version or another artifact.
-/

namespace StreamPipeline

/-- What an update changes about a stage. -/
structure Override where
  app : Settings := ∅
  deployer : Settings := ∅
  version : Option String := none
  coordinate : Option Coordinate := none
  deriving DecidableEq

/-- What an update changes about stages, by label. -/
abbrev Overrides := StringMap Override

/-- The coordinate as it is written. -/
def Coordinate.tree (c : Coordinate) : Yaml.Tree :=
  .record [
    ("name", some (.text c.name)),
    ("kind", some (.text c.kind)),
    ("version", some (.text c.version)),
    ("locator", some (.text c.locator))]

namespace Override

/-- Whether nothing is changed. -/
def isEmpty (o : Override) : Bool :=
  o.app.isEmpty && o.deployer.isEmpty && o.version.isNone && o.coordinate.isNone

/-- The override as it is written. -/
def tree (o : Override) : Yaml.Tree :=
  .record [
    ("applicationProperties", if o.app.isEmpty then none else some (.ofTexts o.app)),
    ("deploymentProperties", if o.deployer.isEmpty then none else some (.ofTexts o.deployer)),
    ("version", o.version.map .text),
    ("coordinate", o.coordinate.map Coordinate.tree)]

/-- What properties say about a stage. -/
def ofProperties (p : Properties) (label : String) : Override :=
  { app := p.forStage .app label, deployer := p.forStage .deployer label
    version := p.pinned? label }

/-- The spec with an override applied. An artifact replaces the artifact; a version replaces the
version, also where the locator ends with it. -/
def apply (o : Override) (s : StageSpec) : StageSpec :=
  let s := { s with app := s.app.overlay o.app, deployer := s.deployer.overlay o.deployer }
  match o.coordinate, o.version with
  | some c, _ => { s with resource := c.locator, version := c.version }
  | none, some v =>
    { s with resource := pinLocator s.resource s.version v, version := v, pinned := some v }
  | none, none => s

end Override

namespace Overrides

/-- What properties say about stages with these labels, where they say anything. -/
def ofProperties (p : Properties) (labels : List String) : Overrides :=
  StringMap.ofList (labels.filterMap fun l =>
    let o := Override.ofProperties p l
    if o.isEmpty then none else some (l, o))

/-- Replaces the artifact of a stage. -/
def setCoordinate (os : Overrides) (label : String) (c : Coordinate) : Overrides :=
  os.insert label { (os.get? label).getD {} with coordinate := some c }

/-- The overrides of some stages. -/
def retain (os : Overrides) (labels : List String) : Overrides := os.filterKeys (labels.contains ·)

/-- The overrides as they are written. -/
def tree (os : Overrides) : Yaml.Tree := .map (os.toList.map fun e => (e.1, e.2.tree))

/-- The text of overrides; where there are none, there is no text. -/
def text (os : Overrides) : String := if os.isEmpty then "" else os.tree.render

end Overrides

end StreamPipeline
