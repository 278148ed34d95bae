import StreamPipeline.Definition.Stage
import StreamPipeline.Yaml.Decode
import StreamPipeline.Yaml.Printer

/-!
# What a stage runs

A spec is the resolved configuration of one stage: the artifact, and what the app and the platform
are told. As a document of its own, under the name `spec`, it is the configuration block that a
stage's package carries.
-/

namespace StreamPipeline

/-- Writes a map of texts. -/
def Yaml.Tree.ofTexts (m : StringMap String) : Yaml.Tree :=
  .map (m.toList.map fun e => (e.1, .text e.2))

/-- Reads a map of texts. -/
def Yaml.Decoder.texts : Yaml.Decoder (StringMap String) := .map .text

/-- The resolved configuration of a stage. -/
structure StageSpec where
  /-- The locator of the artifact. -/
  resource : String
  /-- The version that is in effect. -/
  version : String
  /-- The version to which the artifact is pinned. -/
  pinned : Option String := none
  app : Settings := ∅
  deployer : Settings := ∅
  deriving DecidableEq

namespace StageSpec

/-- The spec as it is written. -/
def tree (s : StageSpec) : Yaml.Tree :=
  .record [
    ("resource", some (.text s.resource)),
    ("version", some (.text s.version)),
    ("versionOverride", s.pinned.map .text),
    ("applicationProperties", some (.ofTexts s.app)),
    ("deploymentProperties", some (.ofTexts s.deployer))]

/-- Reads a spec. -/
def decoder : Yaml.Decoder StageSpec := .record fun r => do
  return {
    resource := ← r.required "resource" .text
    version := ← r.required "version" .text
    pinned := ← r.optional "versionOverride" .text
    app := ← r.withDefault "applicationProperties" ∅ .texts
    deployer := ← r.withDefault "deploymentProperties" ∅ .texts }

/-- The tree of a configuration block. -/
def blockTree (s : StageSpec) : Yaml.Tree := .record [("spec", some s.tree)]

/-- The configuration block of a spec. -/
def block (s : StageSpec) : String := s.blockTree.render

/-- The spec that a configuration block holds. -/
def ofBlock? (text : String) : Option StageSpec :=
  (Yaml.Decoder.record fun r => r.required "spec" decoder).single text

end StageSpec

end StreamPipeline
