import StreamPipeline.Release.Override
import StreamPipeline.Release.Package

/-!
# Manifests

A manifest is what a release runs: one entry for each stage, in order. An update merges overrides
into it and then works out anew which stages are partitioned consumers (`repartition`). Written
down, it is one document for each entry.
-/

namespace StreamPipeline

/-- What a release runs as one stage. -/
structure Entry where
  label : String
  app : String
  role : Role
  spec : StageSpec
  deriving DecidableEq

/-- What a release runs. -/
structure Manifest where
  entries : List Entry
  deriving DecidableEq

namespace Entry

/-- The entry as it is written. -/
def tree (e : Entry) : Yaml.Tree :=
  .record [
    ("metadata", some (.record [
      ("name", some (.text e.label)),
      ("app", some (.text e.app)),
      ("role", some (.text e.role.word))])),
    ("spec", some e.spec.tree)]

/-- Reads an entry. -/
def decoder : Yaml.Decoder Entry := .record fun r => do
  let (label, app, role) ← r.required "metadata" (.record fun m => do
    return (← m.required "name" .text, ← m.required "app" .text,
      ← m.required "role" (.word Role.ofWord?)))
  return { label, app, role, spec := ← r.required "spec" StageSpec.decoder }

/-- The entry with what partitioning wrote taken back. A stage that was a partitioned consumer also
loses the numbering of its instances. -/
def bare (e : Entry) : ResolvedStage :=
  { stage := ⟨e.label, e.app, e.spec.app.filterKeys (!Partition.isInjected ·)⟩
    deployer :=
      if e.spec.app.contains Partition.inputPartitioned then
        e.spec.deployer.erase Partition.indexed
      else e.spec.deployer }

/-- The entry with the properties of a stage in place of its own. -/
def withStage (e : Entry) (s : ResolvedStage) : Entry :=
  { e with spec := { e.spec with app := s.stage.properties.overlay s.app, deployer := s.deployer } }

end Entry

namespace Manifest

/-- The labels of the entries in order. -/
def labels (m : Manifest) : List String := m.entries.map (·.label)

/-- The entry with a label. -/
def find? (m : Manifest) (label : String) : Option Entry := m.entries.find? (·.label == label)

/-- What the release of a package runs. -/
def ofPackage (p : Package) : Except Failure Manifest := do
  let entries ← (← p.stageSpecs).mapM fun (info, spec) =>
    match info.app, info.role with
    | some app, some role => Except.ok (⟨info.name, app, role, spec⟩ : Entry)
    | _, _ => .error (.malformed (.anonymousStage info.name))
  return ⟨entries⟩

/-- The package described by `info` whose release runs the manifest. -/
def toPackage (m : Manifest) (info : PackageInfo) : Package :=
  .mk info none (m.entries.map fun e =>
    Package.ofStage e.label e.app e.role info.version info.repository e.spec)

/-- The manifest with overrides applied. -/
def merge (m : Manifest) (os : Overrides) : Manifest :=
  ⟨m.entries.map fun e =>
    match os.get? e.label with
    | some o => { e with spec := o.apply e.spec }
    | none => e⟩

/-- The manifest with its partitioned consumers worked out anew. -/
def repartition (m : Manifest) (pipeline : String) : Except Failure Manifest := do
  let stages ← ResolvedStage.propagated pipeline (m.entries.map Entry.bare)
  return ⟨List.zipWith Entry.withStage m.entries stages⟩

/-- What the stages of the definition are to be told, by label, so that partitioning finds them as
this manifest has them. -/
def settings (m : Manifest) : StringMap Settings :=
  StringMap.ofList (m.entries.map fun e =>
    (e.label, e.spec.app.filterKeys (!Partition.isInjected ·)))

/-- The text of a manifest. -/
def text (m : Manifest) : String := "---\n".intercalate (m.entries.map (·.tree.render))

/-- The manifest that a text holds. -/
def ofText? (text : String) : Option Manifest := (Entry.decoder.several text).map Manifest.mk

end Manifest

end StreamPipeline
