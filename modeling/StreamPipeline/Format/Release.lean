import StreamPipeline.Format.Definition
import StreamPipeline.Format.Status
import StreamPipeline.Release.Basic
import StreamPipeline.Timestamp

/-!
# Releases in JSON

How packages, manifests, overrides and releases are written in JSON and read back. What also has a
form in YAML has the same fields there. A release that is kept elsewhere says when its name was
first released and when it was released itself.
-/

namespace StreamPipeline

open Json

/-! ### Packages -/

/-- Reads the description of a package. -/
def PackageInfo.jsonDecoder : Decoder PackageInfo :=
  .record ["name", "version", "repository", "kind", "description", "app_name", "role"] fun r => do
    return { name := ← r.required "name" .text, version := ← r.required "version" .text
             repository := ← r.required "repository" .text
             kind := ← r.required "kind" (.word PackageKind.ofWord?)
             description := ← r.withDefault "description" "" .text
             app := ← r.withDefault "app_name" none Decoder.text.optional
             role := ← r.withDefault "role" none Decoder.role.optional }

/-- Reads a package with at most `depth` packages one within the other. -/
def Package.jsonDecoder : Nat → Decoder Package
  | 0 => fun _ => none
  | depth + 1 => .record ["metadata", "config", "dependencies"] fun r => do
    return .mk (← r.required "metadata" PackageInfo.jsonDecoder)
      (← r.withDefault "config" none Decoder.text.optional)
      (← r.withDefault "dependencies" [] (.list (Package.jsonDecoder depth)))

/-- Reads a package. -/
def Package.ofJson? (v : Json) : Option Package := Package.jsonDecoder (v.depth + 1) v

/-- Reads a spec. -/
def StageSpec.jsonDecoder : Decoder StageSpec :=
  .record ["resource", "version", "versionOverride", "applicationProperties",
      "deploymentProperties"] fun r => do
    return { resource := ← r.required "resource" .text, version := ← r.required "version" .text
             pinned := ← r.withDefault "versionOverride" none Decoder.text.optional
             app := ← r.withDefault "applicationProperties" ∅ .texts
             deployer := ← r.withDefault "deploymentProperties" ∅ .texts }

/-! ### Manifests and overrides -/

/-- Reads an entry of a manifest. -/
def Entry.jsonDecoder : Decoder Entry :=
  .record ["metadata", "spec"] fun r => do
    let (label, app, role) ← r.required "metadata" (.record ["name", "app", "role"] fun m => do
      return (← m.required "name" .text, ← m.required "app" .text, ← m.required "role" .role))
    return { label, app, role, spec := ← r.required "spec" StageSpec.jsonDecoder }

/-- The manifest in JSON. -/
def Manifest.json (m : Manifest) : Json := .array (m.entries.map fun e => .ofTree e.tree)

/-- Reads a manifest. -/
def Manifest.jsonDecoder : Decoder Manifest := fun v =>
  (Decoder.list Entry.jsonDecoder v).map Manifest.mk

/-- Reads an override. -/
def Override.jsonDecoder : Decoder Override :=
  .record ["applicationProperties", "deploymentProperties", "version", "coordinate"] fun r => do
    return { app := ← r.withDefault "applicationProperties" ∅ .texts
             deployer := ← r.withDefault "deploymentProperties" ∅ .texts
             version := ← r.withDefault "version" none Decoder.text.optional
             coordinate := ← r.withDefault "coordinate" none Coordinate.decoder.optional }

/-- Reads overrides. -/
def Overrides.jsonDecoder : Decoder Overrides := .map Override.jsonDecoder

/-! ### Releases -/

/-- When a release was made. -/
structure ReleaseDates where
  /-- When the first release of its name was made. -/
  first : Timestamp
  /-- When this release was made. -/
  last : Timestamp
  deriving DecidableEq, Repr

/-- What has become of a release, in JSON. -/
def releaseInfoJson (status : ReleaseStatus) (dates : Option ReleaseDates) (description : String) :
    Json :=
  .record [("status", some (.string status.word)),
    ("first_deployed", dates.map fun d => .string d.first.render),
    ("last_deployed", dates.map fun d => .string d.last.render),
    ("description", some (.string description))]

/-- Reads what has become of a release. -/
def releaseInfoDecoder : Decoder (ReleaseStatus × ReleaseDates × String) :=
  .record ["status", "first_deployed", "last_deployed", "description"] fun r => do
    let time := Decoder.text.andThen Timestamp.ofText?
    return (← r.required "status" (.word ReleaseStatus.ofWord?),
      ⟨← r.required "first_deployed" time, ← r.required "last_deployed" time⟩,
      ← r.required "description" .text)

/-- The release in JSON, with its dates if they are known. -/
def Release.json (dates : Option ReleaseDates) (r : Release) : Json :=
  .object [("name", .string r.name), ("version", .nat r.version), ("manifest", r.manifest.json),
    ("platform_name", .string r.platform), ("package", .ofTree r.package.tree),
    ("info", releaseInfoJson r.status dates r.description), ("config_values", .string r.values)]

/-- Versions of releases are below this. -/
def Release.bound : Nat := UInt32.size

/-- Reads a release and its dates. -/
def Release.decoder : Decoder (Release × ReleaseDates) :=
  .record ["name", "version", "manifest", "platform_name", "package", "info",
      "config_values"] fun r => do
    let (status, dates, description) ← r.required "info" releaseInfoDecoder
    return ({ name := ← r.required "name" .text
              version := ← r.required "version" (.natBelow Release.bound)
              manifest := ← r.required "manifest" Manifest.jsonDecoder
              platform := ← r.required "platform_name" .text
              package := ← r.required "package" PackageInfo.jsonDecoder
              status, description
              values := ← r.withDefault "config_values" "" .text }, dates)

/-- The upload in JSON. -/
def Upload.json (u : Upload) : Json :=
  .object [("metadata", .ofTree u.info.tree), ("digest", .string u.digest)]

/-- Reads an upload. -/
def Upload.decoder : Decoder Upload :=
  .record ["metadata", "digest"] fun r => do
    return ⟨← r.required "metadata" PackageInfo.jsonDecoder, ← r.required "digest" .text⟩

/-- The installation in JSON. -/
def Installation.json (i : Installation) : Json :=
  .object [("release_name", .string i.release), ("package_name", .string i.package),
    ("package_version", .string i.packageVersion), ("platform_name", .string i.platform),
    ("config_values", .string i.values)]

/-- Reads an installation. -/
def Installation.decoder : Decoder Installation :=
  .record ["release_name", "package_name", "package_version", "platform_name",
      "config_values"] fun r => do
    return { release := ← r.required "release_name" .text
             package := ← r.required "package_name" .text
             packageVersion := ← r.required "package_version" .text
             platform := ← r.required "platform_name" .text
             values := ← r.required "config_values" .text }

/-- The upgrade in JSON. -/
def Upgrade.json (u : Upgrade) : Json :=
  .object [("release_name", .string u.release), ("package_name", .string u.package),
    ("package_version", .string u.packageVersion), ("config_values", .string u.values),
    ("force", .bool u.force)]

/-- Reads an upgrade. -/
def Upgrade.decoder : Decoder Upgrade :=
  .record ["release_name", "package_name", "package_version", "config_values",
      "force"] fun r => do
    return { release := ← r.required "release_name" .text
             package := ← r.required "package_name" .text
             packageVersion := ← r.required "package_version" .text
             values := ← r.required "config_values" .text, force := ← r.required "force" .bool }

end StreamPipeline
