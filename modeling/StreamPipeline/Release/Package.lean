import StreamPipeline.Digest
import StreamPipeline.Release.Spec
import StreamPipeline.Request

/-!
# Packages

A pipeline is released as a package that has one package for each stage. The package of a stage
carries the stage's configuration block, and says which app it runs in which role. A package is
known by its name and version; whether two are the same is told by their digests.
-/

namespace StreamPipeline

/-- What a package is for. -/
inductive PackageKind
  | pipeline
  | app
  deriving DecidableEq, Repr

namespace PackageKind

/-- Every kind of package. -/
def all : List PackageKind := [pipeline, app]

/-- The word for a kind of package. -/
def word : PackageKind → String
  | pipeline => "stream"
  | app => "app"

/-- The kind of package that a word names. -/
def ofWord? (s : String) : Option PackageKind := all.find? (·.word == s)

end PackageKind

/-- What a package is. -/
structure PackageInfo where
  name : String
  version : String
  repository : String
  kind : PackageKind
  description : String := ""
  /-- The app of a stage. -/
  app : Option String := none
  /-- The role of a stage. -/
  role : Option Role := none
  deriving DecidableEq, Repr

/-- A package and the packages that it contains. -/
inductive Package
  | mk (info : PackageInfo) (config : Option String) (parts : List Package)
  deriving Repr

namespace PackageInfo

/-- The description of a package as it is written. -/
def tree (i : PackageInfo) : Yaml.Tree :=
  .record [
    ("name", some (.text i.name)),
    ("version", some (.text i.version)),
    ("repository", some (.text i.repository)),
    ("kind", some (.text i.kind.word)),
    ("description", some (.text i.description)),
    ("app_name", i.app.map .text),
    ("role", i.role.map (.text ·.word))]

/-- Reads the description of a package. -/
def decoder : Yaml.Decoder PackageInfo := .record fun r => do
  return {
    name := ← r.required "name" .text
    version := ← r.required "version" .text
    repository := ← r.required "repository" .text
    kind := ← r.required "kind" (.word PackageKind.ofWord?)
    description := ← r.withDefault "description" "" .text
    app := ← r.optional "app_name" .text
    role := ← r.optional "role" (.word Role.ofWord?) }

end PackageInfo

namespace Package

/-- What the package is. -/
def info : Package → PackageInfo
  | mk i _ _ => i

/-- The configuration block of a stage. -/
def config : Package → Option String
  | mk _ c _ => c

/-- The packages within the package. -/
def parts : Package → List Package
  | mk _ _ ps => ps

/-! ### Equality -/

mutual

/-- Whether two packages are the same. -/
def same : Package → Package → Bool
  | mk i c ps, mk j d qs => i == j && c == d && sameAll ps qs

/-- Whether two lists hold the same packages. -/
def sameAll : List Package → List Package → Bool
  | [], [] => true
  | p :: ps, q :: qs => same p q && sameAll ps qs
  | _, _ => false

end

mutual

theorem same_iff : ∀ p q : Package, same p q = true ↔ p = q
  | mk i c ps, mk j d qs => by simp [same, sameAll_iff ps qs, and_assoc]

theorem sameAll_iff : ∀ ps qs : List Package, sameAll ps qs = true ↔ ps = qs
  | [], [] => by simp [sameAll]
  | [], _ :: _ => by simp [sameAll]
  | _ :: _, [] => by simp [sameAll]
  | p :: ps, q :: qs => by simp [sameAll, same_iff p q, sameAll_iff ps qs]

end

instance : DecidableEq Package := fun p q => decidable_of_iff _ (same_iff p q)

/-! ### Text -/

mutual

/-- The package as it is written. -/
def tree : Package → Yaml.Tree
  | mk info config parts => .record [
    ("metadata", some info.tree),
    ("config", config.map .text),
    ("dependencies", if parts.isEmpty then none else some (.list (trees parts)))]

/-- Some packages as they are written. -/
def trees : List Package → List Yaml.Tree
  | [] => []
  | p :: ps => tree p :: trees ps

end

/-- Reads a package with at most `depth` packages one within the other. -/
def decoder : Nat → Yaml.Decoder Package
  | 0 => fun _ _ => failure
  | depth + 1 => .record fun r => do
    return .mk (← r.required "metadata" PackageInfo.decoder) (← r.optional "config" .text)
      (← r.withDefault "dependencies" [] (.list (decoder depth)))

/-- The text of a package. -/
def text (p : Package) : String := p.tree.render

/-- The package that a text holds. -/
def ofText? (text : String) : Option Package := (decoder Yaml.deepest).single text

/-- The digest of the text of a package. -/
def digest (p : Package) : String := Digest.sha256 p.text.toUTF8.toList

/-! ### Stages -/

/-- The package of a stage. -/
def ofStage (label app : String) (role : Role) (version repository : String) (spec : StageSpec) :
    Package :=
  .mk { name := label, version, repository, kind := .app, app := some app, role := some role }
    (some spec.block) []

/-- The specs of the packages within the package, each with what its package is. -/
def stageSpecs (p : Package) : Except Failure (List (PackageInfo × StageSpec)) :=
  p.parts.mapM fun part =>
    match StageSpec.ofBlock? (part.config.getD "") with
    | some spec => .ok (part.info, spec)
    | none => .error (.malformed .shape)

end Package

/-! ### Versions -/

/-- The normal form of a package version. -/
def checkVersion (pipeline version : String) : Except Failure String :=
  match SemVer.parse (Text.trim version) with
  | .ok v => .ok v.render
  | .error fault => .error (.invalid pipeline (.version version fault))

/-- The version behind a package version. -/
def nextVersion (pipeline version : String) : Except Failure String :=
  match SemVer.parse (Text.trim version) with
  | .ok v =>
    match v.nextPatch with
    | some w => .ok w.render
    | none => .error (.broken .outOfRange)
  | .error fault => .error (.invalid pipeline (.version version fault))

/-! ### Packaging -/

/-- What a package is given where nothing else is asked for. -/
structure Packager where
  version : String := "1.0.0"
  repository : String := "local"
  deriving DecidableEq, Repr

/-- What the stage of a request is to run. -/
def Request.spec (r : Request) : StageSpec :=
  { resource := r.coordinate.locator, version := r.coordinate.version, pinned := r.pinned
    app := r.settings, deployer := r.deployer }

/-- The package of a pipeline with these requests. -/
def Packager.package (k : Packager) (d : Definition) (requests : List Request) (p : Properties) :
    Except Failure Package := do
  let version ← checkVersion d.name (p.packageVersion?.getD k.version)
  let repository := p.repository?.getD k.repository
  return .mk { name := p.packageName?.getD d.name, version, repository, kind := .pipeline
               description := d.text } none
    (requests.map fun r => Package.ofStage r.label r.stage.app r.role version repository r.spec)

end StreamPipeline
