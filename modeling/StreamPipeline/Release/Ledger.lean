import StreamPipeline.Release.Basic
import StreamPipeline.Status

/-!
# The ledger of releases

A ledger holds the packages that have been uploaded and, under each name, all releases that there
have been, the latest first. Releases are only ever added: of an earlier one nothing changes but
its status and description, and that once. An operation that fails leaves no trace, since its
result is either a failure or a ledger.
-/

namespace StreamPipeline

/-- A package with the digest of the text that was uploaded. -/
structure StoredPackage where
  package : Package
  digest : String
  deriving DecidableEq

/-- Packages, releases, and what stages report. -/
structure Ledger where
  /-- The packages by name and version. -/
  packages : StringMap (StringMap StoredPackage) := ∅
  /-- The releases by name, the latest first. -/
  releases : StringMap (List Release) := ∅
  /-- The states that stages were made to report, by release and label. -/
  reported : StringMap (StringMap State) := ∅
  /-- The platforms on which can be installed. -/
  platforms : List Platform := [⟨"default", "local", "In-process platform"⟩]
  /-- What a stage reports from its start on. -/
  initial : State := .deployed
  /-- The number of uploads. -/
  uploads : Nat := 0

namespace Ledger

/-! ### Look-ups -/

/-- The releases under a name, the latest first. -/
def history (l : Ledger) (name : String) : List Release := (l.releases.get? name).getD []

/-- The latest release under a name. -/
def latest (l : Ledger) (name : String) : Except Failure Release :=
  match l.history name with
  | r :: _ => .ok r
  | [] => .error (.noRelease name)

/-- The running release under a name. -/
def live (l : Ledger) (name : String) : Except Failure Release :=
  match l.history name with
  | r :: _ => if r.isLive then .ok r else .error (.noRelease name)
  | [] => .error (.noRelease name)

/-- A package that has been uploaded. -/
def stored? (l : Ledger) (name version : String) : Option StoredPackage :=
  (l.packages.get? name).bind (·.get? version)

/-- A package that has been uploaded, which is missed if it is not there. -/
def stored (l : Ledger) (name version : String) : Except Failure StoredPackage :=
  match l.stored? name version with
  | some p => .ok p
  | none => .error (.missing .package (name ++ ":" ++ version))

/-- What is known of a package that has been uploaded. -/
def findPackage (l : Ledger) (name version : String) : Option Upload :=
  (l.stored? name version).map fun p => ⟨p.package.info, p.digest⟩

/-- The manifest of a version, or of the latest. -/
def manifest (l : Ledger) (name : String) (version : Option Nat) : Except Failure Manifest :=
  match l.history name, version with
  | [], _ => .error (.noRelease name)
  | r :: _, none => .ok r.manifest
  | rs, some v =>
    match rs.find? (·.version == v) with
    | some r => .ok r.manifest
    | none => .error (.missing .releaseVersion (name ++ ":" ++ Nat.repr v))

/-- The name under which a release runs a stage. -/
def stageId (name label : String) (version : Nat) : String :=
  name ++ "." ++ label ++ "-v" ++ Nat.repr version

/-- What a stage of a release reports. -/
def stateOf (l : Ledger) (name label : String) : State :=
  ((l.reported.get? name).bind (·.get? label)).getD l.initial

/-- What the stages of the running release report. -/
def status (l : Ledger) (name : String) : Except Failure (List StageStatus) := do
  let r ← l.live name
  return r.manifest.entries.map fun e =>
    ⟨e.label, stageId name e.label r.version, l.stateOf name e.label⟩

/-! ### Packages -/

/-- Stores the package that a text holds. -/
def upload (l : Ledger) (text : String) : Except Failure (PackageInfo × Ledger) :=
  match Package.ofText? text with
  | none => .error (.malformed .shape)
  | some package =>
    let info := package.info
    let stored : StoredPackage := ⟨package, Digest.sha256 text.toUTF8.toList⟩
    let versions := ((l.packages.get? info.name).getD ∅).insert info.version stored
    .ok (info, { l with packages := l.packages.insert info.name versions
                        uploads := l.uploads + 1 })

/-- Deletes a package in all its versions. -/
def deletePackage (l : Ledger) (name : String) : Ledger :=
  { l with packages := l.packages.erase name }

/-! ### Releases -/

/-- Adds a release, whose stages report nothing yet. -/
def push (l : Ledger) (r : Release) : Ledger :=
  { l with releases := l.releases.insert r.name (r :: l.history r.name)
           reported := l.reported.erase r.name }

/-- The version behind the latest one under a name. -/
def nextVersion (l : Ledger) (name : String) : Nat :=
  match l.history name with
  | r :: _ => r.version + 1
  | [] => 1

/-- Ends the running release under a name, if there is one. -/
def retire (l : Ledger) (name description : String) : Ledger :=
  match l.history name with
  | r :: rs =>
    if r.isLive then
      { l with
        releases := l.releases.insert name ({ r with status := .deleted, description } :: rs) }
    else l
  | [] => l

/-- What is said of a release that another one replaced. -/
def superseded (version : Nat) : String := "Superseded by version " ++ Nat.repr version

/-- Installs a package that has been uploaded, where nothing is running under that name. -/
def install (l : Ledger) (i : Installation) : Except Failure (Release × Ledger) := do
  if !l.platforms.any (·.name == i.platform) then throw (.missing .platform i.platform)
  if (l.live i.release).isOk then throw (.conflict .alreadyDeployed i.release)
  let stored ← l.stored i.package i.packageVersion
  let manifest ← Manifest.ofPackage stored.package
  let r : Release :=
    { name := i.release, version := l.nextVersion i.release, manifest, platform := i.platform
      package := stored.package.info, status := .deployed, description := "Install complete"
      values := i.values }
  return (r, l.push r)

/-- Replaces the running release with one of a package that has been uploaded. -/
def upgrade (l : Ledger) (u : Upgrade) : Except Failure (Release × Ledger) := do
  let previous ← l.live u.release
  let stored ← l.stored u.package u.packageVersion
  let manifest ← Manifest.ofPackage stored.package
  let version := l.nextVersion u.release
  let r : Release :=
    { name := u.release, version, manifest, platform := previous.platform
      package := stored.package.info, status := .deployed, description := "Upgrade complete"
      values := u.values }
  return (r, (l.retire u.release (superseded version)).push r)

/-- Releases a version once more as a new one; zero stands for the version before the latest. -/
def rollback (l : Ledger) (name : String) (version : Nat) : Except Failure (Release × Ledger) := do
  let latest := (← l.latest name).version
  let target := if version = 0 then latest - 1 else version
  match (l.history name).find? (·.version == target) with
  | none => throw (.missing .releaseVersion (name ++ ":" ++ Nat.repr version))
  | some r =>
    let r := { r with
      version := latest + 1
      status := .deployed
      description := "Rollback to version " ++ Nat.repr target ++ " complete" }
    return (r, (l.retire name (superseded (latest + 1))).push r)

/-- Ends the running release. -/
def delete (l : Ledger) (name : String) : Except Failure (Release × Ledger) := do
  let r ← l.live name
  let description := "Delete complete"
  return ({ r with status := .deleted, description },
    { l.retire name description with reported := l.reported.erase name })

/-- Makes a stage report a state. -/
def setState (l : Ledger) (name label : String) (s : State) : Ledger :=
  { l with reported := l.reported.insert name (((l.reported.get? name).getD ∅).insert label s) }

end Ledger

end StreamPipeline
