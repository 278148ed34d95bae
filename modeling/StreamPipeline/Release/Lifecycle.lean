import StreamPipeline.Release.Manager
import StreamPipeline.Store

/-!
# The life of a release

A lifecycle installs pipelines with a release manager, upgrades them, rolls them back and
uninstalls them. Whatever changes what is running is written back into the stored definition
(`reconcile`), so that a later deployment starts from there.
-/

namespace StreamPipeline

/-- How a release is to be upgraded. -/
structure UpgradeOptions where
  /-- The package version that is asked for. -/
  version : Option String := none
  /-- Artifacts that replace those of stages, by label. -/
  coordinates : StringMap Coordinate := ∅
  /-- Whether to upgrade also where nothing changes. -/
  force : Bool := false
  /-- The only stages that may change. -/
  labels : Option (List String) := none

/-- A release manager and a store of definitions. -/
structure Lifecycle (σ : Type) where
  manager : Manager σ
  store : Store σ
  packager : Packager := {}
  /-- The platform where none is asked for. -/
  platform : String := "default"

namespace Lifecycle

variable {σ : Type}

/-- The state of what is running under a name. -/
def state (c : Lifecycle σ) (name : String) : Call σ State :=
  tryCatch (do return (PipelineStatus.ofStages (← c.manager.status name)).state) fun e =>
    if e.isNoRelease then return .undeployed else throw e

/-- Uploads a package unless the same one is there already. -/
def ensureUploaded (c : Lifecycle σ) (p : Package) : Call σ Unit := do
  let there ← c.manager.findPackage p.info.name p.info.version
  if there.any (·.digest == p.digest) then return
  discard (c.manager.upload p.text)

/-- Installs a pipeline with these requests. -/
def install (c : Lifecycle σ) (d : Definition) (requests : List Request) (p : Properties) :
    Call σ Release := do
  Call.ofExcept (State.checkDeployable d.name (← c.state d.name))
  let platform := p.platform?.getD c.platform
  let platforms ← c.manager.platforms
  if !platforms.any (·.name == platform) then throw (.missing .platform platform)
  let package ← Call.ofExcept (c.packager.package d requests p)
  c.ensureUploaded package
  c.manager.install
    { release := d.name, package := package.info.name, packageVersion := package.info.version
      platform, values := (Overrides.ofProperties p d.labels).text }

/-- Writes a manifest back into the stored definition. -/
def reconcile (c : Lifecycle σ) (name : String) (m : Manifest) : Call σ Unit := do
  match ← c.store.find name with
  | some d => c.store.upsert (d.withSettings m.settings)
  | none => return

/-- The stages that may change, if all that are named are there. -/
def targets (name : String) (labels : List String) (o : UpgradeOptions) :
    Except Failure (List String) := do
  let targets := o.labels.getD labels
  match (targets ++ o.coordinates.keys).find? (!labels.contains ·) with
  | some l => .error (.invalid name (.unknownLabel l))
  | none => .ok targets

/-- What an upgrade changes. -/
def overrides (labels targets : List String) (p : Properties) (o : UpgradeOptions) : Overrides :=
  (o.coordinates.toList.foldl (fun os e => os.setCoordinate e.1 e.2)
    (Overrides.ofProperties p labels)).retain targets

/-- The package version of an upgrade: what is asked for, or the one behind the present one. -/
def upgradeVersion (name current : String) (p : Properties) (o : UpgradeOptions) :
    Except Failure String :=
  match o.version.or p.packageVersion? with
  | some v => checkVersion name v
  | none => nextVersion name current

/-- The package of an upgrade of a release, and what it changes. -/
def upgraded (r : Release) (p : Properties) (o : UpgradeOptions) :
    Except Failure (Package × Overrides) := do
  let labels := r.manifest.labels
  let values := overrides labels (← targets r.name labels o) p o
  let manifest ← (r.manifest.merge values).repartition r.name
  if !o.force && manifest = r.manifest then throw (.conflict .nothingToUpgrade r.name)
  let version ← upgradeVersion r.name r.package.version p o
  return (manifest.toPackage { r.package with version }, values)

/-- Upgrades the running release. -/
def upgrade (c : Lifecycle σ) (name : String) (p : Properties) (o : UpgradeOptions) :
    Call σ Release := do
  let current ← c.manager.info name
  if !current.isLive then throw (.noRelease name)
  let (package, values) ← Call.ofExcept (upgraded { current with name } p o)
  c.ensureUploaded package
  let r ← c.manager.upgrade
    { release := name, package := package.info.name, packageVersion := package.info.version
      values := values.text, force := o.force }
  c.reconcile name r.manifest
  return r

/-- Releases a version once more. -/
def rollback (c : Lifecycle σ) (name : String) (version : Nat) : Call σ Release := do
  let r ← c.manager.rollback name version
  c.reconcile name r.manifest
  return r

/-- Ends the running release and deletes its package. -/
def uninstall (c : Lifecycle σ) (name : String) : Call σ Release := do
  let r ← c.manager.delete name
  c.manager.deletePackage r.package.name
  return r

/-- The latest release, if there has been one. -/
def info (c : Lifecycle σ) (name : String) : Call σ (Option Release) :=
  tryCatch (do return some (← c.manager.info name)) fun e =>
    if e.isNoRelease then return none else throw e

end Lifecycle

end StreamPipeline
