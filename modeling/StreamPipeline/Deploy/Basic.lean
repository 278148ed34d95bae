import StreamPipeline.Release.Lifecycle

/-!
# Deployers

A deployer brings the stages of a pipeline onto a platform and answers questions about them. There
are two: one that makes releases, and one that starts stages directly and keeps no history, so that
it refuses what needs one.
-/

namespace StreamPipeline

/-- What a deployment led to. -/
structure Deployment where
  /-- The version of the release, if one was made. -/
  version : Option Nat
  /-- The platform's names for the stages in order. -/
  ids : List String
  deriving DecidableEq, Repr

/-- What can be asked of a deployer. -/
structure Deployer (σ : Type) where
  kind : String
  /-- What the stages of a pipeline report. -/
  statuses : String → Call σ (List StageStatus)
  state : String → Call σ State
  deploy : Definition → List Request → Properties → Call σ Deployment
  /-- Stops the stages of a pipeline, if there are any. -/
  undeploy : String → Call σ Unit
  upgrade : String → Properties → UpgradeOptions → Call σ Release
  rollback : String → Nat → Call σ Release
  history : String → Call σ (List Release)
  manifest : String → Option Nat → Call σ Manifest
  info : String → Call σ (Option Release)
  platforms : Call σ (List Platform)

namespace Deployer

/-- The state that follows from what stages report. -/
def stateOf {σ : Type} (statuses : Call σ (List StageStatus)) : Call σ State :=
  tryCatch (do return (PipelineStatus.ofStages (← statuses)).state) fun e =>
    if e.isNoRelease then return .undeployed else throw e

end Deployer

/-- The deployer that makes releases. -/
def Lifecycle.deployer {σ : Type} (c : Lifecycle σ) : Deployer σ where
  kind := "release"
  statuses := c.manager.status
  state := c.state
  deploy d requests p := do
    let r ← c.install d requests p
    let ids ← tryCatch (do return (← c.manager.status d.name).map (·.id)) fun _ => return []
    return { version := some r.version, ids }
  undeploy name :=
    tryCatch (discard (c.uninstall name)) fun e => if e.isNoRelease then return else throw e
  upgrade := c.upgrade
  rollback := c.rollback
  history := c.manager.history
  manifest := c.manager.manifest
  info := c.info
  platforms := c.manager.platforms

end StreamPipeline
