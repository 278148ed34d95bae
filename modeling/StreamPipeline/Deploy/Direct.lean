import StreamPipeline.Deploy.Basic
import StreamPipeline.Deploy.Launcher

/-!
# Direct deployment

Stages are started one by one in order. From the start of a deployment on, all of its stages are
tracked, so that a pipeline of which some stages are not yet running is seen to be deploying. If a
stage fails to start, those that are running stay tracked.
-/

namespace StreamPipeline

/-- A stage of a direct deployment. -/
structure TrackedStage where
  label : String
  /-- The platform's name for the stage, once it is running. -/
  id : Option String := none
  deriving DecidableEq, Repr

/-- The stages of direct deployments, by pipeline. -/
abbrev Tracked := StringMap (List TrackedStage)

namespace Tracked

/-- Tracks the stages of a deployment that is about to start. -/
def begin (t : Tracked) (name : String) (requests : List Request) : Tracked :=
  t.insert name (requests.map fun r => ⟨r.label, none⟩)

/-- Notes the name of the stage at a position. -/
def started (t : Tracked) (name : String) (position : Nat) (id : String) : Tracked :=
  match t.get? name with
  | some stages => t.insert name (stages.modify position ({ · with id := some id }))
  | none => t

/-- Gives up on what is not running. -/
def giveUp (t : Tracked) (name : String) : Tracked :=
  match t.get? name with
  | some stages =>
    let running := stages.filter (·.id.isSome)
    if running.isEmpty then t.erase name else t.insert name running
  | none => t

end Tracked

/-- A launcher with the part of the state in which deployments are tracked. -/
structure Direct (σ : Type) where
  launcher : Launcher σ
  tracked : Part σ Tracked

namespace Direct

variable {σ : Type}

/-- What a tracked stage reports; one that is not yet running is deploying. -/
def stageStatus (c : Direct σ) (s : TrackedStage) : Call σ StageStatus :=
  match s.id with
  | some id => do return ⟨s.label, id, ← c.launcher.status id⟩
  | none => return ⟨s.label, "", .deploying⟩

/-- What the stages of a pipeline report. -/
def statuses (c : Direct σ) (name : String) : Call σ (List StageStatus) := do
  match ← Call.ofActivity (Activity.look fun s => (c.tracked.get s).get? name) with
  | some stages => stages.mapM c.stageStatus
  | none => throw (.noRelease name)

/-- Starts stages one by one; `position` is the place of the first of them. -/
def launchFrom (c : Direct σ) (name : String) (position : Nat) :
    List Request → Call σ (List String)
  | [] => return []
  | r :: rs => do
    let id ← tryCatch (c.launcher.launch r) fun e => do
      Call.ofActivity (Activity.change (c.tracked.modify (·.giveUp name)))
      throw e
    Call.ofActivity (Activity.change (c.tracked.modify (·.started name position id)))
    return id :: (← c.launchFrom name (position + 1) rs)

/-- Deploys a pipeline with these requests. -/
def deploy (c : Direct σ) (d : Definition) (requests : List Request) : Call σ Deployment := do
  Call.ofExcept (State.checkDeployable d.name (← Deployer.stateOf (c.statuses d.name)))
  Call.ofActivity (Activity.change (c.tracked.modify (·.begin d.name requests)))
  return { version := none, ids := ← c.launchFrom d.name 0 requests }

/-- Stops the stages of a pipeline, the last one first. -/
def undeploy (c : Direct σ) (name : String) : Call σ Unit := do
  match ← Call.ofActivity (Activity.look fun s => (c.tracked.get s).get? name) with
  | some stages =>
    Call.ofActivity (Activity.change (c.tracked.modify (·.erase name)))
    (stages.reverse.filterMap (·.id)).forM c.launcher.stop
  | none => return

/-- What a direct deployer refuses. -/
def refuse {α : Type} (operation : String) : Call σ α := throw (.unsupported "direct" operation)

/-- The deployer that starts stages directly. -/
def deployer (c : Direct σ) : Deployer σ where
  kind := "direct"
  statuses := c.statuses
  state name := Deployer.stateOf (c.statuses name)
  deploy d requests _ := c.deploy d requests
  undeploy := c.undeploy
  upgrade _ _ _ := refuse "upgrade"
  rollback _ _ := refuse "rollback"
  history _ := refuse "history"
  manifest _ _ := refuse "manifest"
  info _ := refuse "info"
  platforms := return [c.launcher.platform]

end Direct

end StreamPipeline
