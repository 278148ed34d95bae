import StreamPipeline.Concurrent.LockTable
import StreamPipeline.Deploy.Basic
import StreamPipeline.Event
import StreamPipeline.Poller

/-!
# The service

A service keeps definitions of pipelines and deploys, updates, rolls back and removes them. What
changes a pipeline happens under the lock of its name, so that of two deployments at once the
second one finds what the first one left. Every change is told in an event.
-/

namespace StreamPipeline

/-- A store, a deployer, and what a service needs besides. -/
structure Service (σ : Type) where
  store : Store σ
  registry : Registry
  deployer : Deployer σ
  poller : Poller
  locks : Part σ LockTable
  /-- Where events are told. -/
  events : Part σ (List Event)

namespace Service

variable {σ : Type}

/-- Tells an event. -/
def emit (v : Service σ) (e : Event) : Call σ Unit :=
  Call.ofActivity (Activity.change (v.events.modify (· ++ [e])))

/-- A call under the lock of a name. -/
def locked {α : Type} (v : Service σ) (name : String) (c : Call σ α) : Call σ α :=
  Call.ofOutcome (LockTable.holding v.locks name c.outcome)

/-! ### Definitions -/

/-- Stores a definition under a name that is free. -/
def create (v : Service σ) (d : Definition) : Call σ Unit := v.store.save d

/-- The definition of a pipeline. -/
def definition (v : Service σ) (name : String) : Call σ Definition := do
  match ← v.store.find name with
  | some d => return d
  | none => throw (.missing .pipeline name)

/-- All definitions by name. -/
def definitions (v : Service σ) : Call σ (List Definition) := v.store.findAll

/-- Undeploys a pipeline where that is needed, and removes its definition. -/
def delete (v : Service σ) (name : String) : Call σ Definition :=
  v.locked name do
    discard (v.definition name)
    if (← v.deployer.state name) ≠ .undeployed then
      v.deployer.undeploy name
      v.emit (.undeployed name)
    match ← v.store.delete name with
    | some d => return d
    | none => throw (.missing .pipeline name)

/-! ### Deployment -/

/-- Deploys a definition where its state allows that. -/
def deployDefinition (v : Service σ) (d : Definition) (p : Properties) : Call σ Deployment := do
  Call.ofExcept (State.checkDeployable d.name (← v.deployer.state d.name))
  let requests ← Call.ofExcept (Request.build v.registry d p)
  v.deployer.deploy d requests p

/-- Deploys a pipeline. -/
def deploy (v : Service σ) (name : String) (p : Properties) : Call σ Deployment :=
  v.locked name do
    let d ← v.definition name
    v.emit (.deployRequested name d.stages.length)
    let r ← tryCatch (v.deployDefinition d p) fun e => do
      v.emit (.deployFailed name e.kind.word e.message)
      throw e
    v.emit (.deployed name v.deployer.kind r.version r.ids)
    return r

/-- Undeploys a pipeline. -/
def undeploy (v : Service σ) (name : String) : Call σ Unit :=
  v.locked name do
    discard (v.definition name)
    v.deployer.undeploy name
    v.emit (.undeployed name)

/-- Updates a pipeline that is deployed. -/
def update (v : Service σ) (name : String) (p : Properties) (o : UpgradeOptions) :
    Call σ Release :=
  v.locked name do
    discard (v.definition name)
    let r ← v.deployer.upgrade name p o
    v.emit (.upgraded name r.version r.package.version)
    return r

/-- Releases a version of a pipeline once more; zero stands for the one before the latest. -/
def rollback (v : Service σ) (name : String) (version : Nat) : Call σ Release :=
  v.locked name do
    discard (v.definition name)
    let r ← v.deployer.rollback name version
    v.emit (.rolledBack name r.version version)
    return r

/-! ### Questions -/

/-- What is known about pipelines. -/
def state (v : Service σ) (names : List String) : Call σ (StringMap PipelineStatus) :=
  Call.ofActivity (v.poller.poll
    (fun name => do return .answered (← (v.deployer.statuses name).outcome)) names)

/-- What is known about all pipelines. -/
def stateAll (v : Service σ) : Call σ (StringMap PipelineStatus) := do
  v.state ((← v.store.findAll).map (·.name))

/-- The releases of a pipeline, the latest first. -/
def history (v : Service σ) (name : String) : Call σ (List Release) := v.deployer.history name

/-- What a release of a pipeline runs. -/
def manifest (v : Service σ) (name : String) (version : Option Nat) : Call σ Manifest :=
  v.deployer.manifest name version

/-- The latest release of a pipeline. -/
def info (v : Service σ) (name : String) : Call σ (Option Release) := v.deployer.info name

/-- The platforms on which can be deployed. -/
def platforms (v : Service σ) : Call σ (List Platform) := v.deployer.platforms

end Service

end StreamPipeline
