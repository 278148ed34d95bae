import StreamPipeline.Definition.Typing
import StreamPipeline.Partition
import StreamPipeline.Properties
import StreamPipeline.Registry

/-!
# Deployment requests

A request holds all that is needed to start one stage. `Request.build` makes the requests of a
pipeline, all of them or none: it gives the stages their roles, resolves what is said about them at
deployment, tells partitioned consumers, and looks up the artifacts.
-/

namespace StreamPipeline

/-- All that is needed to start a stage. -/
structure Request where
  stage : Stage
  role : Role
  coordinate : Coordinate
  /-- What configures the app over the stage's own properties. -/
  app : Settings := ∅
  deployer : Settings := ∅
  /-- The version to which the artifact is pinned. -/
  pinned : Option String := none
  deriving DecidableEq

namespace Request

/-- The label of the stage. -/
def label (r : Request) : String := r.stage.label

/-- All that the app is told: the stage's own properties and over them those of the deployment. -/
def settings (r : Request) : Settings := r.stage.properties.overlay r.app

/-- The stages of a pipeline with what is said about each. -/
def resolve (d : Definition) (p : Properties) : List ResolvedStage :=
  d.stages.map fun s => ⟨s, p.forStage .app s.label, p.forStage .deployer s.label⟩

/-- The request for a stage in its role, unless its app is not registered in that role. -/
def ofStage (registry : Registry) (p : Properties) (s : ResolvedStage) (role : Role) :
    Except Unregistered Request :=
  match registry.find? s.stage.app role with
  | none => .error ⟨s.stage.label, s.stage.app, role.word⟩
  | some c =>
    let pinned := p.pinned? s.stage.label
    .ok { stage := s.stage, role, coordinate := pinned.elim c c.pin
          app := s.app, deployer := s.deployer, pinned }

/-- What succeeded, if nothing failed. -/
def collect {ε α : Type} (l : List (Except ε α)) : List α × List ε :=
  l.foldr (fun x (as, es) => match x with
    | .ok a => (a :: as, es)
    | .error e => (as, e :: es)) ([], [])

/-- The requests of a pipeline's stages in order. -/
def build (registry : Registry) (d : Definition) (p : Properties) :
    Except Failure (List Request) := do
  let roles ← d.roles
  let stages ← ResolvedStage.propagated d.name (resolve d p)
  match collect (List.zipWith (ofStage registry p) stages roles) with
  | (requests, []) => return requests
  | (_, unregistered) => throw (.unregistered d.name unregistered)

end Request

end StreamPipeline
