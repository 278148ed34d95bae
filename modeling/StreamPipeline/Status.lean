import StreamPipeline.State

/-!
# Reported status

What a platform reports about the stages of a pipeline, and what that says about the pipeline.
-/

namespace StreamPipeline

/-- A platform on which pipelines run. -/
structure Platform where
  name : String
  kind : String
  description : String
  deriving DecidableEq, Repr

/-- What a platform reports about a stage. -/
structure StageStatus where
  label : String
  /-- The platform's name for what it runs. -/
  id : String
  state : State
  deriving DecidableEq, Repr

/-- What is known about a pipeline. -/
structure PipelineStatus where
  state : State
  stages : List StageStatus := []
  /-- Why nothing is known, if so. -/
  error : Option String := none
  deriving DecidableEq, Repr

namespace PipelineStatus

/-- The status of a pipeline of which nothing is deployed. -/
def undeployed : PipelineStatus := { state := .undeployed }

/-- The status that follows from reports; where there are none, nothing is deployed. -/
def ofStages (stages : List StageStatus) : PipelineStatus :=
  { state := if stages.isEmpty then .undeployed else State.aggregate (stages.map (·.state))
    stages }

/-- The status of a pipeline about which nothing could be learnt. -/
def noData (error : String) : PipelineStatus :=
  { state := State.aggregate [.unknown], error := some error }

/-- The status that follows from the answer to a query; without a release nothing is deployed. -/
def ofResult : Except Failure (List StageStatus) → PipelineStatus
  | .ok stages => ofStages stages
  | .error (.noRelease _) => undeployed
  | .error e => noData e.message

end PipelineStatus

end StreamPipeline
