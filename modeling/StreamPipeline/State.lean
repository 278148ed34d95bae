import StreamPipeline.Failure

/-!
# Lifecycle states

Stages report one of seven states. `aggregate` reduces the states of a pipeline's stages to the
state of the pipeline, and `checkDeployable` says from which of those a deploy may start.
-/

namespace StreamPipeline

/-- The state of a stage or of a whole pipeline. -/
inductive State
  /-- The platform knows nothing. -/
  | unknown
  | deploying
  | deployed
  | failed
  | error
  /-- Some stages are deployed and some are not. -/
  | partially
  | undeployed
  deriving DecidableEq, Repr

namespace State

/-- Every state. -/
def all : List State := [unknown, deploying, deployed, failed, error, partially, undeployed]

/-- The word for a state. -/
def word : State → String
  | unknown => "unknown"
  | deploying => "deploying"
  | deployed => "deployed"
  | failed => "failed"
  | error => "error"
  | partially => "partial"
  | undeployed => "undeployed"

/-- The state that a word names. -/
def ofWord? (s : String) : Option State := all.find? (·.word == s)

/-- Whether a deploy may start from this state of a pipeline. -/
def allowsDeploy (s : State) : Bool := s == undeployed || s == unknown

/-- Whether stages are running in this state. -/
def isActive (s : State) : Bool := s == deploying || s == deployed || s == partially

/-- The state of a pipeline whose stages report `states`: the one that all report, where unknown
counts as undeployed; of several the gravest. Where nothing is reported, something is wrong. -/
def aggregate (states : List State) : State :=
  match states.eraseDups with
  | [unknown] => undeployed
  | [s] => s
  | distinct =>
    if distinct.isEmpty || distinct.contains error then error
    else if distinct.contains failed then failed
    else if distinct.contains deploying then deploying
    else partially

/-- Refuses a deploy of the pipeline `name` unless its state allows one. -/
def checkDeployable (name : String) (s : State) : Except Failure Unit :=
  if s.allowsDeploy then .ok ()
  else if s = deploying then .error (.conflict .alreadyDeploying name)
  else .error (.conflict .alreadyDeployed name)

end State

end StreamPipeline
