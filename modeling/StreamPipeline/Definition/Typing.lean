import StreamPipeline.Definition.Basic

/-!
# The roles of a pipeline's stages

The role of a stage follows from its bindings and its place, counted from the end of the pipeline.
-/

namespace StreamPipeline

namespace Stage

/-- The role of a stage that `followers` stages follow, and that has others in front of it if
`isFollower`. Only the last stage may do without any binding. -/
def role (pipeline : String) (s : Stage) (followers : Nat) (isFollower : Bool) :
    Except Failure Role :=
  if followers = 0 then
    if s.hasOutput then .ok (if isFollower then .processor else .source) else .ok .sink
  else if !s.hasInput && !s.hasOutput then .error (.untyped pipeline s.label)
  else .ok (if isFollower || s.hasInput then .processor else .source)

/-- The roles of stages in order, where others stand in front of them if `isFollower`. -/
def roles (pipeline : String) (isFollower : Bool) : List Stage → Except Failure (List Role)
  | [] => .ok []
  | s :: r => do
    let role ← s.role pipeline r.length isFollower
    return role :: (← roles pipeline true r)

end Stage

/-- The roles of the stages in order; the first stage without a role is the one at fault. -/
def Definition.roles (d : Definition) : Except Failure (List Role) :=
  Stage.roles d.name false d.stages

end StreamPipeline
