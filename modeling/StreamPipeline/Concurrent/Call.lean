import StreamPipeline.Concurrent.Activity
import StreamPipeline.Concurrent.Part
import StreamPipeline.Failure

/-!
# Calls

A call is an activity that can fail. What a call does to a part of the state is given by a function
that has either a failure or a result with a new state, so a failing step changes nothing.
-/

namespace StreamPipeline

/-- An activity that can fail. -/
abbrev Call (σ : Type) := ExceptT Failure (Activity σ)

namespace Call

variable {σ τ α : Type}

/-- The activity of a call, whose result says whether it failed. -/
def outcome (c : Call σ α) : Activity σ (Except Failure α) := c

/-- The call with the result of an activity. -/
def ofOutcome (a : Activity σ (Except Failure α)) : Call σ α := a

/-- Passes on a result or a failure. -/
def ofExcept : Except Failure α → Call σ α
  | .ok a => pure a
  | .error e => throw e

/-- What the result of a function does to a state: nothing if there was a failure. -/
def apply (f : τ → Except Failure (α × τ)) (t : τ) : Except Failure α × τ :=
  match f t with
  | .ok (a, t) => (.ok a, t)
  | .error e => (.error e, t)

/-- A step that changes a part of the state unless it fails. -/
def update (part : Part σ τ) (f : τ → Except Failure (α × τ)) : Call σ α :=
  ofOutcome (Activity.step (part.lift (apply f)))

/-- A step that looks at a part of the state. -/
def query (part : Part σ τ) (f : τ → Except Failure α) : Call σ α :=
  ofOutcome (Activity.look fun s => f (part.get s))

/-- An activity that cannot fail as a call. -/
def ofActivity (a : Activity σ α) : Call σ α := ExceptT.lift a

end Call

end StreamPipeline
