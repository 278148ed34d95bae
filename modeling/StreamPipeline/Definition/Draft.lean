import StreamPipeline.Definition.Basic

/-!
# From a draft to a definition

A draft lists stages as they were asked for. `Draft.build` gives each a label of its own
(`assignLabels`) and connects each to the next (`wire`): where nothing else is said, a stage
publishes to a destination named after the pipeline and its label, and the next one consumes from
there in a group named after the pipeline.
-/

namespace StreamPipeline

/-- A pipeline as it was asked for. -/
structure Draft where
  name : String
  text : String := ""
  stages : List Stage := []
  /-- The destination from which the first stage is to consume. -/
  source : Option String := none
  /-- The destination to which the last stage is to publish. -/
  target : Option String := none

namespace Draft

/-! ### Labels -/

/-- The label of the `n`th stage of an app. -/
def numbered (app : String) (n : Nat) : String := app ++ "-" ++ Nat.repr n

/-- The least number from `n` on whose label is free, if there is one among the first `fuel`. -/
def freeNumber (used : List String) (app : String) : Nat → Nat → Nat
  | 0, n => n
  | fuel + 1, n =>
    if used.contains (numbered app n) then freeNumber used app fuel (n + 1) else n

/-- The label for another stage of an app: of the labels with a number from two on, the first that
is free. As many numbers as there are labels always suffice. -/
def freeLabel (used : List String) (app : String) : String :=
  numbered app (freeNumber used app used.length 2)

/-- Gives each stage a label that none before it has: the one that it asks for, or a free one if it
asks for none but its app's name. `used` are the labels that have been given. -/
def assignLabels (pipeline : String) (used : List String) :
    List Stage → Except Failure (List Stage)
  | [] => .ok []
  | s :: r => do
    if used.contains s.label then
      if s.label ≠ s.app then throw (.invalid pipeline (.duplicateLabel s.label))
      let label := freeLabel used s.app
      return { s with label } :: (← assignLabels pipeline (label :: used) r)
    else return s :: (← assignLabels pipeline (s.label :: used) r)

/-! ### Bindings -/

/-- The destination to which a stage publishes where nothing else is said. -/
def pipe (pipeline : String) (s : Stage) : String := pipeline ++ "." ++ s.label

/-- The stage as the next one behind a destination, unless it is bound already. -/
def consuming (pipeline : String) (dest : Option String) (s : Stage) : Stage :=
  match dest with
  | some dest => (s.setIfNew Binding.input dest).setIfNew Binding.group pipeline
  | none => s

/-- Connects each stage to the next; `dest` is the destination to which the stage before these
publishes. -/
def wire (pipeline : String) (dest : Option String) : List Stage → List Stage
  | [] => []
  | [s] => [consuming pipeline dest s]
  | s :: t :: r =>
    let s := (consuming pipeline dest s).setIfNew Binding.output (pipe pipeline s)
    s :: wire pipeline s.output? (t :: r)

/-- Makes the first stage consume from a destination. -/
def consumeFrom (pipeline : String) (source : Option String) : List Stage → List Stage
  | [] => []
  | s :: r =>
    match source with
    | some dest => (s.set Binding.input dest).setIfNew Binding.group pipeline :: r
    | none => s :: r

/-- Makes the last stage publish to a destination. -/
def publishTo (target : Option String) : List Stage → List Stage
  | [] => []
  | [s] =>
    match target with
    | some dest => [s.set Binding.output dest]
    | none => [s]
  | s :: r => s :: publishTo target r

/-- The definition that a draft asks for. -/
def build (d : Draft) : Except Failure Definition := do
  Definition.checkShape d.name d.stages
  let stages ← assignLabels d.name [] d.stages
  return { name := d.name, text := d.text
           stages := publishTo d.target (consumeFrom d.name d.source (wire d.name none stages)) }

end Draft

end StreamPipeline
