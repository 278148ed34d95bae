import StreamPipeline.Definition.Stage
import StreamPipeline.Failure

/-!
# Pipeline definitions

A definition is a name, a text, and stages in the order in which data passes them. Whoever makes a
definition has to keep to a shape (`checkShape`) and to distinct labels (`check`).
-/

namespace StreamPipeline

/-- A pipeline: named stages in the order in which data passes them. -/
structure Definition where
  name : String
  /-- The text that describes the pipeline. -/
  text : String
  stages : List Stage
  deriving DecidableEq

namespace Definition

/-- The most bytes that a name may have. -/
def longestName : Nat := 255

/-- Whether a character may stand in a name. -/
def isNameChar (c : Char) : Bool := c.isAlphanum || c == '_' || c == '-'

/-- Whether a text may be the name of a pipeline. -/
def isName (s : String) : Bool :=
  s.utf8ByteSize ≤ longestName &&
    match s.toList with
    | [] => false
    | c :: r => c.isAlpha && r.all isNameChar

/-- Refuses a name of another form, and a pipeline without stages. -/
def checkShape (name : String) (stages : List Stage) : Except Failure Unit :=
  if !isName name then .error (.invalid name .name)
  else if stages.isEmpty then .error (.invalid name .noStages)
  else .ok ()

/-- The first text that stood in the list before. -/
def firstRepeated? (seen : List String) : List String → Option String
  | [] => none
  | l :: r => if seen.contains l then some l else firstRepeated? (l :: seen) r

/-- Refuses stages of another shape, and a label that is used twice. -/
def check (d : Definition) : Except Failure Definition := do
  checkShape d.name d.stages
  match firstRepeated? [] (d.stages.map (·.label)) with
  | some l => .error (.invalid d.name (.duplicateLabel l))
  | none => .ok d

/-- The labels of the stages in order. -/
def labels (d : Definition) : List String := d.stages.map (·.label)

/-- The stage with a label. -/
def stage? (d : Definition) (label : String) : Option Stage := d.stages.find? (·.label == label)

/-- The pipeline as a text: its stages, with the destinations at its two ends. -/
def render (d : Definition) : String :=
  let start := match d.stages.head?.bind Stage.input? with
    | some dest => ":" ++ dest ++ " > "
    | none => ""
  let finish := match d.stages.getLast?.bind Stage.output? with
    | some dest => " > :" ++ dest
    | none => ""
  start ++ " | ".intercalate (d.stages.map Stage.render) ++ finish

/-- The definition with what configures some stages replaced, by label, and its text written
anew. -/
def withSettings (d : Definition) (updates : StringMap Settings) : Definition :=
  let stages := d.stages.map fun s =>
    match updates.get? s.label with
    | some settings => s.withSettings settings
    | none => s
  let d := { d with stages }
  { d with text := d.render }

end Definition

end StreamPipeline
