import StreamPipeline.Json.Decode
import StreamPipeline.Status

/-!
# Status and failures in JSON

How states, reports, platforms and failures are written in JSON and read back.
-/

namespace StreamPipeline

open Json

/-- Reads a state. -/
def Json.Decoder.state : Decoder State := .word State.ofWord?

/-- The platform in JSON. -/
def Platform.json (p : Platform) : Json :=
  .object [("name", .string p.name), ("kind", .string p.kind),
    ("description", .string p.description)]

/-- Reads a platform. -/
def Platform.decoder : Decoder Platform :=
  .record ["name", "kind", "description"] fun r => do
    return ⟨← r.required "name" .text, ← r.required "kind" .text, ← r.required "description" .text⟩

/-- The report of a stage in JSON. -/
def StageStatus.json (s : StageStatus) : Json :=
  .object [("label", .string s.label), ("deployment_id", .string s.id),
    ("state", .string s.state.word)]

/-- Reads the report of a stage. -/
def StageStatus.decoder : Decoder StageStatus :=
  .record ["label", "deployment_id", "state"] fun r => do
    return ⟨← r.required "label" .text, ← r.required "deployment_id" .text,
      ← r.required "state" .state⟩

/-- The status of a pipeline in JSON. -/
def PipelineStatus.json (s : PipelineStatus) : Json :=
  .record [("state", some (.string s.state.word)),
    ("stages", some (.array (s.stages.map (·.json)))), ("error", s.error.map .string)]

/-- Reads the status of a pipeline. -/
def PipelineStatus.decoder : Decoder PipelineStatus :=
  .record ["state", "stages", "error"] fun r => do
    return { state := ← r.required "state" .state
             stages := ← r.required "stages" (.list StageStatus.decoder)
             error := ← r.withDefault "error" none Decoder.text.optional }

/-- The stage whose app is not registered, in JSON. -/
def Unregistered.json (u : Unregistered) : Json :=
  .object [("label", .string u.label), ("app_name", .string u.app), ("role", .string u.role)]

/-- Reads a stage whose app is not registered. -/
def Unregistered.decoder : Decoder Unregistered :=
  .record ["label", "app_name", "role"] fun r => do
    return ⟨← r.required "label" .text, ← r.required "app_name" .text, ← r.required "role" .text⟩

namespace Failure

/-- What else is known about a failure than its kind and its message. -/
def details : Failure → List (String × Json)
  | missing resource name => [("resource", .string resource.text), ("name", .string name)]
  | conflict reason name => [("reason", .string reason.word), ("name", .string name)]
  | untyped _ label => [("stage", .string label)]
  | unregistered _ stages =>
    [("unresolved", .array (stages.map fun s =>
      .object [("label", .string s.label), ("app", .string s.app), ("role", .string s.role)]))]
  | _ => []

/-- All that is known about a failure. -/
def json (e : Failure) : Json :=
  .object (("type", .string e.kind.word) :: ("message", .string e.message) :: e.details)

end Failure

end StreamPipeline
