import StreamPipeline.Json.Decode
import StreamPipeline.Request

/-!
# Definitions in JSON

How stages, definitions, artifacts and requests are written in JSON and read back. A definition
that is read has to meet the same demands as one that is built, but keeps its labels and bindings
as they are given.
-/

namespace StreamPipeline

namespace Json

/-- A map of texts. -/
def ofTexts (m : StringMap String) : Json := .object (m.toList.map fun e => (e.1, .string e.2))

/-- A map from texts. -/
def ofMap {α : Type} (m : StringMap α) (f : α → Json) : Json :=
  .object (m.toList.map fun e => (e.1, f e.2))

/-- Reads a map of texts. -/
def Decoder.texts : Decoder (StringMap String) := Decoder.map Decoder.text

/-- Reads a role. -/
def Decoder.role : Decoder Role := Decoder.word Role.ofWord?

end Json

open Json

/-! ### Stages and definitions -/

/-- The stage in JSON. -/
def Stage.json (s : Stage) : Json :=
  .object [("label", .string s.label), ("app_name", .string s.app),
    ("properties", .ofTexts s.properties)]

/-- Reads a stage. -/
def Stage.decoder : Decoder Stage :=
  .record ["label", "app_name", "properties"] fun r => do
    return { label := ← r.required "label" .text, app := ← r.required "app_name" .text
             properties := ← r.withDefault "properties" ∅ .texts }

/-- The definition in JSON. -/
def Definition.json (d : Definition) : Json :=
  .object [("name", .string d.name), ("dsl_text", .string d.text),
    ("stages", .array (d.stages.map Stage.json))]

/-- Reads a definition without asking what it says. -/
def Definition.rawDecoder : Decoder Definition :=
  .record ["name", "dsl_text", "stages"] fun r => do
    return { name := ← r.required "name" .text, text := ← r.required "dsl_text" .text
             stages := ← r.withDefault "stages" [] (.list Stage.decoder) }

/-- Reads a definition. -/
def Definition.ofJson (v : Json) : Except Failure Definition :=
  match rawDecoder v with
  | none => .error (.malformed .shape)
  | some d =>
    match d.check with
    | .error (.invalid name flaw) => .error (.malformed (.definition name flaw))
    | r => r

/-! ### Artifacts and requests -/

/-- The artifact in JSON. -/
def Coordinate.json (c : Coordinate) : Json :=
  .object [("name", .string c.name), ("kind", .string c.kind), ("version", .string c.version),
    ("locator", .string c.locator)]

/-- Reads an artifact. -/
def Coordinate.decoder : Decoder Coordinate :=
  .record ["name", "kind", "version", "locator"] fun r => do
    return ⟨← r.required "name" .text, ← r.required "kind" .text, ← r.required "version" .text,
      ← r.required "locator" .text⟩

/-- The request in JSON. -/
def Request.json (r : Request) : Json :=
  .object [("stage", r.stage.json), ("role", .string r.role.word),
    ("coordinate", r.coordinate.json), ("app_properties", .ofTexts r.app),
    ("deployer_properties", .ofTexts r.deployer),
    ("version_override", .orNull (r.pinned.map .string))]

/-- Reads a request. -/
def Request.decoder : Decoder Request :=
  .record ["stage", "role", "coordinate", "app_properties", "deployer_properties",
      "version_override"] fun r => do
    return { stage := ← r.required "stage" Stage.decoder, role := ← r.required "role" .role
             coordinate := ← r.required "coordinate" Coordinate.decoder
             app := ← r.required "app_properties" .texts
             deployer := ← r.required "deployer_properties" .texts
             pinned := ← r.optional "version_override" .text }

end StreamPipeline
