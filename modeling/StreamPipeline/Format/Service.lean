import StreamPipeline.Configuration
import StreamPipeline.Deploy.Basic
import StreamPipeline.Event
import StreamPipeline.Json.Decode
import StreamPipeline.Json.Reader
import StreamPipeline.Timestamp

/-!
# Configurations, deployments and events in JSON

Every field of a configuration may be left out; the number of status queries at a time is then
what the machine suggests. An event that is kept elsewhere says when it was told.
-/

namespace StreamPipeline

open Json

/-! ### Configurations -/

/-- The logging in JSON. -/
def Logging.encoded (l : Logging) : Json :=
  .object [("filter", .string l.filter), ("json", .bool l.json)]

/-- Reads what is logged. -/
def Logging.decoder : Decoder Logging :=
  .record ["filter", "json"] fun r => do
    return { filter := ← r.withDefault "filter" "info" .text
             json := ← r.withDefault "json" false .bool }

namespace Configuration

/-- The number of status queries at a time is below this. -/
def slotBound : Nat := UInt64.size

/-- Reads a configuration, where `suggested` queries at a time are suggested. -/
def decoder (suggested : Nat) : Decoder Configuration :=
  .record ["poller_pool_size", "status_timeout_seconds", "default_platform", "default_repository",
      "default_package_version", "logging"] fun r => do
    return { slots := ← r.withDefault "poller_pool_size" suggested (.natBelow slotBound)
             timeout := ← r.withDefault "status_timeout_seconds" (.ofNat 10) .binary
             platform := ← r.withDefault "default_platform" "default" .text
             repository := ← r.withDefault "default_repository" "local" .text
             version := ← r.withDefault "default_package_version" "1.0.0" .text
             logging := ← r.withDefault "logging" {} Logging.decoder }

/-- Reads a configuration, and refuses one that makes no sense. -/
def ofText (suggested : Nat) (text : String) : Except Failure Configuration :=
  match (Json.ofText? text).bind (decoder suggested) with
  | some c => c.check
  | none => .error (.malformed .shape)

end Configuration

/-! ### Deployments and events -/

/-- The deployment in JSON. -/
def Deployment.json (d : Deployment) : Json :=
  .object [("release_version", .orNull (d.version.map .nat)), ("deployment_ids", .strings d.ids)]

/-- Reads a deployment. -/
def Deployment.decoder : Decoder Deployment :=
  .record ["release_version", "deployment_ids"] fun r => do
    return ⟨← r.optional "release_version" (.natBelow UInt32.size),
      ← r.required "deployment_ids" (.list .text)⟩

/-- An event and when it was told, in JSON. -/
def Event.datedJson (e : Event) (time : Timestamp) : Json :=
  .object [("event_type", .string e.type), ("pipeline", .string e.pipeline),
    ("timestamp", .string time.render), ("data", e.data)]

/-- Reads an event and when it was told. -/
def Event.datedDecoder : Decoder (Event × Timestamp) :=
  .record ["event_type", "pipeline", "timestamp", "data"] fun r => do
    let type ← r.required "event_type" .text
    let pipeline ← r.required "pipeline" .text
    let time ← r.required "timestamp" (Decoder.text.andThen Timestamp.ofText?)
    return ({ type, pipeline, data := ← r.required "data" .any }, time)

end StreamPipeline
