import StreamPipeline.Json.Value

/-!
# Events

What happens to pipelines is told in events, each with a type, the name of the pipeline, and data.
-/

namespace StreamPipeline

/-- What happened to a pipeline. -/
structure Event where
  type : String
  pipeline : String
  /-- What is told besides, an object unless it was given otherwise. -/
  data : Json := .object []

namespace Event

/-- The event with another field of data. -/
def set (e : Event) (name : String) (v : Json) : Event := { e with data := e.data.set name v }

/-- A field of the data. -/
def get? (e : Event) (name : String) : Option Json := e.data.get? name

/-- Whether the type of an event starts in a way. -/
def typeStarts (start : String) (e : Event) : Bool := start.toList.isPrefixOf e.type.toList

/-! ### The events of a service -/

/-- A deployment was asked for. -/
def deployRequested (name : String) (stages : Nat) : Event :=
  ({ type := "stream.deploy.requested", pipeline := name } : Event).set "stages" (.nat stages)

/-- A pipeline was deployed. -/
def deployed (name deployer : String) (version : Option Nat) (ids : List String) : Event :=
  ((({ type := "stream.deployed", pipeline := name } : Event).set "deployer" (.string deployer)).set
    "release_version" (.orNull (version.map .nat))).set "deployment_ids" (.strings ids)

/-- A deployment failed. -/
def deployFailed (name kind message : String) : Event :=
  (({ type := "stream.deploy.failed", pipeline := name } : Event).set "error_type"
    (.string kind)).set "error" (.string message)

/-- A pipeline was undeployed. -/
def undeployed (name : String) : Event := { type := "stream.undeployed", pipeline := name }

/-- A pipeline was upgraded to a new release. -/
def upgraded (name : String) (version : Nat) (packageVersion : String) : Event :=
  (({ type := "stream.upgraded", pipeline := name } : Event).set "release_version"
    (.nat version)).set "package_version" (.string packageVersion)

/-- An earlier release of a pipeline was released once more. -/
def rolledBack (name : String) (version requested : Nat) : Event :=
  (({ type := "stream.rolled_back", pipeline := name } : Event).set "release_version"
    (.nat version)).set "requested_version" (.nat requested)

end Event

end StreamPipeline
