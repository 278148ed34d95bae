import StreamPipeline.SemVer
import StreamPipeline.Role

/-!
# Failures

Everything that an operation can refuse to do, by cause. `Failure.message` is the cause in words,
and `Failure.kind` sorts causes into the few kinds that a caller can act on.
-/

namespace StreamPipeline

/-- What can be looked up by name. -/
inductive Resource
  | pipeline
  | releaseVersion
  | platform
  | package
  deriving DecidableEq, Repr

namespace Resource

/-- Every resource. -/
def all : List Resource := [pipeline, releaseVersion, platform, package]

/-- The word for a resource in data. -/
def word : Resource → String
  | pipeline => "pipeline"
  | releaseVersion => "release_version"
  | platform => "platform"
  | package => "package"

/-- The resource as a message names it. -/
def text : Resource → String
  | releaseVersion => "release version"
  | r => r.word

/-- The resource that a word names. -/
def ofWord? (s : String) : Option Resource := all.find? (·.word == s)

end Resource

/-- Why an operation does not fit what is there. -/
inductive Conflict
  | duplicateName
  | alreadyDeployed
  | alreadyDeploying
  | nothingToUpgrade
  deriving DecidableEq, Repr

namespace Conflict

/-- Every conflict. -/
def all : List Conflict := [duplicateName, alreadyDeployed, alreadyDeploying, nothingToUpgrade]

/-- The word for a conflict. -/
def word : Conflict → String
  | duplicateName => "duplicate_name"
  | alreadyDeployed => "already_deployed"
  | alreadyDeploying => "already_deploying"
  | nothingToUpgrade => "nothing_to_upgrade"

/-- The conflict in words. -/
def text : Conflict → String
  | duplicateName => "a pipeline with this name already exists"
  | alreadyDeployed => "pipeline is already deployed"
  | alreadyDeploying => "pipeline is currently being deployed"
  | nothingToUpgrade => "upgrade would not change the deployed manifest"

/-- The conflict that a word names. -/
def ofWord? (s : String) : Option Conflict := all.find? (·.word == s)

end Conflict

/-- What is wrong with a pipeline or with what was said about it. -/
inductive Flaw
  /-- The name has a form that is not allowed. -/
  | name
  /-- There are no stages. -/
  | noStages
  /-- A label was asked for twice. -/
  | duplicateLabel (label : String)
  /-- No stage has a label that was named. -/
  | unknownLabel (label : String)
  /-- A partitioned consumer has an instance count that is no positive number. -/
  | count (label given : String)
  /-- A package version is no semantic version. -/
  | version (given : String) (fault : SemVer.Fault)
  | other (text : String)
  deriving DecidableEq, Repr

/-- The flaw in words. -/
def Flaw.text : Flaw → String
  | name => "name must match ^[a-zA-Z][a-zA-Z0-9_-]*$ and be at most 255 characters"
  | noStages => "a pipeline needs at least one stage"
  | duplicateLabel l => "duplicate stage label '" ++ l ++ "'"
  | unknownLabel l => "no stage labelled '" ++ l ++ "'"
  | count l given => "stage '" ++ l ++ "' has invalid count '" ++ given ++ "'"
  | version given fault => "invalid package version '" ++ given ++ "': " ++ fault.message
  | other t => t

/-- A stage whose app is not registered under its role. -/
structure Unregistered where
  label : String
  app : String
  role : String
  deriving DecidableEq, Repr

/-- Why data cannot be read or written. -/
inductive Malformed
  /-- The data does not have the form that it should have. -/
  | shape
  /-- The data has a form that a definition must not have. -/
  | definition (pipeline : String) (flaw : Flaw)
  /-- The package of a stage does not say which app it is, or in which role. -/
  | anonymousStage (package : String)
  | other (text : String)
  deriving DecidableEq, Repr

/-- What broke down. -/
inductive Breakdown
  /-- The platform did not start a stage. -/
  | launch (label : String)
  /-- No status may be queried at a time. -/
  | noSlots
  /-- The time for a query is not positive and finite; given is the time in words. -/
  | timeout (given : String)
  /-- The platform that is used by default has a blank name. -/
  | blankPlatform
  /-- A number left its range of 64 bits. -/
  | outOfRange
  | other (text : String)
  deriving DecidableEq, Repr

/-- The breakdown in words. -/
def Breakdown.text : Breakdown → String
  | launch l => "launch of '" ++ l ++ "' failed"
  | noSlots => "poller_pool_size must be at least 1"
  | timeout given => "status_timeout_seconds must be positive, got " ++ given
  | blankPlatform => "default_platform must not be empty"
  | outOfRange => "number out of range"
  | other t => t

/-- Why an operation failed. -/
inductive Failure
  | missing (resource : Resource) (name : String)
  | conflict (reason : Conflict) (name : String)
  | invalid (pipeline : String) (flaw : Flaw)
  /-- A stage with neither an input nor an output that is not the last one. -/
  | untyped (pipeline label : String)
  | unregistered (pipeline : String) (stages : List Unregistered)
  | unavailable (cause : String)
  | noRelease (name : String)
  | unsupported (deployer operation : String)
  | malformed (cause : Malformed)
  | broken (cause : Breakdown)
  deriving DecidableEq, Repr

/-- The kinds of failures. -/
inductive Failure.Kind
  | notFound
  | conflict
  | invalidDefinition
  | appNotRegistered
  | upstreamUnavailable
  | releaseNotFound
  | unsupported
  | serialization
  | internal
  deriving DecidableEq, Repr

namespace Failure

namespace Kind

/-- Every kind. -/
def all : List Kind :=
  [notFound, conflict, invalidDefinition, appNotRegistered, upstreamUnavailable, releaseNotFound,
    unsupported, serialization, internal]

/-- The word for a kind. -/
def word : Kind → String
  | notFound => "not_found"
  | conflict => "conflict"
  | invalidDefinition => "invalid_definition"
  | appNotRegistered => "app_not_registered"
  | upstreamUnavailable => "upstream_unavailable"
  | releaseNotFound => "release_not_found"
  | unsupported => "unsupported"
  | serialization => "serialization"
  | internal => "internal"

/-- The kind that a word names. -/
def ofWord? (s : String) : Option Kind := all.find? (·.word == s)

end Kind

/-- The kind of a failure. -/
def kind : Failure → Kind
  | missing .. => .notFound
  | conflict .. => .conflict
  | invalid .. => .invalidDefinition
  | untyped .. => .invalidDefinition
  | unregistered .. => .appNotRegistered
  | unavailable _ => .upstreamUnavailable
  | noRelease _ => .releaseNotFound
  | unsupported .. => .unsupported
  | malformed _ => .serialization
  | broken _ => .internal

/-- Whether there just is no release of that name. -/
def isNoRelease : Failure → Bool
  | noRelease _ => true
  | _ => false

/-- What is wrong with a pipeline, in words. -/
def invalidText (pipeline : String) (flaw : Flaw) : String :=
  "Invalid definition for '" ++ pipeline ++ "': " ++ flaw.text

/-- Why data cannot be read or written, in words. -/
def malformedText : Malformed → String
  | .shape => "malformed data"
  | .definition pipeline flaw => invalidText pipeline flaw
  | .anonymousStage name => "stage package '" ++ name ++ "' is missing its app name or role"
  | .other t => t

/-- The failure in words. -/
def message : Failure → String
  | missing resource name => "No " ++ resource.text ++ " named '" ++ name ++ "'"
  | conflict reason name => "Conflict on '" ++ name ++ "': " ++ reason.text
  | invalid pipeline flaw => invalidText pipeline flaw
  | untyped pipeline label =>
    "Stage '" ++ label ++ "' in pipeline '" ++ pipeline
      ++ "' has neither an input nor an output binding"
  | unregistered pipeline stages =>
    "Pipeline '" ++ pipeline ++ "' references unregistered apps: "
      ++ ", ".intercalate (stages.map fun s => s.role ++ ":" ++ s.app)
  | unavailable cause => "Release backend unavailable: " ++ cause
  | noRelease name => "Release not found: " ++ name
  | unsupported deployer operation =>
    "Operation '" ++ operation ++ "' is not supported by the " ++ deployer ++ " deployer"
  | malformed cause => "Serialization error: " ++ malformedText cause
  | broken cause => "Internal error: " ++ cause.text

end Failure

end StreamPipeline
