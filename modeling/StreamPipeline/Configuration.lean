import StreamPipeline.Poller
import StreamPipeline.Release.Package

/-!
# Configuration

What a service is told when it is set up, and what of it makes no sense (`check`).
-/

namespace StreamPipeline

/-- What is logged. -/
structure Logging where
  filter : String := "info"
  json : Bool := false
  deriving DecidableEq, Repr

/-- What a service is told when it is set up. -/
structure Configuration where
  /-- The number of status queries at a time. -/
  slots : Nat
  /-- The time for a status query in seconds. -/
  timeout : Binary64 := .ofNat 10
  /-- The platform where none is asked for. -/
  platform : String := "default"
  /-- The repository where none is asked for. -/
  repository : String := "local"
  /-- The package version where none is asked for. -/
  version : String := "1.0.0"
  logging : Logging := {}
  deriving DecidableEq, Repr

namespace Configuration

/-- Refuses a configuration that makes no sense. -/
def check (c : Configuration) : Except Failure Configuration := do
  if c.slots = 0 then throw (.broken .noSlots)
  if !(c.timeout.isFinite && c.timeout.isPositive) then
    throw (.broken (.timeout c.timeout.render))
  if (Text.trim c.platform).isEmpty then throw (.broken .blankPlatform)
  discard (checkVersion "config" c.version)
  return c

/-- The time for a status query. -/
def limit (c : Configuration) : Except Failure Duration :=
  match Duration.ofSeconds? c.timeout with
  | some d => .ok d
  | none => .error (.broken .outOfRange)

/-- The poller of a service. -/
def poller (c : Configuration) : Except Failure Poller := do
  return { slots := max c.slots 1, limit := ← c.limit }

/-- The poller of a service whose configuration makes sense. -/
def checkedPoller (c : Configuration) : Except Failure Poller := do
  let c ← c.check
  c.poller

/-- The packager of a service. -/
def packager (c : Configuration) : Packager := { version := c.version, repository := c.repository }

end Configuration

end StreamPipeline
