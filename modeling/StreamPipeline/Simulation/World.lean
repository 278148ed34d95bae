import StreamPipeline.Configuration
import StreamPipeline.Deploy.Direct
import StreamPipeline.Service
import StreamPipeline.Simulation.CallLog
import StreamPipeline.Simulation.Disturbance

/-!
# A world to work in

A world holds all that services work on: definitions, releases, started stages, locks, events, and
what watches and disturbs them. `releaseService` makes releases in it, `directService` starts
stages in it.
-/

namespace StreamPipeline

/-- All that services work on. -/
structure World where
  definitions : Definitions := ∅
  ledger : Ledger := {}
  launches : Launches := {}
  tracked : Tracked := ∅
  locks : LockTable := {}
  events : List Event := []
  calls : CallLog := {}
  disturbance : Disturbance := {}

namespace World

/-! ### Parts -/

/-- The definitions of a world. -/
def definitionsPart : Part World Definitions :=
  ⟨definitions, fun t w => { w with definitions := t }⟩

/-- The releases of a world. -/
def ledgerPart : Part World Ledger := ⟨ledger, fun t w => { w with ledger := t }⟩

/-- The stages that were started in a world. -/
def launchesPart : Part World Launches := ⟨launches, fun t w => { w with launches := t }⟩

/-- The started stages of a world, by their pipelines. -/
def trackedPart : Part World Tracked := ⟨tracked, fun t w => { w with tracked := t }⟩

/-- The locks of a world. -/
def locksPart : Part World LockTable := ⟨locks, fun t w => { w with locks := t }⟩

/-- The events in a world. -/
def eventsPart : Part World (List Event) := ⟨events, fun t w => { w with events := t }⟩

/-- The calls that were watched in a world. -/
def callsPart : Part World CallLog := ⟨calls, fun t w => { w with calls := t }⟩

/-- What disturbs the releases of a world. -/
def disturbancePart : Part World Disturbance :=
  ⟨disturbance, fun t w => { w with disturbance := t }⟩

/-! ### Services -/

/-- The store of the world's definitions. -/
def store : Store World := (Store.inMemory definitionsPart).watched callsPart

/-- The manager of the world's releases. -/
def manager : Manager World :=
  ((Manager.ofLedger ledgerPart).disturbed disturbancePart).watched callsPart

/-- The lifecycle of the world's releases. -/
def lifecycle (c : Configuration) : Lifecycle World :=
  { manager, store, packager := c.packager, platform := c.platform }

/-- The service that makes releases. -/
def releaseService (c : Configuration) (poller : Poller) (registry : Registry) : Service World :=
  { store, registry, deployer := (lifecycle c).deployer, poller, locks := locksPart
    events := eventsPart }

/-- What starts stages directly in a world. -/
def direct : Direct World := { launcher := .inMemory launchesPart, tracked := trackedPart }

/-- The service that starts stages. -/
def directService (poller : Poller) (registry : Registry) : Service World :=
  { store, registry, deployer := direct.deployer, poller, locks := locksPart
    events := eventsPart }

end World

end StreamPipeline
