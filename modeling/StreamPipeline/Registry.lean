import StreamPipeline.Coordinate
import StreamPipeline.Role
import StreamPipeline.StringMap

/-!
# Registered apps

Under an app's name the registry knows one artifact for each role.
-/

namespace StreamPipeline

/-- The artifacts of apps by name and role. -/
structure Registry where
  sources : StringMap Coordinate := ∅
  processors : StringMap Coordinate := ∅
  sinks : StringMap Coordinate := ∅
  deriving DecidableEq

namespace Registry

/-- The apps that are registered under a role. -/
def apps (r : Registry) : Role → StringMap Coordinate
  | .source => r.sources
  | .processor => r.processors
  | .sink => r.sinks

/-- The registry with other apps under a role. -/
def setApps (r : Registry) (role : Role) (m : StringMap Coordinate) : Registry :=
  match role with
  | .source => { r with sources := m }
  | .processor => { r with processors := m }
  | .sink => { r with sinks := m }

/-- The artifact of an app in a role. -/
def find? (r : Registry) (app : String) (role : Role) : Option Coordinate := (r.apps role).get? app

/-- The registry with an artifact for an app in a role. -/
def register (r : Registry) (app : String) (role : Role) (c : Coordinate) : Registry :=
  r.setApps role ((r.apps role).insert app c)

/-- The registry without the artifact of an app in a role. -/
def unregister (r : Registry) (app : String) (role : Role) : Registry :=
  r.setApps role ((r.apps role).erase app)

/-- The number of artifacts. -/
def size (r : Registry) : Nat := r.sources.size + r.processors.size + r.sinks.size

end Registry

end StreamPipeline
