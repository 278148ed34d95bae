import StreamPipeline.Release.Manager

/-!
# Disturbed release managers

A release manager can be made slow to install and to report, and unable to report about some
releases. What it is asked of these is counted.
-/

namespace StreamPipeline

/-- What disturbs a release manager, and how often it was asked. -/
structure Disturbance where
  /-- The releases about which nothing can be learnt. -/
  unavailable : List String := []
  /-- How long a report takes, in milliseconds. -/
  statusDelay : Option Nat := none
  /-- How long an installation takes, in milliseconds. -/
  installDelay : Option Nat := none
  /-- The number of reports that were asked for. -/
  statuses : Nat := 0
  /-- The number of installations that were asked for. -/
  installs : Nat := 0

variable {σ : Type}

/-- A pause, if there is to be one. -/
def pauseIfAny (delay : Option Nat) : Activity σ Unit := delay.elim (return) Activity.pause

/-- The release manager with what disturbs it. -/
def Manager.disturbed (m : Manager σ) (part : Part σ Disturbance) : Manager σ :=
  { m with
    install := fun i => do
      Call.ofActivity do
        let delay ← Activity.step (part.lift fun d =>
          (d.installDelay, { d with installs := d.installs + 1 }))
        pauseIfAny delay
      m.install i
    status := fun name => do
      let isDown ← Call.ofActivity do
        let delay ← Activity.step (part.lift fun d =>
          (d.statusDelay, { d with statuses := d.statuses + 1 }))
        pauseIfAny delay
        Activity.look fun s => (part.get s).unavailable.contains name
      if isDown then throw (.unavailable ("status of '" ++ name ++ "'"))
      m.status name }

end StreamPipeline
