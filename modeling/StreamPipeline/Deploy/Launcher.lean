import StreamPipeline.Concurrent.Call
import StreamPipeline.Request
import StreamPipeline.Status

/-!
# Launchers

A launcher starts single stages on a platform. What it offers is a `Launcher`, whatever is behind
it; `Launcher.inMemory` keeps what it started in a part of the state, counts, and can be told to
fail.
-/

namespace StreamPipeline

/-- What can be asked of a launcher. -/
structure Launcher (σ : Type) where
  platform : Platform
  /-- Starts a stage and gives the platform's name for it. -/
  launch : Request → Call σ String
  /-- Stops a stage. -/
  stop : String → Call σ Unit
  status : String → Call σ State

/-- A stage that has been started. -/
structure Launch where
  id : String
  label : String
  deriving DecidableEq, Repr

/-- What was done about a stage. -/
inductive LaunchEvent
  | launched (id : String)
  | stopped (id : String)
  deriving DecidableEq, Repr

/-- What a launcher has started. -/
structure Launches where
  /-- All that has been started, the latest first. -/
  started : List Launch := []
  /-- What is running, and its state. -/
  running : StringMap State := ∅
  /-- What was done, the latest first. -/
  log : List LaunchEvent := []
  /-- How long a start takes, in milliseconds. -/
  delay : Option Nat := none
  /-- The labels of stages that fail to start. -/
  failingLaunch : List String := []
  /-- The labels of stages whose state cannot be learnt. -/
  failingStatus : List String := []
  /-- The labels of stages that fail to stop. -/
  failingStop : List String := []

namespace Launches

/-- The label of what was started under a name. -/
def label? (l : Launches) (id : String) : Option String :=
  (l.started.find? (·.id == id)).map (·.label)

/-- Whether a label is among those that fail. -/
def fails (l : Launches) (failing : List String) (id : String) : Option String :=
  (l.label? id).filter (failing.contains ·)

/-- Starts a stage, whose name is its label with a number that counts starts. -/
def launch (l : Launches) (label : String) : Except Failure (String × Launches) :=
  if l.failingLaunch.contains label then .error (.broken (.launch label))
  else
    let id := label ++ "-" ++ Nat.repr (l.started.length + 1)
    .ok (id, { l with started := ⟨id, label⟩ :: l.started
                      running := l.running.insert id .deployed
                      log := .launched id :: l.log })

/-- Stops a stage; the attempt is noted also where it fails. -/
def stop (l : Launches) (id : String) : Except Failure Unit × Launches :=
  let l := { l with log := .stopped id :: l.log }
  match l.fails l.failingStop id with
  | some label => (.error (.unavailable ("undeploy of '" ++ label ++ "'")), l)
  | none => (.ok (), { l with running := l.running.erase id })

/-- The state of a stage; what is not running is undeployed. -/
def status (l : Launches) (id : String) : Except Failure State :=
  match l.fails l.failingStatus id with
  | some label => .error (.unavailable ("status of '" ++ label ++ "'"))
  | none => .ok ((l.running.get? id).getD .undeployed)

/-- Makes all running stages with a label report a state. -/
def setState (l : Launches) (label : String) (s : State) : Launches :=
  { l with running := l.running.mapValues fun id t => if l.label? id = some label then s else t }

end Launches

/-- The launcher of what is kept in a part of the state. -/
def Launcher.inMemory {σ : Type} (part : Part σ Launches) : Launcher σ where
  platform := ⟨"default", "local", "In-process launcher"⟩
  launch r := do
    let delay ← Call.ofActivity (Activity.look fun s => (part.get s).delay)
    if let some ms := delay then Call.ofActivity (Activity.pause ms)
    Call.update part (·.launch r.label)
  stop id := Call.ofOutcome (Activity.step (part.lift (·.stop id)))
  status id := Call.query part (·.status id)

end StreamPipeline
