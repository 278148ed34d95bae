import StreamPipeline.Concurrent.Call
import StreamPipeline.Release.Ledger

/-!
# Release managers

A release manager keeps packages and releases and runs the releases on its platforms. What it
offers is a `Manager`, whatever is behind it; `Manager.ofLedger` keeps a ledger in a part of the
state.
-/

namespace StreamPipeline

/-- What can be asked of a release manager. -/
structure Manager (σ : Type) where
  /-- Stores the package that a text holds. -/
  upload : String → Call σ PackageInfo
  findPackage : String → String → Call σ (Option Upload)
  /-- Deletes a package in all its versions. -/
  deletePackage : String → Call σ Unit
  install : Installation → Call σ Release
  upgrade : Upgrade → Call σ Release
  /-- Releases a version once more; zero stands for the one before the latest. -/
  rollback : String → Nat → Call σ Release
  /-- Ends the running release. -/
  delete : String → Call σ Release
  /-- The latest release, running or not. -/
  info : String → Call σ Release
  /-- What the stages of the running release report. -/
  status : String → Call σ (List StageStatus)
  /-- All releases, the latest first. -/
  history : String → Call σ (List Release)
  manifest : String → Option Nat → Call σ Manifest
  platforms : Call σ (List Platform)

/-- The manager of the ledger in a part of the state. -/
def Manager.ofLedger {σ : Type} (part : Part σ Ledger) : Manager σ where
  upload text := .update part (·.upload text)
  findPackage name version := .query part fun l => .ok (l.findPackage name version)
  deletePackage name := .update part fun l => .ok ((), l.deletePackage name)
  install i := .update part (·.install i)
  upgrade u := .update part (·.upgrade u)
  rollback name version := .update part (·.rollback name version)
  delete name := .update part (·.delete name)
  info name := .query part (·.latest name)
  status name := .query part (·.status name)
  history name := .query part fun l => .ok (l.history name)
  manifest name version := .query part (·.manifest name version)
  platforms := .query part fun l => .ok l.platforms

end StreamPipeline
