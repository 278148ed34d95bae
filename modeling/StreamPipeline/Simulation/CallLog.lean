import StreamPipeline.Release.Manager
import StreamPipeline.Store

/-!
# Observed calls

A store or a release manager can be watched: every call is noted under the name of what was asked,
and chosen calls, given by name and number, fail instead of reaching what was watched.
-/

namespace StreamPipeline

/-- The calls that were made. -/
structure CallLog where
  /-- The names of the calls since the log was read last, the latest first. -/
  calls : List String := []
  /-- How often each name was called. -/
  counts : StringMap Nat := ∅
  /-- The calls that fail, by name and number. -/
  failing : List (String × Nat) := []

namespace CallLog

/-- Notes a call, and says whether it fails. -/
def note (l : CallLog) (name : String) : Option Failure × CallLog :=
  let n := (l.counts.get? name).getD 0 + 1
  (if l.failing.contains (name, n) then some (.unavailable (name ++ " #" ++ Nat.repr n)) else none,
    { l with calls := name :: l.calls, counts := l.counts.insert name n })

/-- The calls since the log was read last, in order, and the log read. -/
def take (l : CallLog) : List String × CallLog := (l.calls.reverse, { l with calls := [] })

variable {σ α : Type}

/-- A call that is noted before it is made. -/
def noted (log : Part σ CallLog) (name : String) (c : Call σ α) : Call σ α := do
  match ← Call.ofActivity (Activity.step (log.lift (·.note name))) with
  | some e => throw e
  | none => c

end CallLog

/-- The store with its calls noted. -/
def Store.watched {σ : Type} (s : Store σ) (log : Part σ CallLog) : Store σ where
  find name := CallLog.noted log "store.find" (s.find name)
  save d := CallLog.noted log "store.save" (s.save d)
  upsert d := CallLog.noted log "store.upsert" (s.upsert d)
  delete name := CallLog.noted log "store.delete" (s.delete name)
  findAll := CallLog.noted log "store.find_all" s.findAll

/-- The release manager with its calls noted. -/
def Manager.watched {σ : Type} (m : Manager σ) (log : Part σ CallLog) : Manager σ where
  upload text := CallLog.noted log "upload" (m.upload text)
  findPackage name version := CallLog.noted log "find_package" (m.findPackage name version)
  deletePackage name := CallLog.noted log "delete_package" (m.deletePackage name)
  install i := CallLog.noted log "install" (m.install i)
  upgrade u := CallLog.noted log "upgrade" (m.upgrade u)
  rollback name version := CallLog.noted log "rollback" (m.rollback name version)
  delete name := CallLog.noted log "delete" (m.delete name)
  info name := CallLog.noted log "info" (m.info name)
  status name := CallLog.noted log "status" (m.status name)
  history name := CallLog.noted log "history" (m.history name)
  manifest name version := CallLog.noted log "manifest" (m.manifest name version)
  platforms := CallLog.noted log "list_platforms" m.platforms

end StreamPipeline
