import StreamPipeline.Concurrent.Activity
import StreamPipeline.Concurrent.Part
import StreamPipeline.StringMap

/-!
# Locks by name

A table has a lock for a name only while there is a task that holds the lock or waits for it. A
task first gets hold of the lock (`enter`), takes it when it is free (`take?`), gives it back
(`release`), and then removes it from the table if no other task has hold of it (`prune`).
-/

namespace StreamPipeline

/-- Locks by name, each of them a number. -/
structure LockTable where
  /-- The lock of each name that has one. -/
  locks : StringMap Nat := ∅
  /-- The locks that tasks have hold of, once for each task. -/
  references : List Nat := []
  /-- The locks that are taken. -/
  held : List Nat := []
  /-- A number that no lock has had. -/
  fresh : Nat := 0
  deriving DecidableEq

namespace LockTable

/-- Gets hold of the lock of a name, which is made if there is none. -/
def enter (t : LockTable) (name : String) : Nat × LockTable :=
  match t.locks.get? name with
  | some lock => (lock, { t with references := lock :: t.references })
  | none =>
    (t.fresh, { t with locks := t.locks.insert name t.fresh
                       references := t.fresh :: t.references, fresh := t.fresh + 1 })

/-- Takes a lock if it is free. -/
def take? (t : LockTable) (lock : Nat) : Option LockTable :=
  if t.held.contains lock then none else some { t with held := lock :: t.held }

/-- Gives a lock back and lets go of it. -/
def release (t : LockTable) (lock : Nat) : LockTable :=
  { t with held := t.held.erase lock, references := t.references.erase lock }

/-- Removes the lock of a name if no task has hold of it. -/
def prune (t : LockTable) (name : String) : LockTable :=
  match t.locks.get? name with
  | some lock => if t.references.contains lock then t else { t with locks := t.locks.erase name }
  | none => t

/-- An activity while the lock of a name is held. -/
def holding {σ α : Type} (table : Part σ LockTable) (name : String) (body : Activity σ α) :
    Activity σ α := do
  let lock ← Activity.step (table.lift (·.enter name))
  Activity.await fun s => ((table.get s).take? lock).map (table.set · s)
  let a ← body
  Activity.change (table.modify (·.release lock))
  Activity.change (table.modify (·.prune name))
  return a

end LockTable

end StreamPipeline
