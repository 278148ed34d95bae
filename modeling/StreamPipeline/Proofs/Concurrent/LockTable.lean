import StreamPipeline.Concurrent.LockTable
import StreamPipeline.Proofs.StringMap

/-!
# What is done to a lock table

A task that gets hold of a lock and one that looks after its name change which locks are stored, and
not which are held. A task that takes a lock changes nothing but that this is held.
-/

namespace StreamPipeline.LockTable

variable {t t' : LockTable} {name n : String} {lock : Nat}

@[simp] theorem held_enter (t : LockTable) (name : String) : (t.enter name).2.held = t.held := by
  unfold enter
  split <;> rfl

/-- What is stored once a task has got hold of a lock is that lock, or was stored before. -/
theorem stored_enter (h : (t.enter name).2.locks.get? n = some lock) :
    lock ∈ (t.enter name).2.references ∨ (t.locks.get? n = some lock ∧ lock ∉ t.references) := by
  unfold enter at h ⊢
  split at h
  · exact (em (lock ∈ t.references)).imp (.tail _) (⟨h, ·⟩)
  · rcases (StringMap.get?_insert_eq_some_iff _).1 h with ⟨-, rfl⟩ | ⟨-, h⟩
    · exact .inl (.head _)
    · exact (em (lock ∈ t.references)).imp (.tail _) (⟨h, ·⟩)

theorem take?_eq_some_iff :
    t.take? lock = some t' ↔ lock ∉ t.held ∧ t' = { t with held := lock :: t.held } := by
  unfold take?
  by_cases h : lock ∈ t.held <;> simp [h, eq_comm]

@[simp] theorem held_prune (t : LockTable) (name : String) : (t.prune name).held = t.held := by
  unfold prune
  split
  · split <;> rfl
  · rfl

@[simp] theorem references_prune (t : LockTable) (name : String) :
    (t.prune name).references = t.references := by
  unfold prune
  split
  · split <;> rfl
  · rfl

theorem get?_prune_of_ne (h : n ≠ name) : (t.prune name).locks.get? n = t.locks.get? n := by
  unfold prune
  split
  · split
    · rfl
    · exact (StringMap.get?_erase ..).trans (if_neg h)
  · rfl

/-- A lock that is still there after its name was looked after is one of which a task has hold. -/
theorem mem_references_of_prune (h : (t.prune name).locks.get? name = some lock) :
    lock ∈ t.references := by
  unfold prune at h
  split at h
  · rename_i m hm
    split at h
    · rename_i hused
      obtain rfl : m = lock := Option.some.inj (hm.symm.trans h)
      simpa using hused
    · cases ((StringMap.get?_erase_eq_some_iff _).1 h).1 rfl
  · rename_i hnone
    cases hnone.symm.trans h

end StreamPipeline.LockTable
