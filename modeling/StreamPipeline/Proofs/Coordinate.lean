import StreamPipeline.Coordinate

/-!
# Pinned locators

A locator that ends with a colon and its version comes apart there in one way, so that pinning it to
another version puts that in place of the end (`pinLocator_append`), and of nothing else. Any other
locator is left alone (`pinLocator_of_ne`). A locator that ends with its version can be pinned again
and again: only the last version counts (`Coordinate.Versioned.pinLocator_pin`).
-/

namespace StreamPipeline

theorem dropEnd?_append (base suffix : String) : dropEnd? (base ++ suffix) suffix = some base := by
  unfold dropEnd?
  rw [if_pos (by simp)]
  simp

theorem append_of_dropEnd? {s suffix base : String} (h : dropEnd? s suffix = some base) :
    base ++ suffix = s := by
  unfold dropEnd? at h
  dsimp only at h
  split at h
  · rename_i hsuffix
    obtain ⟨front, hfront⟩ := List.isSuffixOf_iff_suffix.1 hsuffix
    cases h
    rw [← String.toList_inj, String.toList_append, String.toList_ofList, ← hfront]
    simp
  · cases h

theorem pinLocator_append (base old new : String) :
    pinLocator (base ++ ":" ++ old) old new = base ++ ":" ++ new := by
  unfold pinLocator
  rw [String.append_assoc, dropEnd?_append]

/-- A locator that does not end with its version is left as it is. -/
theorem pinLocator_of_ne {locator old : String} (h : ∀ base, locator ≠ base ++ ":" ++ old)
    (new : String) : pinLocator locator old new = locator := by
  unfold pinLocator
  cases hbase : dropEnd? locator (":" ++ old) with
  | none => rfl
  | some base =>
      exact absurd ((String.append_assoc ..).trans (append_of_dropEnd? hbase)).symm (h base)

/-- A locator that is pinned to its own version is left as it is. -/
theorem pinLocator_self (locator version : String) :
    pinLocator locator version version = locator := by
  by_cases h : ∃ base, locator = base ++ ":" ++ version
  · obtain ⟨base, rfl⟩ := h
    exact pinLocator_append base version version
  · exact pinLocator_of_ne (fun base hbase => h ⟨base, hbase⟩) version

namespace Coordinate

/-- The locator ends with a colon and the version. -/
def Versioned (c : Coordinate) : Prop := ∃ base, c.locator = base ++ ":" ++ c.version

theorem Versioned.pinLocator_pin {c : Coordinate} (h : c.Versioned) (old new : String) :
    pinLocator (c.pin old).locator old new = (c.pin new).locator := by
  obtain ⟨base, hbase⟩ := h
  simp only [pin, hbase, pinLocator_append]

end Coordinate

end StreamPipeline
