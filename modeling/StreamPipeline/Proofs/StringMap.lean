import Mathlib.Data.List.Dedup
import StreamPipeline.StringMap

/-!
# Maps laid over each other

A map laid over another is determined by its look-ups, so that laying over is associative
(`overlay_assoc`). Maps made of lists of entries are looked up entry by entry. As a list, a map has
one entry more where a new key is set (`perm_insert`), and one less where a key is erased
(`perm_erase`). The map of a list has each of its keys once (`perm_keys_ofList`), and where none of
them is repeated, it is the same for every order (`ofList_perm`).
-/

namespace StreamPipeline.StringMap

variable {α : Type}

@[simp] theorem overlay_empty (m : StringMap α) : m.overlay ∅ = m :=
  rfl

theorem empty_overlay (m : StringMap α) : (∅ : StringMap α).overlay m = m :=
  ext_get? fun k => by simp [get?_overlay]

theorem overlay_assoc (l m n : StringMap α) :
    (l.overlay m).overlay n = l.overlay (m.overlay n) :=
  ext_get? fun k => by simp [get?_overlay, Option.or_assoc]

theorem isEmpty_iff {m : StringMap α} : m.isEmpty = true ↔ m = ∅ := by
  obtain ⟨l, h⟩ := m
  cases l with
  | nil => exact iff_of_true rfl rfl
  | cons e r => exact iff_of_false Bool.false_ne_true fun h => by cases h

/-! ### Lists of entries -/

/-- A look-up under renamed keys, where `g` gives back the key of each that is kept. -/
theorem lookup_filterMap {f : String → Option String} {k j : String}
    (h : ∀ i, f i = some k ↔ i = j) (l : List (String × α)) :
    lookup k (l.filterMap fun e => (f e.1).map (·, e.2)) = lookup j l := by
  induction l with
  | nil => rfl
  | cons e r ih =>
      obtain ⟨i, v⟩ := e
      by_cases hi : i = j
      · subst hi
        simp [(h i).2 rfl, lookup]
      · have hne : ∀ m, f i = some m → k ≠ m := fun m hm hk => hi ((h i).1 (hk ▸ hm))
        cases hf : f i with
        | none => simp [hf, lookup, ih, Ne.symm hi]
        | some m => simp [hf, lookup, ih, Ne.symm hi, hne m hf]

theorem lookup_filterMap_none {f : String → Option String} {k : String}
    (h : ∀ i, f i ≠ some k) (l : List (String × α)) :
    lookup k (l.filterMap fun e => (f e.1).map (·, e.2)) = none := by
  induction l with
  | nil => rfl
  | cons e r ih =>
      obtain ⟨i, v⟩ := e
      cases hf : f i with
      | none => simp [hf, ih]
      | some m =>
          have hne : k ≠ m := fun hk => h i (hk ▸ hf)
          simp [hf, lookup, ih, hne]

theorem lookup_eq_none_of_ne {k : String} {l : List (String × α)} (h : ∀ e ∈ l, e.1 ≠ k) :
    lookup k l = none := by
  induction l with
  | nil => rfl
  | cons e r ih =>
      rw [lookup, if_neg (Ne.symm (h e (by simp)))]
      exact ih fun e he => h e (by simp [he])

/-- A map has no entry under another key than those of its list. -/
theorem get?_ofList_of_ne {k : String} {l : List (String × α)} (h : ∀ e ∈ l, e.1 ≠ k) :
    (ofList l).get? k = none := by
  rw [get?_ofList, lookupLast]
  exact lookup_eq_none_of_ne fun e he => h e (List.mem_reverse.1 he)

/-- Among entries with distinct keys each is found. -/
theorem lookup_of_mem {k : String} {v : α} {l : List (String × α)} (h : (l.map (·.1)).Nodup)
    (hm : (k, v) ∈ l) : lookup k l = some v := by
  induction l with
  | nil => cases hm
  | cons e r ih =>
      obtain ⟨i, w⟩ := e
      obtain ⟨hnew, hr⟩ := List.nodup_cons.1 h
      rcases List.mem_cons.1 hm with he | hlater
      · cases he
        exact if_pos rfl
      · have hne : k ≠ i := by
          rintro rfl
          exact hnew (List.mem_map.2 ⟨(k, v), hlater, rfl⟩)
        exact (if_neg hne).trans (ih hr hlater)

/-- A map of entries with distinct keys has each of them. -/
theorem get?_ofList_of_mem {k : String} {v : α} {l : List (String × α)}
    (h : (l.map (·.1)).Nodup) (hm : (k, v) ∈ l) : (ofList l).get? k = some v := by
  rw [get?_ofList, lookupLast]
  refine lookup_of_mem ?_ (List.mem_reverse.2 hm)
  rw [List.map_reverse]
  exact List.nodup_reverse.2 h

theorem lookup_filterMap_self (f : String → Option α) (k : String) (l : List String) :
    lookup k (l.filterMap fun i => (f i).map (i, ·)) = if k ∈ l then f k else none := by
  induction l with
  | nil => rfl
  | cons i r ih =>
      cases hf : f i with
      | none =>
          by_cases hk : k = i
          · subst hk
            simp [hf, ih]
          · simp [hf, ih, hk]
      | some v =>
          by_cases hk : k = i
          · subst hk
            simp [hf, lookup]
          · simp [hf, lookup, ih, hk]

/-- A map in which each of some keys has the value that a function gives it, if it gives one. -/
theorem get?_ofList_filterMap (f : String → Option α) (l : List String) (k : String) :
    (ofList (l.filterMap fun i => (f i).map (i, ·))).get? k = if k ∈ l then f k else none := by
  rw [get?_ofList, lookupLast, ← List.filterMap_reverse, lookup_filterMap_self]
  simp

theorem erase_of_get?_eq_none (m : StringMap α) {k : String} (h : m.get? k = none) :
    m.erase k = m :=
  ext_get? fun j => by by_cases hj : j = k <;> simp [get?_erase, hj, h]

/-- What is there is not changed by being written again. -/
theorem insert_of_get? {m : StringMap α} {k : String} {v : α} (h : m.get? k = some v) :
    m.insert k v = m :=
  ext_get? fun j => by by_cases hj : j = k <;> simp [get?_insert, hj, h]

/-- What a map has under a key does not matter once that is gone. -/
theorem insert_insert (m : StringMap α) (k : String) (v v' : α) :
    (m.insert k v).insert k v' = m.insert k v' :=
  ext_get? fun j => by by_cases hj : j = k <;> simp [get?_insert, hj]

@[simp] theorem erase_insert (m : StringMap α) (k : String) (v : α) :
    (m.insert k v).erase k = m.erase k :=
  ext_get? fun j => by by_cases hj : j = k <;> simp [get?_erase, get?_insert, hj]

@[simp] theorem erase_erase (m : StringMap α) (k : String) : (m.erase k).erase k = m.erase k :=
  erase_of_get?_eq_none _ (by simp [get?_erase])

/-- Maps that differ at most under one key agree under every other one. -/
theorem get?_of_erase_eq {m n : StringMap α} {k j : String} (h : m.erase k = n.erase k)
    (hj : j ≠ k) : m.get? j = n.get? j := by
  have hget := congrArg (·.get? j) h
  simpa [get?_erase, hj] using hget

/-- What is replaced under two keys is the same whichever is replaced first. -/
theorem eq_of_replaced {k a b ab ba : StringMap α} {i j : String} (hne : j ≠ i)
    (ha : a.erase i = k.erase i) (hab : ab.erase j = a.erase j) (hb : b.erase j = k.erase j)
    (hba : ba.erase i = b.erase i) (hi : ba.get? i = a.get? i) (hj : ab.get? j = b.get? j) :
    ba = ab := by
  refine ext_get? fun x => ?_
  by_cases hxi : x = i
  · rw [hxi, hi, get?_of_erase_eq hab hne.symm]
  by_cases hxj : x = j
  · rw [hxj, hj, get?_of_erase_eq hba hne]
  rw [get?_of_erase_eq hab hxj, get?_of_erase_eq ha hxi, get?_of_erase_eq hba hxi,
    get?_of_erase_eq hb hxj]

/-! ### Entries -/

theorem perm_insertEntry {k : String} {l : List (String × α)} (h : lookup k l = none) (v : α) :
    (insertEntry k v l).Perm ((k, v) :: l) := by
  induction l with
  | nil => exact .refl _
  | cons e r ih =>
      obtain ⟨i, w⟩ := e
      have hne : k ≠ i := by
        rintro rfl
        simp [lookup] at h
      rw [lookup, if_neg hne] at h
      rw [insertEntry, if_neg hne]
      split
      · exact .refl _
      · exact ((ih h).cons _).trans (.swap ..)

theorem perm_insert {m : StringMap α} {k : String} (h : m.get? k = none) (v : α) :
    (m.insert k v).entries.Perm ((k, v) :: m.entries) :=
  perm_insertEntry h v

theorem perm_erase {m : StringMap α} {k : String} {v : α} (h : m.get? k = some v) :
    m.entries.Perm ((k, v) :: (m.erase k).entries) := by
  have hback : (m.erase k).insert k v = m := ext_get? fun j => by
    rw [get?_insert, get?_erase]
    by_cases hj : j = k
    · simp [hj, h]
    · simp [hj]
  have hperm := perm_insert (show (m.erase k).get? k = none by simp [get?_erase]) v
  rwa [hback] at hperm

/-- No key has two entries. -/
theorem nodup_keys (m : StringMap α) : m.keys.Nodup :=
  List.pairwise_map.2 (m.sorted.imp String.ne_of_lt)

theorem mem_keys_iff {m : StringMap α} {k : String} : k ∈ m.keys ↔ m.contains k = true := by
  rw [contains_eq_true_iff, keys, List.mem_map]
  constructor
  · rintro ⟨e, he, rfl⟩
    exact ⟨e.2, lookup_of_mem m.nodup_keys he⟩
  · rintro ⟨v, hv⟩
    exact ⟨(k, v), (perm_erase hv).mem_iff.2 (.head _), rfl⟩

/-! ### Maps of lists -/

theorem exists_lookup_iff {k : String} {l : List (String × α)} :
    (∃ v, lookup k l = some v) ↔ k ∈ l.map (·.1) := by
  induction l with
  | nil => simp [lookup]
  | cons e r ih =>
      obtain ⟨i, w⟩ := e
      by_cases hk : k = i
      · simp [lookup, hk]
      · simpa [lookup, hk] using ih

/-- The keys of a map are those of its list, each of them once. -/
theorem perm_keys_ofList (l : List (String × α)) : (ofList l).keys.Perm (l.map (·.1)).dedup := by
  refine (List.perm_ext_iff_of_nodup (nodup_keys _) (List.nodup_dedup _)).2 fun k => ?_
  rw [mem_keys_iff, contains_eq_true_iff, List.mem_dedup]
  simp only [get?_ofList, lookupLast, exists_lookup_iff, List.map_reverse, List.mem_reverse]

/-- Where no key has two entries, their order does not matter. -/
theorem ofList_perm {l r : List (String × α)} (h : l.Perm r) (hl : (l.map (·.1)).Nodup) :
    ofList l = ofList r := by
  have hr : (r.map (·.1)).Nodup := (h.map _).nodup_iff.1 hl
  refine ext_get? fun k => ?_
  by_cases hk : ∃ v, (k, v) ∈ l
  · obtain ⟨v, hv⟩ := hk
    rw [get?_ofList_of_mem hl hv, get?_ofList_of_mem hr (h.mem_iff.1 hv)]
  · have hnone : ∀ e ∈ l, e.1 ≠ k := fun e he hek => hk ⟨e.2, hek ▸ he⟩
    rw [get?_ofList_of_ne hnone, get?_ofList_of_ne fun e he => hnone e (h.mem_iff.2 he)]

end StreamPipeline.StringMap
