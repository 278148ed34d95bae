/-!
# Maps keyed by text

`StringMap α` is a finite map from text to `α`, held as its entries in strictly rising key order
(by code point). The order is part of the type, so a map has one representation: two maps that
answer every look-up alike are equal (`ext_get?`). Every operation is described by one equation
about `get?`, and after those equations nothing unfolds the operations again.
-/

namespace StreamPipeline

/-- A finite map from text to `α`, its entries in strictly rising key order. -/
structure StringMap (α : Type) where
  /-- The entries in key order. -/
  entries : List (String × α)
  /-- Each key is below all later ones. -/
  sorted : entries.Pairwise (fun a b => a.1 < b.1)
  deriving DecidableEq

namespace StringMap

variable {α β : Type}

/-! ### Entry lists -/

/-- The value of the first entry under `k`. -/
def lookup (k : String) : List (String × α) → Option α
  | [] => none
  | (j, v) :: r => if k = j then some v else lookup k r

/-- The entries with `k` set to `v`, at the place that the key order gives it. -/
def insertEntry (k : String) (v : α) : List (String × α) → List (String × α)
  | [] => [(k, v)]
  | (j, w) :: r =>
    if k < j then (k, v) :: (j, w) :: r
    else if k = j then (k, v) :: r
    else (j, w) :: insertEntry k v r

theorem lookup_insertEntry (j k : String) (v : α) (l : List (String × α)) :
    lookup j (insertEntry k v l) = if j = k then some v else lookup j l := by
  induction l with
  | nil => simp [insertEntry, lookup]
  | cons e r ih =>
    obtain ⟨i, w⟩ := e
    by_cases h₁ : k < i
    · simp [insertEntry, h₁, lookup]
    · by_cases h₂ : k = i
      · subst h₂
        rw [insertEntry, if_neg h₁, if_pos rfl]
        by_cases h₃ : j = k <;> simp [lookup, h₃]
      · by_cases h₃ : j = i
        · subst h₃
          simp [insertEntry, h₁, h₂, lookup, Ne.symm h₂]
        · simp [insertEntry, h₁, h₂, lookup, h₃, ih]

theorem mem_insertEntry {k : String} {v : α} {l : List (String × α)} {e : String × α}
    (h : e ∈ insertEntry k v l) : e = (k, v) ∨ e ∈ l := by
  induction l with
  | nil => simpa [insertEntry] using h
  | cons a r ih =>
    obtain ⟨i, w⟩ := a
    simp only [insertEntry] at h
    split at h
    · simpa using h
    · split at h
      · rcases List.mem_cons.1 h with h | h
        · exact .inl h
        · exact .inr (List.mem_cons_of_mem _ h)
      · rcases List.mem_cons.1 h with h | h
        · exact .inr (h ▸ List.mem_cons_self)
        · exact (ih h).imp id (List.mem_cons_of_mem _)

theorem insertEntry_sorted (k : String) (v : α) {l : List (String × α)}
    (h : l.Pairwise (fun a b => a.1 < b.1)) :
    (insertEntry k v l).Pairwise (fun a b => a.1 < b.1) := by
  induction l with
  | nil => simp [insertEntry]
  | cons a r ih =>
    obtain ⟨i, w⟩ := a
    obtain ⟨hi, hr⟩ := List.pairwise_cons.1 h
    simp only [insertEntry]
    split
    · rename_i hk
      refine List.pairwise_cons.2 ⟨fun e he => ?_, h⟩
      rcases List.mem_cons.1 he with rfl | he
      · exact hk
      · exact String.lt_trans hk (hi e he)
    · split
      · rename_i hk
        subst hk
        exact List.pairwise_cons.2 ⟨hi, hr⟩
      · rename_i hk hne
        refine List.pairwise_cons.2 ⟨fun e he => ?_, ih hr⟩
        rcases mem_insertEntry he with rfl | he
        · rcases String.le_total k i with hle | hle
          · refine absurd ?_ hne
            exact String.le_antisymm hle (String.not_lt.1 hk)
          · refine Decidable.byContradiction fun hlt => hne ?_
            exact String.le_antisymm (String.not_lt.1 hlt) hle
        · exact hi e he

/-- A key below every key of a list has no entry there. -/
theorem lookup_eq_none {k : String} {l : List (String × α)} (h : ∀ e ∈ l, k < e.1) :
    lookup k l = none := by
  induction l with
  | nil => rfl
  | cons a r ih =>
    obtain ⟨i, w⟩ := a
    have hi : k < i := h (i, w) List.mem_cons_self
    have hne : k ≠ i := fun e => String.lt_irrefl i (e ▸ hi)
    simp [lookup, hne, ih fun e he => h e (List.mem_cons_of_mem _ he)]

/-- A key with an entry in a sorted list is not below the first key. -/
theorem first_le_of_lookup {k : String} {v : α} {e : String × α} {l : List (String × α)}
    (h : (e :: l).Pairwise (fun a b => a.1 < b.1)) (hk : lookup k (e :: l) = some v) :
    e.1 ≤ k := by
  refine String.not_lt.1 fun hlt => ?_
  have hnone : lookup k (e :: l) = none := lookup_eq_none fun d hd => by
    rcases List.mem_cons.1 hd with rfl | hd
    · exact hlt
    · exact String.lt_trans hlt ((List.pairwise_cons.1 h).1 d hd)
  cases hnone.symm.trans hk

theorem eq_of_lookup_eq {l m : List (String × α)}
    (hl : l.Pairwise (fun a b => a.1 < b.1)) (hm : m.Pairwise (fun a b => a.1 < b.1))
    (h : ∀ k, lookup k l = lookup k m) : l = m := by
  induction l generalizing m with
  | nil =>
    cases m with
    | nil => rfl
    | cons b s => have := h b.1; simp [lookup] at this
  | cons a r ih =>
    obtain ⟨i, v⟩ := a
    obtain ⟨hi, hr⟩ := List.pairwise_cons.1 hl
    cases m with
    | nil => have := h i; simp [lookup] at this
    | cons b s =>
      obtain ⟨j, w⟩ := b
      obtain ⟨hj, hs⟩ := List.pairwise_cons.1 hm
      -- each list has the first key of the other
      have hij : i = j := String.le_antisymm
        (first_le_of_lookup (v := w) hl (by rw [h]; simp [lookup]))
        (first_le_of_lookup (v := v) hm (by rw [← h]; simp [lookup]))
      subst hij
      have hvw : v = w := by have := h i; simpa [lookup] using this
      subst hvw
      congr 1
      refine ih hr hs fun k => ?_
      by_cases hk : k = i
      · subst hk
        rw [lookup_eq_none hi, lookup_eq_none hj]
      · have := h k
        simpa [lookup, hk] using this

/-! ### Operations -/

/-- The map without entries. -/
def empty : StringMap α := ⟨[], .nil⟩

instance : EmptyCollection (StringMap α) := ⟨empty⟩
instance : Inhabited (StringMap α) := ⟨empty⟩

/-- The value under `k`, if there is one. -/
def get? (m : StringMap α) (k : String) : Option α := lookup k m.entries

/-- Whether `k` has an entry. -/
def contains (m : StringMap α) (k : String) : Bool := (m.get? k).isSome

/-- The map with `k` set to `v`. -/
def insert (m : StringMap α) (k : String) (v : α) : StringMap α :=
  ⟨insertEntry k v m.entries, insertEntry_sorted k v m.sorted⟩

/-- The entries whose key satisfies `p`. -/
def filterKeys (m : StringMap α) (p : String → Bool) : StringMap α :=
  ⟨m.entries.filter (fun e => p e.1), m.sorted.filter _⟩

/-- The map without an entry under `k`. -/
def erase (m : StringMap α) (k : String) : StringMap α := m.filterKeys (· != k)

/-- The map with the pairs of a list inserted one after the other, so that of equal keys the last
one counts. -/
def insertAll (m : StringMap α) (l : List (String × α)) : StringMap α :=
  l.foldl (fun m e => m.insert e.1 e.2) m

/-- The map of a list of pairs, of equal keys the last one. -/
def ofList (l : List (String × α)) : StringMap α := empty.insertAll l

/-- The entries in key order. -/
def toList (m : StringMap α) : List (String × α) := m.entries

/-- The keys in rising order. -/
def keys (m : StringMap α) : List String := m.entries.map (·.1)

/-- The values in key order. -/
def values (m : StringMap α) : List α := m.entries.map (·.2)

/-- The number of entries. -/
def size (m : StringMap α) : Nat := m.entries.length

/-- Whether there is no entry. -/
def isEmpty (m : StringMap α) : Bool := m.entries.isEmpty

/-- `n` laid over `m`: an entry of `n` wins over one of `m`. -/
def overlay (m n : StringMap α) : StringMap α := m.insertAll n.entries

/-- The map with `v` under `k` unless `k` has an entry. -/
def insertIfNew (m : StringMap α) (k : String) (v : α) : StringMap α :=
  if m.contains k then m else m.insert k v

/-- Every value replaced by `f` of its key and itself. -/
def mapValues (m : StringMap α) (f : String → α → β) : StringMap β :=
  ⟨m.entries.map (fun e => (e.1, f e.1 e.2)), List.pairwise_map.2 m.sorted⟩

/-! ### One equation per operation -/

/-- Maps that answer every look-up alike are equal. -/
theorem ext_get? {m n : StringMap α} (h : ∀ k, m.get? k = n.get? k) : m = n := by
  obtain ⟨l, hl⟩ := m
  obtain ⟨r, hr⟩ := n
  have : l = r := eq_of_lookup_eq hl hr h
  subst this
  rfl

@[simp] theorem get?_empty (k : String) : (empty : StringMap α).get? k = none := rfl

@[simp] theorem get?_emptyCollection (k : String) : (∅ : StringMap α).get? k = none := rfl

theorem get?_insert (m : StringMap α) (k j : String) (v : α) :
    (m.insert k v).get? j = if j = k then some v else m.get? j :=
  lookup_insertEntry j k v m.entries

@[simp] theorem get?_insert_self (m : StringMap α) (k : String) (v : α) :
    (m.insert k v).get? k = some v := by simp [get?_insert]

theorem get?_insert_of_ne (m : StringMap α) {k j : String} (v : α) (h : j ≠ k) :
    (m.insert k v).get? j = m.get? j := by simp [get?_insert, h]

theorem get?_insert_eq_some_iff (m : StringMap α) {k j : String} {v w : α} :
    (m.insert k v).get? j = some w ↔ j = k ∧ v = w ∨ j ≠ k ∧ m.get? j = some w := by
  rw [get?_insert]
  by_cases h : j = k <;> simp [h]

theorem lookup_filter (p : String → Bool) (k : String) (l : List (String × α)) :
    lookup k (l.filter (fun e => p e.1)) = if p k then lookup k l else none := by
  induction l with
  | nil => simp [lookup]
  | cons e r ih =>
    obtain ⟨i, v⟩ := e
    by_cases hk : k = i
    · subst hk
      by_cases hp : p k <;> simp [hp, lookup, ih]
    · by_cases hp : p i <;> simp [hp, lookup, hk, ih]

theorem get?_filterKeys (m : StringMap α) (p : String → Bool) (k : String) :
    (m.filterKeys p).get? k = if p k then m.get? k else none :=
  lookup_filter p k m.entries

theorem get?_erase (m : StringMap α) (k j : String) :
    (m.erase k).get? j = if j = k then none else m.get? j := by
  by_cases h : j = k <;> simp [erase, get?_filterKeys, h]

theorem get?_erase_eq_some_iff (m : StringMap α) {k j : String} {v : α} :
    (m.erase k).get? j = some v ↔ j ≠ k ∧ m.get? j = some v := by
  rw [get?_erase]
  by_cases h : j = k <;> simp [h]

/-- The last pair under `k`, which is the one that counts when a list is inserted. -/
def lookupLast (k : String) (l : List (String × α)) : Option α := lookup k l.reverse

theorem lookup_append (k : String) (l r : List (String × α)) :
    lookup k (l ++ r) = (lookup k l).or (lookup k r) := by
  induction l with
  | nil => simp [lookup]
  | cons e l ih =>
    obtain ⟨i, v⟩ := e
    by_cases hk : k = i <;> simp [lookup, hk, ih]

theorem get?_insertAll (m : StringMap α) (l : List (String × α)) (k : String) :
    (m.insertAll l).get? k = (lookupLast k l).or (m.get? k) := by
  induction l generalizing m with
  | nil => simp [insertAll, lookupLast, lookup]
  | cons e r ih =>
    obtain ⟨i, v⟩ := e
    have hstep : (m.insertAll ((i, v) :: r)).get? k = ((m.insert i v).insertAll r).get? k := rfl
    rw [hstep, ih, get?_insert]
    simp only [lookupLast, List.reverse_cons, lookup_append]
    by_cases hk : k = i
    · cases hr : lookup k r.reverse <;> simp [lookup, hk]
    · cases hr : lookup k r.reverse <;> simp [lookup, hk]

theorem get?_ofList (l : List (String × α)) (k : String) :
    (ofList l).get? k = lookupLast k l := by
  simp [ofList, get?_insertAll]

/-- In rising key order the first entry under a key is also the last. -/
theorem lookupLast_of_sorted {l : List (String × α)}
    (h : l.Pairwise (fun a b => a.1 < b.1)) (k : String) : lookupLast k l = lookup k l := by
  induction l with
  | nil => rfl
  | cons e r ih =>
    obtain ⟨i, v⟩ := e
    obtain ⟨hi, hr⟩ := List.pairwise_cons.1 h
    have ih := ih hr
    simp only [lookupLast] at ih
    simp only [lookupLast, List.reverse_cons, lookup_append, ih]
    by_cases hk : k = i
    · subst hk
      simp [lookup, lookup_eq_none hi]
    · simp [lookup, hk]

theorem get?_overlay (m n : StringMap α) (k : String) :
    (m.overlay n).get? k = (n.get? k).or (m.get? k) := by
  simp only [overlay, get?_insertAll, lookupLast_of_sorted n.sorted]
  rfl

theorem get?_insertIfNew (m : StringMap α) (k j : String) (v : α) :
    (m.insertIfNew k v).get? j = if j = k then some ((m.get? k).getD v) else m.get? j := by
  unfold insertIfNew contains
  by_cases hj : j = k
  · subst hj
    cases hg : m.get? j <;> simp [hg]
  · cases hg : m.get? k <;> simp [get?_insert, hj]

theorem contains_eq_true_iff (m : StringMap α) (k : String) :
    m.contains k = true ↔ ∃ v, m.get? k = some v := by
  simp [contains, Option.isSome_iff_exists]

/-- Building a map from its own entries gives it back. -/
theorem ofList_toList (m : StringMap α) : ofList m.toList = m :=
  ext_get? fun k => by
    rw [get?_ofList]
    exact lookupLast_of_sorted m.sorted k

end StringMap

end StreamPipeline
