import StreamPipeline.Deploy.Launcher
import StreamPipeline.Proofs.StringMap
import StreamPipeline.Text.Decimal

/-!
# Stages that are started and stopped

`Launches.Starts` says that a launcher starts stages one after the other, `Launches.Stops` that it
stops some. Names count the starts, so that no name is given twice (`Counted`): the stages that are
started are new (`Starts.new`), and the running ones are those from before and these
(`Starts.running`, `Starts.perm`). Stopping takes away just what is stopped (`Stops.running`,
`Stops.perm`). What has been started under a label and is still running (`Runs`) is so until it is
stopped (`Runs.starts`, `Runs.stops`).
-/

namespace StreamPipeline.Launches

/-! ### Names -/

/-- Whatever was started has a name that counts its start, and only what was started is running. -/
structure Counted (l : Launches) : Prop where
  counts : ∀ x ∈ l.started, ∃ label, ∃ n ≤ l.started.length, x.id = label ++ "-" ++ Nat.repr n
  started : ∀ id ∈ l.running.keys, ∃ x ∈ l.started, x.id = id

variable {l l₁ l' : Launches} {label id : String} {labels ids : List String}

theorem launch_eq_error (h : l.failingLaunch.contains label = true) :
    l.launch label = .error (.broken (.launch label)) :=
  if_pos h

/-- A start takes a new name, and one more stage is running. -/
theorem launch_eq_ok (h : l.launch label = .ok (id, l₁)) :
    id = label ++ "-" ++ Nat.repr (l.started.length + 1) ∧
      l₁ = { l with started := ⟨id, label⟩ :: l.started
                    running := l.running.insert id .deployed
                    log := .launched id :: l.log } := by
  unfold launch at h
  split at h
  · cases h
  · cases h
    exact ⟨rfl, rfl⟩

theorem exists_launch (h : l.failingLaunch.contains label = false) :
    ∃ id l₁, l.launch label = .ok (id, l₁) :=
  ⟨_, _, if_neg (by rw [h]; decide)⟩

theorem Counted.new (hl : l.Counted) (h : l.launch label = .ok (id, l₁)) :
    l.running.get? id = none := by
  obtain ⟨rfl, -⟩ := launch_eq_ok h
  refine Option.eq_none_iff_forall_not_mem.2 fun s hs => ?_
  obtain ⟨x, hx, hid⟩ := hl.started _ (StringMap.mem_keys_iff.2
    ((StringMap.contains_eq_true_iff _ _).2 ⟨s, hs⟩))
  obtain ⟨label', n, hn, hx⟩ := hl.counts x hx
  have := Text.dash_repr_inj (hx.symm.trans hid)
  omega

theorem Counted.launch (hl : l.Counted) (h : l.launch label = .ok (id, l₁)) : l₁.Counted := by
  have hnew := hl.new h
  obtain ⟨hid, rfl⟩ := launch_eq_ok h
  constructor
  · intro x hx
    rcases List.mem_cons.1 hx with rfl | hx
    · exact ⟨label, _, Nat.le_refl _, hid⟩
    · obtain ⟨label', n, hn, hx⟩ := hl.counts x hx
      exact ⟨label', n, Nat.le_succ_of_le hn, hx⟩
  · intro i hi
    have hmem := ((StringMap.perm_insert hnew State.deployed).map Prod.fst).mem_iff.1 hi
    rcases List.mem_cons.1 hmem with rfl | hi
    · exact ⟨_, .head _, rfl⟩
    · obtain ⟨x, hx, hid⟩ := hl.started i hi
      exact ⟨x, .tail _ hx, hid⟩

/-! ### Starts -/

/-- Stages with some labels are started one after the other, and get names. -/
inductive Starts : Launches → List String → List String → Launches → Prop where
  | nil (l : Launches) : Starts l [] [] l
  | cons {l l₁ l' : Launches} {label id : String} {labels ids : List String}
      (h : l.launch label = .ok (id, l₁)) (t : Starts l₁ labels ids l') :
      Starts l (label :: labels) (id :: ids) l'

namespace Starts

theorem length_eq (h : l.Starts labels ids l') : ids.length = labels.length := by
  induction h with
  | nil => rfl
  | cons _ _ ih => exact congrArg Nat.succ ih

theorem counted (h : l.Starts labels ids l') (hl : l.Counted) : l'.Counted := by
  induction h with
  | nil => exact hl
  | cons h _ ih => exact ih (hl.launch h)

/-- What fails does so by the label, whatever has been started. -/
theorem failing (h : l.Starts labels ids l') : l'.failingLaunch = l.failingLaunch ∧
    l'.failingStatus = l.failingStatus ∧ l'.failingStop = l.failingStop := by
  induction h with
  | nil => exact ⟨rfl, rfl, rfl⟩
  | cons h _ ih =>
      obtain ⟨-, rfl⟩ := launch_eq_ok h
      exact ih

theorem running (h : l.Starts labels ids l') (id : String) :
    l'.running.get? id = if id ∈ ids then some .deployed else l.running.get? id := by
  induction h with
  | nil => simp
  | @cons l l₁ l' label i labels ids h _ ih =>
      obtain ⟨-, rfl⟩ := launch_eq_ok h
      rw [ih, StringMap.get?_insert]
      by_cases hids : id ∈ ids
      · simp [hids]
      · by_cases hi : id = i <;> simp [hids, hi]

/-- What is started gets its name by its label, and whatever was started stays so. -/
theorem started (h : l.Starts labels ids l') :
    (∀ p ∈ labels.zip ids, ⟨p.2, p.1⟩ ∈ l'.started) ∧ l.started ⊆ l'.started := by
  induction h with
  | nil => exact ⟨nofun, fun _ hx => hx⟩
  | @cons l l₁ l' label i labels ids h _ ih =>
      obtain ⟨-, rfl⟩ := launch_eq_ok h
      obtain ⟨hnew, hold⟩ := ih
      refine ⟨fun p hp => ?_, fun x hx => hold (.tail _ hx)⟩
      rcases List.mem_cons.1 hp with rfl | hp
      · exact hold (.head _)
      · exact hnew p hp

/-- Nothing is started under a label that fails. -/
theorem sound (h : l.Starts labels ids l') (hl : ∀ x ∈ l.started, x.label ∉ l.failingLaunch) :
    ∀ x ∈ l'.started, x.label ∉ l.failingLaunch := by
  induction h with
  | nil => exact hl
  | @cons l l₁ l' label i labels ids h _ ih =>
      have hlabel : label ∉ l.failingLaunch := fun hin => by
        cases (launch_eq_error (List.contains_iff_mem.2 hin)).symm.trans h
      obtain ⟨-, rfl⟩ := launch_eq_ok h
      refine ih fun x hx => ?_
      rcases List.mem_cons.1 hx with rfl | hx
      · exact hlabel
      · exact hl x hx

/-- What was running is still running, and with it what was started, each under a name of its
own. -/
theorem perm (h : l.Starts labels ids l') (hl : l.Counted) :
    l'.running.keys.Perm (ids ++ l.running.keys) := by
  induction h with
  | nil => exact .refl _
  | @cons l l₁ l' label i labels ids h _ ih =>
      have hnew := (StringMap.perm_insert (hl.new h) State.deployed).map Prod.fst
      have hrest := ih (hl.launch h)
      obtain ⟨-, rfl⟩ := launch_eq_ok h
      exact (hrest.trans (hnew.append_left ids)).trans List.perm_middle

/-- The names are new, and all different. -/
theorem nodup (h : l.Starts labels ids l') (hl : l.Counted) : (ids ++ l.running.keys).Nodup :=
  (h.perm hl).nodup_iff.1 l'.running.nodup_keys

end Starts

/-! ### Stops -/

/-- Stages are stopped one after the other. -/
inductive Stops : Launches → List String → Launches → Prop where
  | nil (l : Launches) : Stops l [] l
  | cons {l l₁ l' : Launches} {id : String} {ids : List String} (h : l.stop id = (.ok (), l₁))
      (t : Stops l₁ ids l') : Stops l (id :: ids) l'

theorem stop_eq (h : l.failingStop = []) (id : String) :
    l.stop id = (.ok (), { l with running := l.running.erase id, log := .stopped id :: l.log }) := by
  have hfails : fails { l with log := .stopped id :: l.log } l.failingStop id = none := by
    simp [fails, h]
  unfold stop
  simp only [hfails]

/-- Where no stop fails, all stages are stopped. -/
theorem exists_stops (h : l.failingStop = []) (ids : List String) : ∃ l', l.Stops ids l' := by
  induction ids generalizing l with
  | nil => exact ⟨l, .nil l⟩
  | cons id ids ih =>
      obtain ⟨l', t⟩ := ih (l := { l with running := l.running.erase id,
                                          log := .stopped id :: l.log }) h
      exact ⟨l', .cons (stop_eq h id) t⟩

namespace Stops

theorem eq (h : l.Stops ids l') (hl : l.failingStop = []) : l' = { l with
    running := l.running.filterKeys fun id => !ids.contains id
    log := (ids.map LaunchEvent.stopped).reverse ++ l.log } := by
  induction h with
  | nil l =>
      have hkeep : l.running.filterKeys (fun id => !([] : List String).contains id) = l.running :=
        StringMap.ext_get? fun k => by simp [StringMap.get?_filterKeys]
      rw [hkeep]
      rfl
  | @cons l l₁ l' i ids h _ ih =>
      obtain ⟨-, rfl⟩ := Prod.mk.inj (h.symm.trans (stop_eq hl i))
      have hboth : (l.running.erase i).filterKeys (fun id => !ids.contains id) =
          l.running.filterKeys fun id => !(i :: ids).contains id :=
        StringMap.ext_get? fun k => by
          by_cases hk : k = i <;> simp [StringMap.get?_filterKeys, StringMap.get?_erase, hk]
      rw [ih hl, hboth, List.map_cons, List.reverse_cons, List.append_assoc]
      rfl

theorem running (h : l.Stops ids l') (hl : l.failingStop = []) (id : String) :
    l'.running.get? id = if id ∈ ids then none else l.running.get? id := by
  rw [h.eq hl, StringMap.get?_filterKeys]
  by_cases hid : id ∈ ids <;> simp [hid]

/-- What is stopped was running, and nothing else is gone. -/
theorem perm (h : l.Stops ids l') (hl : l.failingStop = []) (hids : ids.Nodup)
    (hrunning : ∀ id ∈ ids, id ∈ l.running.keys) :
    l.running.keys.Perm (ids ++ l'.running.keys) := by
  refine (List.perm_ext_iff_of_nodup l.running.nodup_keys ?_).2 fun id => ?_
  · refine List.nodup_append.2 ⟨hids, l'.running.nodup_keys, ?_⟩
    rintro id hid _ hid' rfl
    obtain ⟨s, hs⟩ := (StringMap.contains_eq_true_iff _ _).1 (StringMap.mem_keys_iff.1 hid')
    rw [h.running hl, if_pos hid] at hs
    cases hs
  · rw [List.mem_append, StringMap.mem_keys_iff, StringMap.mem_keys_iff, StringMap.contains,
      StringMap.contains, h.running hl]
    by_cases hid : id ∈ ids
    · simpa [hid, StringMap.mem_keys_iff, StringMap.contains] using hrunning id hid
    · simp [hid]

theorem counted (h : l.Stops ids l') (hl : l.failingStop = []) (hcounted : l.Counted) :
    l'.Counted := by
  refine ⟨?_, fun id hid => ?_⟩
  · rw [h.eq hl]
    exact hcounted.counts
  · rw [h.eq hl]
    refine hcounted.started id ?_
    rw [StringMap.mem_keys_iff, StringMap.contains, h.running hl] at hid
    rw [StringMap.mem_keys_iff, StringMap.contains]
    split at hid
    · cases hid
    · exact hid

end Stops

/-! ### Stages that run -/

/-- A stage has been started under a name and a label, and is running. -/
structure Runs (l : Launches) (id label : String) : Prop where
  started : ⟨id, label⟩ ∈ l.started
  running : l.running.get? id = some .deployed

theorem Starts.runs (h : l.Starts labels ids l') (hid : (label, id) ∈ labels.zip ids) :
    l'.Runs id label :=
  ⟨h.started.1 _ hid, by rw [h.running, if_pos (List.of_mem_zip hid).2]⟩

theorem Runs.starts (h : l.Runs id label) (hs : l.Starts labels ids l') : l'.Runs id label :=
  ⟨hs.started.2 h.started, by rw [hs.running, h.running, ite_self]⟩

theorem Runs.stops (h : l.Runs id label) (hs : l.Stops ids l') (hl : l.failingStop = [])
    (hid : id ∉ ids) : l'.Runs id label :=
  ⟨by rw [hs.eq hl]; exact h.started, by rw [hs.running hl, if_neg hid, h.running]⟩

theorem Runs.mem_keys (h : l.Runs id label) : id ∈ l.running.keys :=
  StringMap.mem_keys_iff.2 ((StringMap.contains_eq_true_iff _ _).2 ⟨_, h.running⟩)

end StreamPipeline.Launches
