import StreamPipeline.State

/-!
# What a vector of states says

States that are all the same say so of the pipeline (`aggregate_cons_of_all`), and of states that
differ the gravest does (`aggregate_of_differ`); so only the set of the states counts
(`aggregate_congr`). A pipeline is taken to be undeployed exactly where its stages all report that
nothing is known, or all that they are undeployed (`aggregate_eq_undeployed_iff`); it is never taken
to be unknown (`aggregate_ne_unknown`).
-/

namespace StreamPipeline.State

theorem aggregate_cons_of_all {s : State} {states : List State} (h : ∀ t ∈ states, t = s) :
    aggregate (s :: states) = if s = unknown then undeployed else s := by
  have hfilter : states.filter (fun t => !t == s) = [] :=
    List.filter_eq_nil_iff.2 fun t ht => by simp [h t ht]
  simp only [aggregate, List.eraseDups_cons, hfilter, List.eraseDups_nil]
  cases s <;> rfl

/-- Where some states differ, the gravest of them is that of the pipeline. -/
theorem aggregate_of_differ {s t : State} {states : List State} (hs : s ∈ states) (ht : t ∈ states)
    (hne : s ≠ t) : aggregate states =
      if error ∈ states then error
      else if failed ∈ states then failed
      else if deploying ∈ states then deploying
      else partially := by
  have hmem : ∀ u, u ∈ states ↔ u ∈ states.eraseDups := fun u => List.mem_eraseDups.symm
  -- Of a single state that is left both would be copies.
  have hsingle : ∀ u, states.eraseDups ≠ [u] := by
    intro u hu
    rw [hmem, hu, List.mem_singleton] at hs ht
    exact hne (hs.trans ht.symm)
  unfold aggregate
  split
  · exact absurd ‹_› (hsingle _)
  · exact absurd ‹_› (hsingle _)
  · have hfound : states.eraseDups.isEmpty = false :=
      List.isEmpty_eq_false_iff.2 (List.ne_nil_of_mem ((hmem s).1 hs))
    simp only [hfound, Bool.false_or, List.contains_iff_mem, ← hmem]

/-- Reports that differ never say that all is undeployed. -/
theorem aggregate_cons_of_differ {s t : State} {states : List State} (ht : t ∈ states)
    (hne : t ≠ s) : aggregate (s :: states) ≠ undeployed := by
  rw [aggregate_of_differ (.tail _ ht) (.head _) hne]
  repeat' split
  all_goals exact State.noConfusion

/-- All states are one, or there are two that differ. -/
theorem all_or_differ (s : State) (states : List State) :
    (∀ t ∈ states, t = s) ∨ ∃ t ∈ states, t ≠ s := by
  by_cases h : ∀ t ∈ states, t = s
  · exact .inl h
  · exact .inr (by simpa using h)

/-- **Only the set of the states counts**, not how often and in which order they are reported. -/
theorem aggregate_congr {states states' : List State} (h : ∀ s, s ∈ states ↔ s ∈ states') :
    aggregate states = aggregate states' := by
  cases states with
  | nil =>
      cases states' with
      | nil => rfl
      | cons s _ => exact absurd ((h s).2 (.head _)) List.not_mem_nil
  | cons s states =>
      cases states' with
      | nil => exact absurd ((h s).1 (.head _)) List.not_mem_nil
      | cons s' states' =>
          rcases all_or_differ s states with hall | ⟨t, ht, hne⟩
          · have hall' : ∀ t ∈ s' :: states', t = s := fun t ht => by
              rcases List.mem_cons.1 ((h t).2 ht) with rfl | ht
              · rfl
              · exact hall t ht
            obtain rfl := hall' s' (.head _)
            rw [aggregate_cons_of_all hall,
              aggregate_cons_of_all fun t ht => hall' t (.tail _ ht)]
          · have hs' := (h s).1 (.head _)
            have ht' := (h t).1 (.tail _ ht)
            rw [aggregate_of_differ (.tail _ ht) (.head _) hne, aggregate_of_differ ht' hs' hne]
            simp only [h]

/-- The reports say that a pipeline is undeployed where all of them say that nothing is known, or
all that it is undeployed. -/
theorem aggregate_eq_undeployed_iff {states : List State} (h : states ≠ []) :
    aggregate states = undeployed ↔
      (∀ s ∈ states, s = unknown) ∨ ∀ s ∈ states, s = undeployed := by
  cases states with
  | nil => exact absurd rfl h
  | cons s states =>
      rcases all_or_differ s states with hall | ⟨t, ht, hne⟩
      · rw [aggregate_cons_of_all hall]
        cases s with
        | unknown => simpa using hall
        | undeployed => simpa using hall
        | _ => simp
      · refine iff_of_false (aggregate_cons_of_differ ht hne) ?_
        rintro (hu | hu)
        · exact hne ((hu t (.tail _ ht)).trans (hu s (.head _)).symm)
        · exact hne ((hu t (.tail _ ht)).trans (hu s (.head _)).symm)

/-- A pipeline is being deployed where some stage is and none has met with anything graver. -/
theorem aggregate_eq_deploying_iff {states : List State} :
    aggregate states = deploying ↔ deploying ∈ states ∧ error ∉ states ∧ failed ∉ states := by
  cases states with
  | nil => simp [aggregate]
  | cons s states =>
      rcases all_or_differ s states with hall | ⟨t, ht, hne⟩
      · have hmem : ∀ u, u ∈ s :: states ↔ u = s := fun u =>
          ⟨fun hu => (List.mem_cons.1 hu).elim id (hall u), fun hu => hu ▸ .head _⟩
        rw [aggregate_cons_of_all hall, hmem, hmem, hmem]
        cases s <;> decide
      · rw [aggregate_of_differ (.tail _ ht) (.head _) hne]
        by_cases herror : error ∈ s :: states <;> by_cases hfailed : failed ∈ s :: states <;>
          by_cases hdeploying : deploying ∈ s :: states <;> simp only [herror, hfailed,
            hdeploying, if_true, if_false] <;> decide

/-- A pipeline is deployed where all of its stages are, and it has some. -/
theorem aggregate_eq_deployed_iff {states : List State} :
    aggregate states = deployed ↔ states ≠ [] ∧ ∀ s ∈ states, s = deployed := by
  cases states with
  | nil => simp [aggregate]
  | cons s states =>
      rcases all_or_differ s states with hall | ⟨t, ht, hne⟩
      · rw [aggregate_cons_of_all hall]
        cases s with
        | deployed => simpa using hall
        | _ => simp
      · have hnot : ¬ ∀ u ∈ s :: states, u = deployed := fun h =>
          hne ((h t (.tail _ ht)).trans (h s (.head _)).symm)
        rw [aggregate_of_differ (.tail _ ht) (.head _) hne]
        refine iff_of_false ?_ fun h => hnot h.2
        repeat' split
        all_goals exact State.noConfusion

theorem aggregate_ne_unknown (states : List State) : aggregate states ≠ unknown := by
  unfold aggregate
  repeat' split
  all_goals simp_all

/-! ### Deploys -/

theorem checkDeployable_eq_ok_iff {s : State} {name : String} :
    checkDeployable name s = .ok () ↔ s.allowsDeploy = true := by
  unfold checkDeployable
  cases s <;> simp [allowsDeploy]

/-- Of the states that refuse a deploy, one says that another deploy is under way. -/
theorem checkDeployable_eq_deploying_iff {s : State} {name : String} :
    checkDeployable name s = .error (.conflict .alreadyDeploying name) ↔ s = deploying := by
  unfold checkDeployable
  cases s <;> simp [allowsDeploy]

theorem checkDeployable_eq_ok {s : State} (h : s.allowsDeploy = true) (name : String) :
    checkDeployable name s = .ok () :=
  checkDeployable_eq_ok_iff.2 h

/-- A deploy is refused as one that is under way, or as one that was made. -/
theorem eq_conflict_of_checkDeployable {s : State} {name : String} {e : Failure}
    (h : checkDeployable name s = .error e) :
    e = .conflict .alreadyDeploying name ∨ e = .conflict .alreadyDeployed name := by
  unfold checkDeployable at h
  split at h
  · cases h
  · split at h
    · exact .inl (Except.error.inj h).symm
    · exact .inr (Except.error.inj h).symm

theorem checkDeployable_eq_conflict {s : State} (h : s.allowsDeploy = false) (name : String) :
    ∃ reason, checkDeployable name s = .error (.conflict reason name) := by
  unfold checkDeployable
  rw [if_neg (by simp [h])]
  split <;> exact ⟨_, rfl⟩

theorem checkDeployable_eq_error {s : State} (h : s.allowsDeploy = false) (name : String) :
    ∃ e, checkDeployable name s = .error e :=
  let ⟨_, he⟩ := checkDeployable_eq_conflict h name
  ⟨_, he⟩

end StreamPipeline.State
