import StreamPipeline.Proofs.State
import StreamPipeline.Status

/-!
# What reports say about a pipeline

A pipeline has the state that its stages' reports come to, where no reports say that it is
undeployed. It may be deployed just where there are none, where nothing is known of any stage, or
where every stage is undeployed (`PipelineStatus.ofStages_state_eq_undeployed_iff`); a deploy is
refused for another one that is under way just where some stage is being deployed and none has
failed or is in error (`PipelineStatus.ofStages_state_eq_deploying_iff`).

**Reports count as a set** (`State.aggregate_as_set`), whatever their order and number.
-/

namespace StreamPipeline

namespace PipelineStatus

variable {stages : List StageStatus}

/-- The state that follows from reports is never left unknown. -/
theorem ofStages_state_ne_unknown (stages : List StageStatus) :
    (ofStages stages).state ≠ .unknown := by
  cases stages with
  | nil => exact State.noConfusion
  | cons s stages => exact State.aggregate_ne_unknown _

theorem ofStages_state_eq_undeployed_iff :
    (ofStages stages).state = .undeployed ↔
      (∀ s ∈ stages, s.state = .unknown) ∨ ∀ s ∈ stages, s.state = .undeployed := by
  cases stages with
  | nil => simp [ofStages]
  | cons s stages =>
      have h := State.aggregate_eq_undeployed_iff (List.cons_ne_nil s.state (stages.map (·.state)))
      simpa [ofStages] using h

theorem allowsDeploy_ofStages_iff :
    (ofStages stages).state.allowsDeploy = true ↔ (ofStages stages).state = .undeployed := by
  simp [State.allowsDeploy, ofStages_state_ne_unknown]

theorem ofStages_state_eq_deploying_iff :
    (ofStages stages).state = .deploying ↔ (∃ s ∈ stages, s.state = .deploying) ∧
      ∀ s ∈ stages, s.state ≠ .error ∧ s.state ≠ .failed := by
  cases stages with
  | nil => simp [ofStages]
  | cons s stages =>
      show State.aggregate (((s :: stages).map (·.state))) = .deploying ↔ _
      rw [State.aggregate_eq_deploying_iff]
      simp only [List.mem_map, not_exists, not_and, forall_and, ne_eq]

theorem ofStages_state_eq_deployed_iff :
    (ofStages stages).state = .deployed ↔
      stages ≠ [] ∧ ∀ s ∈ stages, s.state = .deployed := by
  cases stages with
  | nil => simp [ofStages]
  | cons s stages =>
      show State.aggregate (((s :: stages).map (·.state))) = .deployed ↔ _
      rw [State.aggregate_eq_deployed_iff]
      simp

end PipelineStatus

namespace State

/-- **Reports count as a set**, and decide about deploys.

* States with the same elements, in whatever order and number, come to the same state.
* Of states that differ the gravest counts: an error, else a failure, else a deploy under way; else
  the pipeline is deployed in part.
* Nothing is left unknown.
* A deploy may start just where there are no reports, where nothing is known of any stage, or where
  every stage is undeployed. It is refused because of another one just where some stage is being
  deployed and none has failed or is in error, and because the pipeline is deployed in all other
  cases. -/
theorem aggregate_as_set :
    (∀ states states' : List State, (∀ s, s ∈ states ↔ s ∈ states') →
      aggregate states = aggregate states') ∧
    (∀ (states : List State) (s t : State), s ∈ states → t ∈ states → s ≠ t →
      aggregate states =
        if error ∈ states then error
        else if failed ∈ states then failed
        else if deploying ∈ states then deploying
        else partially) ∧
    (∀ states, aggregate states ≠ unknown) ∧
    ∀ (name : String) (stages : List StageStatus),
      (checkDeployable name (PipelineStatus.ofStages stages).state = .ok () ↔
        stages = [] ∨ (∀ s ∈ stages, s.state = unknown) ∨ ∀ s ∈ stages, s.state = undeployed) ∧
      (checkDeployable name (PipelineStatus.ofStages stages).state =
          .error (.conflict .alreadyDeploying name) ↔
        (∃ s ∈ stages, s.state = deploying) ∧ ∀ s ∈ stages, s.state ≠ error ∧ s.state ≠ failed) ∧
      ∀ e, checkDeployable name (PipelineStatus.ofStages stages).state = .error e →
        e = .conflict .alreadyDeploying name ∨ e = .conflict .alreadyDeployed name := by
  refine ⟨fun _ _ h => aggregate_congr h, fun _ _ _ hs ht hne => aggregate_of_differ hs ht hne,
    aggregate_ne_unknown, fun name stages => ⟨?_, ?_, fun e h => ?_⟩⟩
  · rw [checkDeployable_eq_ok_iff, PipelineStatus.allowsDeploy_ofStages_iff,
      PipelineStatus.ofStages_state_eq_undeployed_iff]
    -- Where there are no reports, each of them says whatever is asked for.
    refine ⟨.inr, fun h => h.elim (fun hnil => .inl ?_) id⟩
    rw [hnil]
    exact fun _ hs => absurd hs List.not_mem_nil
  · rw [checkDeployable_eq_deploying_iff, PipelineStatus.ofStages_state_eq_deploying_iff]
  · exact eq_conflict_of_checkDeployable h

/-- Of a pipeline of which a stage has failed while others are being deployed, the failure counts,
and a deploy is refused as if it were deployed. -/
theorem aggregate_as_set_failed :
    aggregate [deploying, failed, deploying] = aggregate [failed, deploying] ∧
      aggregate [failed, deploying] = failed ∧
      checkDeployable "ticktock" (PipelineStatus.ofStages
          [⟨"time", "time-1", deploying⟩, ⟨"log", "log-2", failed⟩]).state ≠
        .error (.conflict .alreadyDeploying "ticktock") := by
  refine ⟨aggregate_as_set.1 _ _ fun s => by cases s <;> decide,
    aggregate_as_set.2.1 _ failed deploying (by decide) (by decide) (by decide), fun h => ?_⟩
  obtain ⟨-, hfine⟩ := (aggregate_as_set.2.2.2 _ _).2.1.1 h
  exact (hfine ⟨"log", "log-2", failed⟩ (by simp)).2 rfl

end State

end StreamPipeline
