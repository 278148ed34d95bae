import StreamPipeline.Proofs.Deploy.Direct
import StreamPipeline.Samples

/-!
# No direct deployment is lost

`World.DirectRun` is any run of direct deployments, with whatever labels failing to start. After
each call the stages that are running are just those that are tracked, each for one pipeline
(`Accounted`): what a deployment leaves behind (`Deploys`) keeps this, and so does stopping a
pipeline. **All that the calls come to** on such a run is `deployments_accounted`.
-/

namespace StreamPipeline

/-! ### Deployments that are accounted for -/

namespace World

open Direct

/-- Each stage that is running is tracked once, and whatever is tracked is running. -/
structure Accounted (w : World) : Prop where
  counted : w.launches.Counted
  /-- States are learnt and stages stopped without failure. -/
  quiet : w.launches.failingStatus = [] ∧ w.launches.failingStop = []
  tracked : ∀ name stages, w.tracked.get? name = some stages → stages ≠ [] ∧
    ∀ s ∈ stages, ∃ id, s.id = some id ∧ w.launches.running.get? id = some .deployed
  perm : w.tracked.ids.Perm w.launches.running.keys

variable {w : World} {name : String}

theorem Accounted.started {requests : List Request} {ids : List String} {l : Launches}
    (h : w.Accounted) (hname : w.tracked.get? name = none)
    (hs : w.launches.Starts (requests.map Request.label) ids l) (hne : requests ≠ []) :
    Accounted { w with launches := l, tracked := w.tracked.insert name (running requests ids) } where
  counted := hs.counted h.counted
  quiet := by rw [hs.failing.2.1, hs.failing.2.2]; exact h.quiet
  tracked := by
    intro name' stages hstages
    have hlength : ids.length = requests.length := by simpa using hs.length_eq
    rcases (StringMap.get?_insert_eq_some_iff ..).1 hstages with ⟨rfl, rfl⟩ | ⟨-, hold⟩
    · refine ⟨fun hnil => hne ((running_eq_nil_iff hlength).1 hnil), fun s hmem => ?_⟩
      obtain ⟨id, hid, hzip⟩ := mem_running hmem
      exact ⟨id, hid, (hs.runs hzip).running⟩
    · refine ⟨(h.tracked name' stages hold).1, fun s hmem => ?_⟩
      obtain ⟨id, hid, hrun⟩ := (h.tracked name' stages hold).2 s hmem
      refine ⟨id, hid, ?_⟩
      rw [hs.running, hrun]
      exact ite_self _
  perm := by
    have htracked := Tracked.perm_ids_insert hname (running requests ids)
    rw [filterMap_running (by simpa using hs.length_eq)] at htracked
    exact (htracked.trans (h.perm.append_left ids)).trans (hs.perm h.counted).symm

theorem Accounted.nodup (h : w.Accounted) : w.tracked.ids.Nodup :=
  h.perm.nodup_iff.2 w.launches.running.nodup_keys

/-- The names of a pipeline are not tracked for any other. -/
theorem Accounted.nodup_split (h : w.Accounted) (name : String) :
    (w.tracked.idsOf name ++ Tracked.ids (w.tracked.erase name)).Nodup :=
  (w.tracked.perm_ids_erase name).nodup_iff.1 h.nodup

theorem Accounted.stopped {l : Launches} (h : w.Accounted)
    (hs : w.launches.Stops (w.tracked.idsOf name).reverse l) :
    Accounted { w with launches := l, tracked := w.tracked.erase name } where
  counted := hs.counted h.quiet.2 h.counted
  quiet := by rw [hs.eq h.quiet.2]; exact h.quiet
  tracked := by
    intro name' stages hstages
    obtain ⟨hne, hold⟩ := (StringMap.get?_erase_eq_some_iff ..).1 hstages
    refine ⟨(h.tracked name' stages hold).1, fun s hmem => ?_⟩
    obtain ⟨id, hid, hrun⟩ := (h.tracked name' stages hold).2 s hmem
    have hother : id ∈ Tracked.ids (w.tracked.erase name) := by
      have hentry := (StringMap.perm_erase hstages).mem_iff.2 (.head _)
      exact List.mem_flatMap.2 ⟨_, hentry, List.mem_filterMap.2 ⟨s, hmem, hid⟩⟩
    have hnot : id ∉ w.tracked.idsOf name := fun hin =>
      (List.nodup_append.1 (h.nodup_split name)).2.2 id hin id hother rfl
    exact ⟨id, hid, by rw [hs.running h.quiet.2, if_neg (by simpa using hnot), hrun]⟩
  perm := by
    have hids := List.nodup_append.1 (h.nodup_split name)
    have hrunning : ∀ id ∈ (w.tracked.idsOf name).reverse, id ∈ w.launches.running.keys :=
      fun id hid => h.perm.mem_iff.1 ((w.tracked.perm_ids_erase name).mem_iff.2
        (List.mem_append_left _ (List.mem_reverse.1 hid)))
    have hstops := hs.perm h.quiet.2 (List.nodup_reverse.2 hids.1) hrunning
    have hboth := ((w.tracked.perm_ids_erase name).symm.trans h.perm).trans
      (hstops.trans ((List.reverse_perm _).append_right _))
    exact (List.perm_append_left_iff _).1 hboth

/-! ### What is reported -/

theorem Accounted.steady (h : w.Accounted) : Steady w where
  status := h.quiet.1
  running := by
    intro name s hs id hid
    cases ht : w.tracked.get? name with
    | none =>
        rw [Tracked.stagesOf, ht] at hs
        cases hs
    | some stages =>
        rw [Tracked.stagesOf, ht] at hs
        obtain ⟨id', hid', hrun⟩ := (h.tracked name stages ht).2 s hs
        obtain rfl := Option.some.inj (hid'.symm.trans hid)
        exact hrun

/-- A pipeline is deployed exactly if it is tracked. -/
theorem Accounted.state_eq (h : w.Accounted) (name : String) :
    (PipelineStatus.ofStages ((w.tracked.stagesOf name).map report)).state =
      if w.tracked.contains name then .deployed else .undeployed := by
  unfold Tracked.stagesOf StringMap.contains
  cases ht : w.tracked.get? name with
  | none => rfl
  | some stages =>
      obtain ⟨hne, hall⟩ := h.tracked name stages ht
      exact state_reports_eq_deployed_iff.2 ⟨hne, fun s hs => (hall s hs).imp fun _ hid => hid.1⟩

theorem Accounted.looks_state (h : w.Accounted) (name : String) :
    (Deployer.stateOf (direct.statuses name)).Looks w
      (.ok (if w.tracked.contains name then .deployed else .undeployed)) :=
  h.state_eq name ▸ h.steady.looks_state name

/-! ### Calls -/

/-- What a direct deployment comes to: a pipeline that is tracked is left alone, and of any other
either all stages are started, or those in front of the first one that fails. -/
inductive Deploys (failing : List String) (w : World) (name : String) (requests : List Request) :
    Except Failure Deployment → World → Prop where
  | refused (h : w.tracked.contains name = true) :
      Deploys failing w name requests (.error (.conflict .alreadyDeployed name)) w
  | started {ids : List String} {l : Launches} (h : w.tracked.contains name = false)
      (hs : w.launches.Starts (requests.map Request.label) ids l) :
      Deploys failing w name requests (.ok ⟨none, ids⟩)
        { w with launches := l, tracked := w.tracked.insert name (running requests ids) }
  | broken {before after : List Request} {r : Request} {ids : List String} {l : Launches}
      (h : w.tracked.contains name = false) (hrequests : requests = before ++ r :: after)
      (hs : w.launches.Starts (before.map Request.label) ids l) (hr : r.label ∈ failing) :
      Deploys failing w name requests (.error (.broken (.launch r.label)))
        { w with
          launches := l
          tracked := if before = [] then w.tracked
            else w.tracked.insert name (running before ids) }

theorem Accounted.ends_deploy (h : w.Accounted) (d : Definition) (requests : List Request) :
    (direct.deploy d requests).Ends w
      (Deploys w.launches.failingLaunch w d.name requests) := by
  cases ht : w.tracked.contains d.name with
  | true =>
      have hrefused : State.checkDeployable d.name
          (PipelineStatus.ofStages ((w.tracked.stagesOf d.name).map report)).state =
          .error (.conflict .alreadyDeployed d.name) := by
        rw [h.state_eq, ht]
        rfl
      exact (h.steady.looks_deploy d requests hrefused).ends_iff.2 (.refused ht)
  | false =>
      have hnone : w.tracked.get? d.name = none := by
        simpa [StringMap.contains] using ht
      have hnil : w.tracked.stagesOf d.name = [] := by
        rw [Tracked.stagesOf, hnone]
        rfl
      refine (h.steady.passes_deploy d requests hnil).ends.imp ?_
      rintro _ w' ⟨o, hlaunched, rfl⟩
      cases hlaunched with
      | all hs => exact .started ht hs
      | @broken before after r ids l hrequests hs hr =>
          have hids := running_eq_nil_iff (show ids.length = before.length by
            simpa using hs.length_eq)
          have hleaving : leaving w.tracked d.name ([] ++ running before ids) =
              if before = [] then w.tracked
              else w.tracked.insert d.name (running before ids) := by
            simp [leaving, hids, w.tracked.erase_of_get?_eq_none hnone]
          rw [hleaving]
          exact .broken ht hrequests hs (by simpa using hr)

theorem Accounted.deploys {failing : List String} {requests : List Request}
    {r : Except Failure Deployment} {w' : World} (h : w.Accounted) (hne : requests ≠ [])
    (hd : Deploys failing w name requests r w') : w'.Accounted := by
  have hnone : w.tracked.contains name = false → w.tracked.get? name = none := by
    simp [StringMap.contains]
  cases hd with
  | refused => exact h
  | started ht hs => exact h.started (hnone ht) hs hne
  | @broken before after r ids l ht hrequests hs hr =>
      by_cases hbefore : before = []
      · subst hbefore
        cases hs
        exact h
      · rw [if_neg hbefore]
        exact h.started (hnone ht) hs hbefore

/-- What stopping a pipeline comes to: all of its stages are stopped, the last one first, and it is
not tracked any more. -/
inductive Undeploys (w : World) (name : String) : Except Failure Unit → World → Prop where
  | stopped {l : Launches} (hs : w.launches.Stops (w.tracked.idsOf name).reverse l) :
      Undeploys w name (.ok ()) { w with launches := l, tracked := w.tracked.erase name }

theorem Accounted.ends_undeploy (h : w.Accounted) (name : String) :
    (direct.undeploy name).Ends w (Undeploys w name) := by
  obtain ⟨l, hs⟩ := Launches.exists_stops h.quiet.2 (w.tracked.idsOf name).reverse
  refine (passes_undeploy hs).ends.imp ?_
  rintro _ _ ⟨rfl, rfl⟩
  exact .stopped hs

/-- Stopping a pipeline that is not tracked changes nothing. -/
theorem ends_undeploy_untracked (ht : w.tracked.get? name = none) :
    (direct.undeploy name).Ends w fun r w' => r = .ok () ∧ w' = w := by
  have hs : w.launches.Stops (w.tracked.idsOf name).reverse w.launches := by
    rw [Tracked.idsOf, ht]
    exact .nil _
  have hends := (passes_undeploy hs).ends
  rwa [w.tracked.erase_of_get?_eq_none ht] at hends

/-! ### Runs -/

/-- Any run of direct deployments, with some labels that fail to start. -/
inductive DirectRun (failing : List String) (delay : Option Nat) : World → Prop where
  | start {w : World} (hlaunches : w.launches = { failingLaunch := failing, delay })
      (htracked : w.tracked = ∅) : DirectRun failing delay w
  | deploy {w w' : World} (t : DirectRun failing delay w) (d : Definition)
      (requests : List Request) (p : Properties) (r : Except Failure Deployment)
      (hne : requests ≠ []) (h : (direct.deployer.deploy d requests p).Gives w r w') :
      DirectRun failing delay w'
  | undeploy {w w' : World} (t : DirectRun failing delay w) (name : String)
      (r : Except Failure Unit) (h : (direct.deployer.undeploy name).Gives w r w') :
      DirectRun failing delay w'

variable {failing : List String} {delay : Option Nat}

/-- **What is running is what is tracked**, after every call. -/
theorem DirectRun.accounted (t : DirectRun failing delay w) :
    w.Accounted ∧ w.launches.failingLaunch = failing := by
  induction t with
  | @start w hlaunches htracked =>
      refine ⟨⟨?_, ?_, fun name stages h => ?_, ?_⟩, by rw [hlaunches]⟩
      · rw [hlaunches]
        exact ⟨(fun _ h => nomatch h), (fun _ h => nomatch h)⟩
      · rw [hlaunches]
        exact ⟨rfl, rfl⟩
      · rw [htracked] at h
        cases h
      · rw [hlaunches, htracked]
        exact .refl _
  | @deploy w w' t d requests p r hne h ih =>
      have hd := (ih.1.ends_deploy d requests).gives.2 r w' h
      refine ⟨ih.1.deploys hne hd, ?_⟩
      cases hd with
      | refused => exact ih.2
      | started ht hs => exact hs.failing.1.trans ih.2
      | broken ht hrequests hs hr => exact hs.failing.1.trans ih.2
  | @undeploy w w' t name r h ih =>
      cases (ih.1.ends_undeploy name).gives.2 r w' h with
      | stopped hs => exact ⟨ih.1.stopped hs, by rw [hs.eq ih.1.quiet.2]; exact ih.2⟩

/-- **No direct deployment is lost.** On any run of direct deployments, whatever labels fail:

* The stages that are running are those that are tracked, each of them once, and all that is tracked
  is running.
* What a pipeline reports and its state follow from what is tracked: it is deployed if it is
  tracked, and undeployed otherwise.
* A deployment comes to a result, and to that only (`Deploys`): a pipeline that is tracked is
  refused and nothing changes; otherwise the stages are started in order, and those that are started
  are tracked, all of them or those in front of the first that fails.
* A pipeline that is undeployed has all of its stages stopped and nothing else, and every other
  pipeline stays as it was. Undeployed again, nothing changes. -/
theorem deployments_accounted (t : DirectRun failing delay w) :
    (w.tracked.ids.Perm w.launches.running.keys ∧ w.tracked.ids.Nodup ∧
      ∀ name stages, w.tracked.get? name = some stages → stages ≠ [] ∧ ∀ s ∈ stages, s.id.isSome) ∧
    (∀ name, (direct.deployer.state name).Gives w
      (.ok (if w.tracked.contains name then .deployed else .undeployed)) w) ∧
    (∀ d requests p, requests ≠ [] →
      (∃ r w', (direct.deployer.deploy d requests p).Gives w r w') ∧
      ∀ r w', (direct.deployer.deploy d requests p).Gives w r w' →
        Deploys failing w d.name requests r w') ∧
    ∀ name, ∃ w', (direct.deployer.undeploy name).Gives w (.ok ()) w' ∧
      Undeploys w name (.ok ()) w' ∧
      (∀ id, w'.launches.running.get? id =
        if id ∈ w.tracked.idsOf name then none else w.launches.running.get? id) ∧
      (∀ other, other ≠ name → w'.tracked.get? other = w.tracked.get? other ∧
        ∀ r, (direct.deployer.statuses other).Gives w r w →
          (direct.deployer.statuses other).Gives w' r w') ∧
      (direct.deployer.state name).Gives w' (.ok .undeployed) w' ∧
      (direct.deployer.undeploy name).Gives w' (.ok ()) w' := by
  obtain ⟨h, hfailing⟩ := t.accounted
  have hstate : ∀ {w : World}, w.Accounted → ∀ name, (direct.deployer.state name).Gives w
      (.ok (if w.tracked.contains name then .deployed else .undeployed)) w :=
    fun h name => (h.looks_state name).gives
  refine ⟨⟨h.perm, h.nodup, fun name stages hstages => ?_⟩, hstate h, fun d requests p hne => ?_,
    fun name => ?_⟩
  · obtain ⟨hne, hall⟩ := h.tracked name stages hstages
    exact ⟨hne, fun s hs => Option.isSome_iff_exists.2 ((hall s hs).imp fun _ hid => hid.1)⟩
  · exact hfailing ▸ (h.ends_deploy d requests).gives
  · obtain ⟨⟨r, w', hgives⟩, honly⟩ := (h.ends_undeploy name).gives
    have hundeploys := honly r w' hgives
    cases hundeploys with
    | @stopped l hs =>
        have h' := h.stopped hs
        have hnone : (w.tracked.erase name).get? name = none := by simp [StringMap.get?_erase]
        refine ⟨_, hgives, .stopped hs, fun id => ?_, fun other hne => ?_, ?_, ?_⟩
        · rw [hs.running h.quiet.2]
          simp
        · have hsame : (w.tracked.erase name).get? other = w.tracked.get? other := by
            rw [StringMap.get?_erase, if_neg hne]
          refine ⟨hsame, fun r hr => ?_⟩
          have hreports := (h.steady.looks_statuses other).gives
          obtain ⟨rfl, -⟩ := Activity.Gives.unique hr hreports
          exact hsame ▸ (h'.steady.looks_statuses other).gives
        · have hundeployed := hstate h' name
          rwa [StringMap.contains, hnone] at hundeployed
        · exact Call.gives_of_ends (ends_undeploy_untracked hnone)

/-- Where the second stage of the sample pipeline does not start, the first one is running, and is
all that is tracked. -/
theorem deployments_accounted_ticktock : ∃ w, DirectRun ["log"] none w ∧
    w.launches.running.keys = ["time-1"] ∧ w.tracked.ids.Perm w.launches.running.keys := by
  have hstart : DirectRun ["log"] none { launches := { failingLaunch := ["log"] } } :=
    .start rfl rfl
  have t := hstart.deploy Samples.bound Samples.ticktockRequests ∅ _ (by decide)
    (Activity.gives_of_alone rfl)
  exact ⟨_, t, rfl, (deployments_accounted t).1.1⟩

end World

end StreamPipeline
