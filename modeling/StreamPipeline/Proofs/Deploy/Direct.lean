import StreamPipeline.Proofs.Concurrent.Underway
import StreamPipeline.Proofs.Aggregation
import StreamPipeline.Proofs.Deploy.Launches
import StreamPipeline.Simulation.World

/-!
# Steps of direct deployments

What a direct deployer does step by step, with each state of the world on the way. Stages are
tracked while they are started (`passes_launchFrom`), and those of a pipeline are stopped after they
have ceased to be tracked (`passes_undeploy`). Started are either all stages that are asked for, or
those in front of the first that fails, which then are all that is tracked (`Launched`).

Where the stages that are tracked as running do run (`Steady`), a stage reports that it is deployed
once it has been started, and that it is being deployed until then (`Steady.looks_state`).
-/

namespace StreamPipeline

/-! ### What is tracked -/

namespace Tracked

variable {t : Tracked} {name : String} {stages : List TrackedStage}

/-- The stages that are tracked for a pipeline. -/
def stagesOf (t : Tracked) (name : String) : List TrackedStage := (t.get? name).getD []

/-- The names of all stages that are tracked. -/
def ids (t : Tracked) : List String := t.entries.flatMap fun e => e.2.filterMap (·.id)

/-- The names of the stages that are tracked for a pipeline. -/
def idsOf (t : Tracked) (name : String) : List String :=
  ((t.get? name).getD []).filterMap (·.id)

theorem perm_ids_insert (h : t.get? name = none) (stages : List TrackedStage) :
    ids (t.insert name stages) |>.Perm (stages.filterMap (·.id) ++ ids t) := by
  have hperm := (StringMap.perm_insert h stages).flatMap_right fun e => e.2.filterMap (·.id)
  rwa [List.flatMap_cons] at hperm

theorem perm_ids_erase (t : Tracked) (name : String) :
    (ids t).Perm (idsOf t name ++ ids (t.erase name)) := by
  cases h : t.get? name with
  | none =>
      rw [t.erase_of_get?_eq_none h, idsOf, h]
      exact .refl _
  | some stages =>
      have hperm := (StringMap.perm_erase h).flatMap_right fun e => e.2.filterMap (·.id)
      rw [List.flatMap_cons] at hperm
      rwa [idsOf, h]

end Tracked

namespace Direct

open World (direct)

variable {w : World} {name : String}

/-! ### Single steps -/

theorem passes_launch {r : Request} {P : World → Prop} {Q : Except Failure String → World → Prop} :
    (direct.launcher.launch r).Passes w P Q ↔ P w ∧
      Q (Call.apply (·.launch r.label) w.launches).1
        { w with launches := (Call.apply (·.launch r.label) w.launches).2 } := by
  show ((Launcher.inMemory World.launchesPart).launch r).Passes w P Q ↔ _
  simp only [Launcher.inMemory, Call.passes_bind, Activity.look, Call.passes_ofActivity_step,
    Call.update]
  -- A start that takes time has one more state on the way, which is the same.
  cases (World.launchesPart.get w).delay with
  | none => simp [Part.lift, World.launchesPart]
  | some ms => simp [Call.passes_pause, Part.lift, World.launchesPart]

theorem passes_stop {id : String} {P : World → Prop} {Q : Except Failure Unit → World → Prop} :
    (direct.launcher.stop id).Passes w P Q ↔
      P w ∧ Q (w.launches.stop id).1 { w with launches := (w.launches.stop id).2 } :=
  Call.passes_step

theorem passes_status {id : String} {P : World → Prop} {Q : Except Failure State → World → Prop} :
    (direct.launcher.status id).Passes w P Q ↔ P w ∧ Q (w.launches.status id) w :=
  Call.passes_step

theorem passes_track {f : Tracked → Tracked} {P : World → Prop}
    {Q : Except Failure Unit → World → Prop} :
    (Call.ofActivity (Activity.change (direct.tracked.modify f))).Passes w P Q ↔
      P w ∧ Q (.ok ()) { w with tracked := f w.tracked } :=
  Call.passes_ofActivity_step

theorem passes_tracked {P : World → Prop}
    {Q : Except Failure (Option (List TrackedStage)) → World → Prop} :
    (Call.ofActivity (Activity.look fun s => (direct.tracked.get s).get? name)).Passes w P Q ↔
      P w ∧ Q (.ok (w.tracked.get? name)) w :=
  Call.passes_ofActivity_step

/-! ### Starting the stages of a pipeline -/

/-- The stages of requests, running under some names. -/
def running (requests : List Request) (ids : List String) : List TrackedStage :=
  List.zipWith (fun r id => ⟨r.label, some id⟩) requests ids

/-- The stages of requests, none of which is running. -/
def pending (requests : List Request) : List TrackedStage := requests.map fun r => ⟨r.label, none⟩

/-- What is tracked where `stages` are left of a pipeline. -/
def leaving (t : Tracked) (name : String) (stages : List TrackedStage) : Tracked :=
  if stages.isEmpty then t.erase name else t.insert name stages

/-- On the way of starting stages, where the stages `done` of the pipeline are running already: some
are started and noted as running, and what follows may have been started without being noted yet. -/
inductive Launching (w : World) (name : String) (done : List TrackedStage)
    (requests : List Request) : World → Prop where
  | mk {before next after : List Request} {ids new : List String} {l : Launches}
      (hrequests : requests = before ++ (next ++ after)) (hlength : ids.length = before.length)
      (h : w.launches.Starts ((before ++ next).map Request.label) (ids ++ new) l) :
      Launching w name done requests
        { w with
          launches := l
          tracked := w.tracked.insert name (done ++ running before ids ++ pending (next ++ after)) }

/-- What starting stages comes to where the stages `done` of the pipeline are running already: all
are started, or those in front of the first that fails. -/
inductive Launched (w : World) (name : String) (done : List TrackedStage)
    (requests : List Request) : Except Failure (List String) → World → Prop where
  | all {ids : List String} {l : Launches}
      (h : w.launches.Starts (requests.map Request.label) ids l) :
      Launched w name done requests (.ok ids)
        { w with launches := l, tracked := w.tracked.insert name (done ++ running requests ids) }
  | broken {before after : List Request} {r : Request} {ids : List String} {l : Launches}
      (hrequests : requests = before ++ r :: after)
      (h : w.launches.Starts (before.map Request.label) ids l)
      (hr : w.launches.failingLaunch.contains r.label = true) :
      Launched w name done requests (.error (.broken (.launch r.label)))
        { w with launches := l, tracked := leaving w.tracked name (done ++ running before ids) }

theorem giveUp_eq {t : Tracked} {done : List TrackedStage} {requests : List Request}
    (hdone : ∀ s ∈ done, s.id.isSome) (ht : t.get? name = some (done ++ pending requests)) :
    t.giveUp name = leaving t name done := by
  have hfilter : (done ++ pending requests).filter (·.id.isSome) = done := by
    rw [List.filter_append, List.filter_eq_self.2 hdone,
      List.filter_eq_nil_iff.2 (by simp [pending]), List.append_nil]
  simp only [Tracked.giveUp, ht, hfilter, leaving]

theorem started_eq {t : Tracked} {done rest : List TrackedStage} {label : String}
    (ht : t.get? name = some (done ++ ⟨label, none⟩ :: rest)) (id : String) :
    t.started name done.length id = t.insert name (done ++ [⟨label, some id⟩] ++ rest) := by
  have hmodify : (done ++ ⟨label, none⟩ :: rest).modify done.length ({ · with id := some id }) =
      done ++ ⟨label, some id⟩ :: rest := by
    clear ht
    induction done with
    | nil => rfl
    | cons s done ih => simpa using ih
  simp only [Tracked.started, ht, hmodify, List.append_assoc, List.singleton_append]

theorem leaving_insert (t : Tracked) (name : String) (stages stages' : List TrackedStage) :
    leaving (t.insert name stages) name stages' = leaving t name stages' := by
  unfold leaving
  rw [StringMap.erase_insert, StringMap.insert_insert]

/-- Nothing that was asked for has been noted as running yet. -/
theorem launching_of_tracked {done : List TrackedStage} (next : List Request)
    {after : List Request} {new : List String} {l : Launches}
    (ht : w.tracked.get? name = some (done ++ pending (next ++ after)))
    (h : w.launches.Starts (next.map Request.label) new l) :
    Launching w name done (next ++ after) { w with launches := l } := by
  have hmk := @Launching.mk w name done (next ++ after) [] next after [] new l rfl rfl h
  rwa [show running [] [] = [] from rfl, List.append_nil, StringMap.insert_of_get? ht] at hmk

theorem passes_launchFrom : ∀ (requests : List Request) (done : List TrackedStage) {w : World},
    (∀ s ∈ done, s.id.isSome) → w.tracked.get? name = some (done ++ pending requests) →
    (direct.launchFrom name done.length requests).Passes w (Launching w name done requests)
      (Launched w name done requests)
  | [], done, w => fun _ ht => by
      have hall : Launched w name done [] _ _ := .all (.nil w.launches)
      rw [show running [] [] = pending [] from rfl, StringMap.insert_of_get? ht] at hall
      exact Call.passes_pure.2 hall
  | r :: rs, done, w => fun hdone ht => by
      have hhere : Launching w name done (r :: rs) w :=
        launching_of_tracked [] ht (.nil w.launches)
      rw [launchFrom]
      simp only [Call.passes_bind, Call.passes_tryCatch, passes_launch, passes_track]
      refine ⟨hhere, ?_⟩
      cases hr : w.launches.failingLaunch.contains r.label with
      | true =>
          have hbroken : Launched w name done (r :: rs) _ _ :=
            .broken (List.nil_append (r :: rs)).symm (.nil _) hr
          rw [Call.apply_of_error (Launches.launch_eq_error hr), giveUp_eq hdone ht]
          exact ⟨hhere, by simpa [running] using hbroken⟩
      | false =>
          obtain ⟨id, l₁, hl⟩ := Launches.exists_launch hr
          have hfailing : l₁.failingLaunch = w.launches.failingLaunch := by
            rw [(Launches.launch_eq_ok hl).2]
          rw [Call.apply_of_ok hl]
          dsimp only
          refine ⟨launching_of_tracked [r] ht (.cons hl (.nil l₁)), ?_⟩
          rw [started_eq ht id]
          have hrest := passes_launchFrom rs (done ++ [⟨r.label, some id⟩])
            (w := { w with
              launches := l₁
              tracked := w.tracked.insert name (done ++ [⟨r.label, some id⟩] ++ pending rs) })
            (by simpa [or_imp, forall_and] using hdone) (StringMap.get?_insert_self ..)
          rw [List.length_append] at hrest
          refine hrest.imp (fun w' h => ?_) fun o w' h => ?_
          · cases h with
            | @mk before next after ids new l hrequests hlength h =>
                have hmk := @Launching.mk w name done (r :: rs) (r :: before) next after
                  (id :: ids) new l (congrArg (r :: ·) hrequests) (congrArg Nat.succ hlength)
                  (.cons hl h)
                simpa [running, StringMap.insert_insert] using hmk
          · cases h with
            | all h =>
                have hall : Launched w name done (r :: rs) _ _ := .all (.cons hl h)
                simpa [running, StringMap.insert_insert] using hall
            | @broken before after q ids l hrequests h hfail =>
                have hbroken : Launched w name done (r :: rs) _ _ :=
                  .broken (show r :: rs = (r :: before) ++ q :: after from
                    congrArg (r :: ·) hrequests) (.cons hl h) (hfailing ▸ hfail)
                simpa [running, leaving_insert] using hbroken

/-! ### Stopping the stages of a pipeline -/

/-- On the way of stopping stages: some of them are stopped. -/
inductive Stopping (w : World) (ids : List String) : World → Prop where
  | mk {stopped rest : List String} {l : Launches} (hids : ids = stopped ++ rest)
      (h : w.launches.Stops stopped l) : Stopping w ids { w with launches := l }

/-- Stages are stopped one after the other where no stop fails. -/
theorem passes_stops {ids : List String} {w : World} {l : Launches} (h : w.launches.Stops ids l) :
    (ids.forM direct.launcher.stop).Passes w (Stopping w ids) fun r w' =>
      r = .ok ⟨⟩ ∧ w' = { w with launches := l } := by
  induction ids generalizing w with
  | nil =>
      cases h
      exact Call.passes_pure.2 ⟨rfl, rfl⟩
  | cons id ids ih =>
      cases h with
      | @cons _ l₁ _ _ _ h t =>
          rw [show (id :: ids).forM direct.launcher.stop =
            direct.launcher.stop id >>= fun _ => ids.forM direct.launcher.stop from rfl,
            Call.passes_bind, passes_stop, h]
          refine ⟨.mk rfl (.nil _), (ih (w := { w with launches := l₁ }) t).imp (fun w' hw' => ?_)
            fun r w' hw' => hw'⟩
          cases hw' with
          | mk hids h' => exact .mk (congrArg (id :: ·) hids) (.cons h h')

/-! ### Names of running stages -/

theorem filterMap_running {requests : List Request} {ids : List String}
    (h : ids.length = requests.length) : (running requests ids).filterMap (·.id) = ids := by
  induction requests generalizing ids with
  | nil => simp_all [running]
  | cons r rs ih =>
      cases ids with
      | nil => cases h
      | cons id ids =>
          have hrest := ih (Nat.succ.inj h)
          simp only [running, List.zipWith_cons_cons, List.filterMap_cons] at hrest ⊢
          rw [hrest]

theorem running_eq_nil_iff {requests : List Request} {ids : List String}
    (h : ids.length = requests.length) : running requests ids = [] ↔ requests = [] := by
  rw [← List.length_eq_zero_iff, running, List.length_zipWith, h, Nat.min_self,
    List.length_eq_zero_iff]

theorem filterMap_pending (requests : List Request) :
    (pending requests).filterMap (·.id) = [] := by
  simp [pending]

theorem mem_running {requests : List Request} {ids : List String} {s : TrackedStage}
    (h : s ∈ running requests ids) :
    ∃ id, s.id = some id ∧ (s.label, id) ∈ (requests.map Request.label).zip ids := by
  rw [running, ← List.map_uncurry_zip_eq_zipWith] at h
  obtain ⟨⟨r, id⟩, hmem, rfl⟩ := List.mem_map.1 h
  refine ⟨id, rfl, ?_⟩
  rw [List.zip_map_left]
  exact List.mem_map.2 ⟨_, hmem, rfl⟩

theorem mem_zip_of_running {requests : List Request} {ids : List String} {s : TrackedStage}
    (h : s ∈ running requests ids) {id : String} (hid : s.id = some id) :
    (s.label, id) ∈ (requests.map Request.label).zip ids := by
  obtain ⟨id', hid', hzip⟩ := mem_running h
  obtain rfl := Option.some.inj (hid'.symm.trans hid)
  exact hzip

/-! ### Calls -/

/-- What a stage reports: that it is deployed if it runs under a name, and that it is being deployed
otherwise. -/
def report (s : TrackedStage) : StageStatus :=
  match s.id with
  | some id => ⟨s.label, id, .deployed⟩
  | none => ⟨s.label, "", .deploying⟩

/-- States are learnt without failure, and whatever is tracked under a name is running. -/
structure Steady (w : World) : Prop where
  status : w.launches.failingStatus = []
  running : ∀ name, ∀ s ∈ w.tracked.stagesOf name, ∀ id, s.id = some id →
    w.launches.running.get? id = some .deployed

theorem looks_report (hstatus : w.launches.failingStatus = []) {s : TrackedStage}
    (hs : ∀ id, s.id = some id → w.launches.running.get? id = some .deployed) :
    (direct.stageStatus s).Looks w (.ok (report s)) := by
  unfold Call.Looks Direct.stageStatus report
  cases hid : s.id with
  | none => exact Call.passes_pure.2 ⟨rfl, rfl⟩
  | some id =>
      have hrun : w.launches.status id = .ok .deployed := by
        simp [Launches.status, Launches.fails, hstatus, hs id hid]
      rw [Call.passes_bind, passes_status, hrun]
      exact ⟨rfl, Call.passes_pure.2 ⟨rfl, rfl⟩⟩

theorem looks_reports (hstatus : w.launches.failingStatus = []) {stages : List TrackedStage}
    (hstages : ∀ s ∈ stages, ∀ id, s.id = some id → w.launches.running.get? id = some .deployed) :
    (stages.mapM direct.stageStatus).Looks w (.ok (stages.map report)) := by
  induction stages with
  | nil => exact Call.passes_pure.2 ⟨rfl, rfl⟩
  | cons s stages ih =>
      have hone := looks_report hstatus (hstages s (.head _))
      have hrest := ih fun s' hs' => hstages s' (.tail _ hs')
      rw [List.mapM_cons]
      refine Call.passes_bind.2 (hone.passes rfl (Call.passes_bind.2 (hrest.passes rfl ?_)))
      exact Call.passes_pure.2 ⟨rfl, rfl⟩

/-- Whatever is tracked reports. -/
theorem Steady.looks_statuses (h : Steady w) (name : String) :
    (direct.statuses name).Looks w (match w.tracked.get? name with
      | some stages => .ok (stages.map report)
      | none => .error (.noRelease name)) := by
  refine Call.passes_bind.2 (passes_tracked.2 ⟨rfl, ?_⟩)
  have hstages := h.running name
  cases ht : w.tracked.get? name with
  | none => exact Call.passes_throw.2 ⟨rfl, rfl⟩
  | some stages =>
      rw [Tracked.stagesOf, ht] at hstages
      exact looks_reports h.status hstages

theorem Steady.looks_state (h : Steady w) (name : String) :
    (Deployer.stateOf (direct.statuses name)).Looks w
      (.ok (PipelineStatus.ofStages ((w.tracked.stagesOf name).map report)).state) := by
  refine Call.passes_tryCatch.2 (Call.passes_bind.2 ((h.looks_statuses name).passes rfl ?_))
  unfold Tracked.stagesOf
  cases w.tracked.get? name with
  | none => exact Call.passes_pure.2 ⟨rfl, rfl⟩
  | some stages => exact Call.passes_pure.2 ⟨rfl, rfl⟩

theorem state_reports_eq_deployed_iff {stages : List TrackedStage} :
    (PipelineStatus.ofStages (stages.map report)).state = .deployed ↔
      stages ≠ [] ∧ ∀ s ∈ stages, ∃ id, s.id = some id := by
  rw [PipelineStatus.ofStages_state_eq_deployed_iff]
  have hone : ∀ s : TrackedStage, (report s).state = .deployed ↔ ∃ id, s.id = some id := by
    intro s
    cases hid : s.id <;> simp [report, hid]
  simp [hone]

/-- What is tracked at all stands in the way of a deployment. -/
theorem allowsDeploy_reports_iff {stages : List TrackedStage} :
    (PipelineStatus.ofStages (stages.map report)).state.allowsDeploy = true ↔ stages = [] := by
  rw [PipelineStatus.allowsDeploy_ofStages_iff, PipelineStatus.ofStages_state_eq_undeployed_iff]
  have hone : ∀ s : TrackedStage, (report s).state ≠ .unknown ∧ (report s).state ≠ .undeployed := by
    intro s
    cases hid : s.id <;> simp [report, hid]
  cases stages with
  | nil => simp
  | cons s stages => simp [(hone s).1, (hone s).2]

theorem Steady.looks_deploy (h : Steady w) (d : Definition) (requests : List Request)
    {e : Failure} (he : State.checkDeployable d.name
      (PipelineStatus.ofStages ((w.tracked.stagesOf d.name).map report)).state = .error e) :
    (direct.deploy d requests).Looks w (.error e) := by
  refine Call.passes_bind.2 ((h.looks_state d.name).passes rfl ?_)
  dsimp only
  rw [Call.passes_bind, he]
  exact Call.passes_ofExcept.2 ⟨rfl, rfl⟩

/-- A deployment of what is not tracked starts its stages. -/
theorem Steady.passes_deploy (h : Steady w) (d : Definition) (requests : List Request)
    (hnil : w.tracked.stagesOf d.name = []) :
    (direct.deploy d requests).Passes w (fun w' => w' = w ∨ Launching w d.name [] requests w')
      fun r w' => ∃ o, Launched w d.name [] requests o w' ∧ r = o.map (⟨none, ·⟩) := by
  have hallowed : State.checkDeployable d.name
      (PipelineStatus.ofStages ((w.tracked.stagesOf d.name).map report)).state = .ok () :=
    if_pos (allowsDeploy_reports_iff.2 hnil)
  have hbegin : w.tracked.begin d.name requests = w.tracked.insert d.name (pending requests) := rfl
  refine Call.passes_bind.2 ((h.looks_state d.name).passes (.inl rfl) ?_)
  dsimp only
  rw [Call.passes_bind, hallowed, Call.passes_ofExcept, Call.passes_bind, passes_track, hbegin,
    Call.passes_bind]
  refine ⟨.inl rfl, (passes_launchFrom requests [] (by simp) (StringMap.get?_insert_self ..)).imp
    (fun w' hw' => .inr ?_) fun o w' hw' => ?_⟩
  · cases hw' with
    | mk hrequests hlength hs =>
        rw [StringMap.insert_insert]
        exact .mk hrequests hlength hs
  · cases hw' with
    | all hs =>
        rw [StringMap.insert_insert]
        exact Call.passes_pure.2 ⟨_, .all hs, rfl⟩
    | broken hrequests hs hr =>
        rw [leaving_insert]
        exact ⟨_, .broken hrequests hs hr, rfl⟩

/-- What is tracked for a pipeline ceases to be so before its stages are stopped, the last one
first. -/
theorem passes_undeploy {l : Launches} (hs : w.launches.Stops (w.tracked.idsOf name).reverse l) :
    (direct.undeploy name).Passes w
      (fun w' => w' = w ∨
        Stopping { w with tracked := w.tracked.erase name } (w.tracked.idsOf name).reverse w')
      fun r w' => r = .ok () ∧
        w' = { w with launches := l, tracked := w.tracked.erase name } := by
  unfold Direct.undeploy
  rw [Call.passes_bind, passes_tracked]
  refine ⟨.inl rfl, ?_⟩
  cases ht : w.tracked.get? name with
  | none =>
      rw [Tracked.idsOf, ht] at hs
      cases hs
      rw [w.tracked.erase_of_get?_eq_none ht]
      exact Call.passes_pure.2 ⟨rfl, rfl⟩
  | some stages =>
      have hids : stages.reverse.filterMap (·.id) = (w.tracked.idsOf name).reverse := by
        simp [Tracked.idsOf, ht, List.filterMap_reverse]
      dsimp only
      rw [Call.passes_bind, passes_track, hids]
      exact ⟨.inl rfl, (passes_stops (w := { w with tracked := w.tracked.erase name }) hs).imp
        (fun w' hw' => .inr hw') fun r w' hw' => hw'⟩

end Direct

end StreamPipeline
