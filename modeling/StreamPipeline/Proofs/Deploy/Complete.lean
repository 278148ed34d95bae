import Mathlib.Data.List.TakeWhile
import Mathlib.Logic.Function.Basic
import StreamPipeline.Proofs.Deploy.Direct
import StreamPipeline.Samples

/-!
# What a pipeline that is deployed lacks

`World.Timeline` is any run of direct deployments up to any moment, also in the middle of a call.
At each moment a pipeline stands in one of three ways (`Standing`): nothing of it is tracked; its
stages are tracked, those that have been started in front of those that are to be; or a stage did
not start, and only those in front of it are tracked. Each step of a call keeps this (`Kept`).

**What is there of a pipeline that is deployed** is said by `World.complete_of_deployed`. It is
complete unless a stage that was asked for fails to start; then it is deployed all the same, and
lacks that stage and all that come behind it.
-/

namespace StreamPipeline

namespace Tracked

variable (t : Tracked) (name : String) (stages : List TrackedStage)

theorem mem_idsOf_iff {t : Tracked} {name id : String} :
    id ∈ t.idsOf name ↔ ∃ s ∈ t.stagesOf name, s.id = some id :=
  List.mem_filterMap

theorem stagesOf_insert (n : String) : stagesOf (t.insert name stages) n =
    if n = name then stages else t.stagesOf n := by
  unfold stagesOf
  rw [StringMap.get?_insert]
  split <;> rfl

theorem stagesOf_erase (n : String) : stagesOf (t.erase name) n =
    if n = name then [] else t.stagesOf n := by
  unfold stagesOf
  rw [StringMap.get?_erase]
  split <;> rfl

theorem stagesOf_leaving (n : String) : stagesOf (Direct.leaving t name stages) n =
    if n = name then stages else t.stagesOf n := by
  unfold Direct.leaving
  split
  · next hnil => rw [stagesOf_erase, List.isEmpty_iff.1 hnil]
  · exact stagesOf_insert t name stages n

end Tracked

namespace World

open Direct

/-! ### Moments -/

/-- How a pipeline stands of which `requests` were asked for, by the stages that are tracked. -/
inductive Standing (failing : List String) (requests : List Request) :
    List TrackedStage → Prop where
  | absent : Standing failing requests []
  | launching {before after : List Request} {ids : List String}
      (hrequests : requests = before ++ after) (hlength : ids.length = before.length) :
      Standing failing requests (running before ids ++ pending after)
  | broken {before after : List Request} {r : Request} {ids : List String}
      (hrequests : requests = before ++ r :: after) (hlength : ids.length = before.length)
      (hr : r.label ∈ failing) : Standing failing requests (running before ids)

/-- Every pipeline stands in one of these ways, and what is tracked as running is, each stage under
a name of its own. -/
structure Kept (failing : List String) (asked : String → List Request) (w : World) : Prop where
  counted : w.launches.Counted
  fails : w.launches.failingLaunch = failing
  /-- States are learnt and stages stopped without failure. -/
  quiet : w.launches.failingStatus = [] ∧ w.launches.failingStop = []
  sound : ∀ x ∈ w.launches.started, x.label ∉ failing
  runs : ∀ name, ∀ s ∈ w.tracked.stagesOf name, ∀ id, s.id = some id → w.launches.Runs id s.label
  nodup : ∀ name, (w.tracked.idsOf name).Nodup
  apart : ∀ name other id, id ∈ w.tracked.idsOf name → id ∈ w.tracked.idsOf other → name = other
  standing : ∀ name, Standing failing (asked name) (w.tracked.stagesOf name)

namespace Kept

variable {failing : List String} {asked : String → List Request} {w x : World} {name : String}

theorem start {delay : Option Nat} (hlaunches : w.launches = { failingLaunch := failing, delay })
    (htracked : w.tracked = ∅) : Kept failing (fun _ => []) w where
  counted := hlaunches ▸ ⟨nofun, nofun⟩
  fails := hlaunches ▸ rfl
  quiet := hlaunches ▸ ⟨rfl, rfl⟩
  sound := hlaunches ▸ nofun
  runs _ := htracked ▸ nofun
  nodup _ := htracked ▸ .nil
  apart _ _ _ := htracked ▸ nofun
  standing _ := htracked ▸ .absent

theorem steady (h : Kept failing asked w) : Steady w where
  status := h.quiet.1
  running name s hs id hid := (h.runs name s hs id hid).running

theorem mem_keys (h : Kept failing asked w) {id : String} (hid : id ∈ w.tracked.idsOf name) :
    id ∈ w.launches.running.keys := by
  obtain ⟨s, hs, hid⟩ := Tracked.mem_idsOf_iff.1 hid
  exact (h.runs name s hs id hid).mem_keys

/-- Some stages are started, and are what is tracked of a pipeline from then on. -/
theorem starts {labels ids : List String} {l : Launches} {t : Tracked}
    {stages : List TrackedStage} (h : Kept failing asked w)
    (ht : ∀ n, t.stagesOf n = if n = name then stages else w.tracked.stagesOf n)
    (hs : w.launches.Starts labels ids l)
    (hstages : ∀ s ∈ stages, ∀ id, s.id = some id → (s.label, id) ∈ labels.zip ids)
    (hids : (stages.filterMap (·.id)).Sublist ids)
    (hstanding : Standing failing (asked name) stages) :
    Kept failing asked { w with launches := l, tracked := t } := by
  have hof : ∀ n, t.idsOf n = if n = name then stages.filterMap (·.id) else w.tracked.idsOf n := by
    intro n
    show (t.stagesOf n).filterMap (·.id) = _
    rw [ht]
    split <;> rfl
  obtain ⟨hnodup, -, hnew⟩ := List.nodup_append.1 (hs.nodup h.counted)
  -- What is started has a name that no stage of another pipeline has.
  have hother : ∀ n id, id ∈ stages.filterMap (·.id) → id ∉ w.tracked.idsOf n :=
    fun n id hid hin => hnew id (hids.subset hid) id (h.mem_keys hin) rfl
  refine ⟨hs.counted h.counted, hs.failing.1.trans h.fails, ?_, ?_, ?_, ?_, ?_, ?_⟩
  · rw [hs.failing.2.1, hs.failing.2.2]
    exact h.quiet
  · obtain rfl := h.fails
    exact hs.sound h.sound
  · intro n s hmem id hid
    rw [ht] at hmem
    split at hmem
    · exact hs.runs (hstages s hmem id hid)
    · exact (h.runs n s hmem id hid).starts hs
  · intro n
    rw [hof]
    split
    · exact hids.nodup hnodup
    · exact h.nodup n
  · intro n m id hn hm
    rw [hof] at hn hm
    split at hn <;> split at hm
    · next hn' hm' => exact hn'.trans hm'.symm
    · exact absurd hm (hother m id hn)
    · exact absurd hn (hother n id hm)
    · exact h.apart n m id hn hm
  · intro n
    rw [ht]
    split
    · next hn => exact hn ▸ hstanding
    · exact h.standing n

/-- Some stages of a pipeline are stopped, which is not tracked any more. -/
theorem stops {ids : List String} {l : Launches} (h : Kept failing asked w)
    (hs : w.launches.Stops ids l) (hids : ∀ id ∈ ids, id ∈ w.tracked.idsOf name) :
    Kept failing asked { w with launches := l, tracked := w.tracked.erase name } := by
  have hsub : ∀ n, (Tracked.idsOf (w.tracked.erase name) n).Sublist (w.tracked.idsOf n) := by
    intro n
    show ((Tracked.stagesOf (w.tracked.erase name) n).filterMap (·.id)).Sublist _
    rw [Tracked.stagesOf_erase]
    split
    · exact List.nil_sublist _
    · exact .refl _
  have hl := hs.eq h.quiet.2
  refine ⟨hs.counted h.quiet.2 h.counted, by rw [hl]; exact h.fails, by rw [hl]; exact h.quiet,
    by rw [hl]; exact h.sound, ?_, fun n => (hsub n).nodup (h.nodup n),
    fun n m id hn hm => h.apart n m id ((hsub n).subset hn) ((hsub m).subset hm), ?_⟩
  · intro n s hmem id hid
    dsimp only at hmem
    rw [Tracked.stagesOf_erase] at hmem
    split at hmem
    · cases hmem
    · next hne =>
        refine (h.runs n s hmem id hid).stops hs h.quiet.2 fun hin => hne ?_
        exact h.apart n name id (Tracked.mem_idsOf_iff.2 ⟨s, hmem, hid⟩) (hids id hin)
  · intro n
    dsimp only
    rw [Tracked.stagesOf_erase]
    split
    · exact .absent
    · exact h.standing n

/-- Stages are asked for of a pipeline that is not tracked. -/
theorem asks (h : Kept failing asked w) (hnil : w.tracked.stagesOf name = [])
    (requests : List Request) : Kept failing (Function.update asked name requests) w :=
  { h with
    standing := by
      intro n
      by_cases hn : n = name
      · rw [hn, hnil]
        exact .absent
      · rw [Function.update_of_ne hn]
        exact h.standing n }

theorem launching (h : Kept failing asked w) (hx : Launching w name [] (asked name) x) :
    Kept failing asked x := by
  cases hx with
  | @mk before next after ids new l hrequests hlength hs =>
      refine h.starts (Tracked.stagesOf_insert _ _ _) hs (fun s hmem id hid => ?_) ?_
        (.launching hrequests hlength)
      · rcases List.mem_append.1 hmem with hmem | hmem
        · rw [List.map_append, List.zip_append (by simpa using hlength.symm)]
          exact List.mem_append_left _ (mem_zip_of_running hmem hid)
        · obtain ⟨r, -, rfl⟩ := List.mem_map.1 hmem
          cases hid
      · rw [List.nil_append, List.filterMap_append, filterMap_pending, List.append_nil,
          filterMap_running hlength]
        exact List.sublist_append_left ids new

theorem launched (h : Kept failing asked w) {o : Except Failure (List String)}
    (hx : Launched w name [] (asked name) o x) : Kept failing asked x := by
  cases hx with
  | @all ids l hs =>
      have hlength : ids.length = (asked name).length := by simpa using hs.length_eq
      refine h.starts (Tracked.stagesOf_insert _ _ _) hs (fun _ hmem _ => mem_zip_of_running hmem)
        ?_ ?_
      · exact (filterMap_running hlength).symm ▸ .refl _
      · exact List.append_nil (running (asked name) ids) ▸
          .launching (List.append_nil _).symm hlength
  | @broken before after r ids l hrequests hs hr =>
      have hlength : ids.length = before.length := by simpa using hs.length_eq
      refine h.starts (Tracked.stagesOf_leaving _ _ _) hs (fun _ hmem _ => mem_zip_of_running hmem)
        ?_ ?_
      · exact (filterMap_running hlength).symm ▸ .refl _
      · rw [h.fails] at hr
        exact .broken hrequests hlength (List.contains_iff_mem.1 hr)

/-! ### Calls -/

/-- What is asked for is what a deployment asks for where one may start, and what was asked for
before otherwise. -/
theorem passes_deploy (h : Kept failing asked w) (d : Definition) (requests : List Request)
    {s : State}
    (hs : s = (PipelineStatus.ofStages ((w.tracked.stagesOf d.name).map report)).state) :
    (direct.deploy d requests).Passes w
      (Kept failing (if s.allowsDeploy then Function.update asked d.name requests else asked))
      fun _ => Kept failing (if s.allowsDeploy then Function.update asked d.name requests
        else asked) := by
  cases hallows : s.allowsDeploy with
  | false =>
      cases he : State.checkDeployable d.name s with
      | ok => cases hallows.symm.trans (State.checkDeployable_eq_ok_iff.1 he)
      | error e => exact (h.steady.looks_deploy d requests (hs ▸ he)).passes h h
  | true =>
      have hnil : w.tracked.stagesOf d.name = [] := allowsDeploy_reports_iff.1 (hs ▸ hallows)
      have hasks := h.asks hnil requests
      have hsame : Function.update asked d.name requests d.name = requests :=
        Function.update_self ..
      refine (h.steady.passes_deploy d requests hnil).imp (fun x hx => ?_) fun r x hx => ?_
      · rcases hx with rfl | hx
        · exact hasks
        · exact hasks.launching (hsame.symm ▸ hx)
      · obtain ⟨o, hx, -⟩ := hx
        exact hasks.launched (hsame.symm ▸ hx)

theorem passes_undeploy (h : Kept failing asked w) (name : String) :
    (direct.undeploy name).Passes w (Kept failing asked) fun _ => Kept failing asked := by
  obtain ⟨l, hs⟩ := Launches.exists_stops h.quiet.2 (w.tracked.idsOf name).reverse
  refine (Direct.passes_undeploy hs).imp (fun x hx => ?_) ?_
  · rcases hx with rfl | hx
    · exact h
    · cases hx with
      | mk hids hstops =>
          refine h.stops hstops fun id hid => List.mem_reverse.1 ?_
          rw [hids]
          exact List.mem_append_left _ hid
  · rintro _ _ ⟨-, rfl⟩
    exact h.stops hs fun id hid => List.mem_reverse.1 hid

end Kept

/-! ### Runs -/

/-- Any run of direct deployments up to any moment, with some labels that fail to start: what was
asked for by the latest deployment of each pipeline that was let start, the world, and what is left
of the latest call. -/
inductive Timeline (failing : List String) (delay : Option Nat) :
    (String → List Request) → World → Activity World (Except Failure Unit) → Prop where
  | start {w : World} (hlaunches : w.launches = { failingLaunch := failing, delay })
      (htracked : w.tracked = ∅) : Timeline failing delay (fun _ => []) w (.done (.ok ()))
  | deploy {asked : String → List Request} {w : World} {r : Except Failure Unit}
      (t : Timeline failing delay asked w (.done r)) (d : Definition) (requests : List Request)
      (p : Properties) {s : State} (hs : (direct.deployer.state d.name).Gives w (.ok s) w) :
      Timeline failing delay
        (if s.allowsDeploy then Function.update asked d.name requests else asked) w
        (discard (direct.deployer.deploy d requests p)).outcome
  | undeploy {asked : String → List Request} {w : World} {r : Except Failure Unit}
      (t : Timeline failing delay asked w (.done r)) (name : String) :
      Timeline failing delay asked w (direct.deployer.undeploy name).outcome
  | step {asked : String → List Request} {w w' : World}
      {p q : Activity World (Except Failure Unit)} (t : Timeline failing delay asked w p)
      (h : p.Step w q w') : Timeline failing delay asked w' q

variable {failing : List String} {delay : Option Nat} {asked : String → List Request} {w : World}
  {name : String} {p : Activity World (Except Failure Unit)}

/-- A call that is going on comes to its end. -/
theorem Timeline.finish (t : Timeline failing delay asked w p) {r : Except Failure Unit}
    {w' : World} (h : p.alone w = some (r, w')) : Timeline failing delay asked w' (.done r) :=
  Activity.kept_of_alone (C := fun p w => Timeline failing delay asked w p)
    (fun _ _ _ _ t h => t.step h) t h

/-- Each pipeline stands in one of the ways in which it can, at each moment. -/
theorem Timeline.passes (t : Timeline failing delay asked w p) :
    p.Passes (Kept failing asked) (fun _ => Kept failing asked) w := by
  induction t with
  | start hlaunches htracked => exact .done (.start hlaunches htracked)
  | @deploy asked w r t d requests p s hs ih =>
      have h := Activity.passes_done.1 ih
      obtain ⟨hs, -⟩ := Activity.Gives.unique hs (h.steady.looks_state d.name).gives
      exact Call.passes_discard.2 (h.passes_deploy d requests (Except.ok.inj hs))
  | undeploy t name ih => exact (Activity.passes_done.1 ih).passes_undeploy name
  | step t h ih => exact ih.step h

theorem Timeline.kept (t : Timeline failing delay asked w p) : Kept failing asked w :=
  t.passes.here fun _ _ h => h

/-! ### What is there -/

/-- All that is asked for is there: for each request in turn a stage of the pipeline has been
started and is running, each under a name of its own. -/
def Complete (w : World) (name : String) (requests : List Request) : Prop :=
  (w.tracked.idsOf name).Nodup ∧
    List.Forall₂ (fun r id => w.launches.Runs id r.label) requests (w.tracked.idsOf name)

theorem Kept.complete {before : List Request} {ids : List String} (h : Kept failing asked w)
    (hstages : w.tracked.stagesOf name = running before ids)
    (hlength : ids.length = before.length) : Complete w name before := by
  have hids : w.tracked.idsOf name = ids := by
    show (w.tracked.stagesOf name).filterMap (·.id) = ids
    rw [hstages, filterMap_running hlength]
  refine ⟨h.nodup name, hids ▸ List.forall₂_iff_zip.2 ⟨hlength.symm, fun {r id} hmem => ?_⟩⟩
  refine h.runs name ⟨r.label, some id⟩ ?_ id rfl
  rw [hstages, running, ← List.map_uncurry_zip_eq_zipWith]
  exact List.mem_map.2 ⟨(r, id), hmem, rfl⟩

/-- Nothing is complete that a label which fails was asked for. -/
theorem Kept.sound_of_complete {requests : List Request} (h : Kept failing asked w)
    (hcomplete : Complete w name requests) : ∀ r ∈ requests, r.label ∉ failing := by
  intro r hr
  obtain ⟨i, hi, rfl⟩ := List.getElem_of_mem hr
  have hruns := hcomplete.2.get hi (hcomplete.2.length_eq ▸ hi)
  exact h.sound _ hruns.started

/-- A pipeline that is deployed has the stages in front of the first that fails. -/
theorem Kept.complete_takeWhile (h : Kept failing asked w)
    (hstages : w.tracked.stagesOf name ≠ [] ∧ ∀ s ∈ w.tracked.stagesOf name, ∃ id, s.id = some id) :
    Complete w name ((asked name).takeWhile fun r => !failing.contains r.label) := by
  obtain ⟨hne, hall⟩ := hstages
  have hstanding := h.standing name
  generalize hof : w.tracked.stagesOf name = stages at hne hall hstanding
  cases hstanding with
  | absent => exact absurd rfl hne
  | @launching before after ids hrequests hlength =>
      -- Where all stages run, none is left to be started.
      obtain rfl : after = [] := by
        cases after with
        | nil => rfl
        | cons r after =>
            obtain ⟨id, hid⟩ := hall ⟨r.label, none⟩ (List.mem_append_right _ (.head _))
            cases hid
      have hcomplete := h.complete (hof.trans (List.append_nil _)) hlength
      have hsound := h.sound_of_complete hcomplete
      rw [List.append_nil] at hrequests
      rw [hrequests, List.takeWhile_eq_self_iff.2 fun r hr => by simpa using hsound r hr]
      exact hcomplete
  | @broken before after r ids hrequests hlength hr =>
      have hcomplete := h.complete hof hlength
      have hsound := h.sound_of_complete hcomplete
      rw [hrequests, List.takeWhile_append_of_pos fun r hr => by simpa using hsound r hr,
        List.takeWhile_cons_of_neg (by simpa using hr), List.append_nil]
      exact hcomplete

/-- Where all that was asked for is there, all stages run. -/
theorem Kept.running_of_complete (h : Kept failing asked w) (hne : asked name ≠ [])
    (hcomplete : Complete w name (asked name)) :
    w.tracked.stagesOf name ≠ [] ∧ ∀ s ∈ w.tracked.stagesOf name, ∃ id, s.id = some id := by
  have hlength : ((w.tracked.stagesOf name).filterMap (·.id)).length = (asked name).length :=
    hcomplete.2.length_eq.symm
  have hstanding := h.standing name
  generalize w.tracked.stagesOf name = stages at hlength hstanding
  cases hstanding with
  | absent => exact absurd (List.length_eq_zero_iff.1 hlength.symm) hne
  | @launching before after ids hrequests hids =>
      rw [List.filterMap_append, filterMap_pending, List.append_nil, filterMap_running hids, hids,
        hrequests, List.length_append] at hlength
      obtain rfl : after = [] := List.length_eq_zero_iff.1 (by omega)
      rw [show pending [] = [] from rfl, List.append_nil]
      rw [List.append_nil] at hrequests
      exact ⟨fun hnil => hne (hrequests.trans ((running_eq_nil_iff hids).1 hnil)),
        fun s hs => (mem_running hs).imp fun _ hid => hid.1⟩
  | @broken before after r ids hrequests hids hr =>
      have hmem : r ∈ asked name := hrequests ▸ List.mem_append_right before (.head _)
      exact absurd hr (h.sound_of_complete hcomplete r hmem)

/-- **What is there of a pipeline that is deployed**, at each moment of each run of direct
deployments, also between two starts of a deployment that is going on. A pipeline has a state.

* Where it is deployed, the stages that were asked for in front of the first that fails to start are
  there, so that it is complete exactly if no stage that was asked for fails to start.
* It is deployed as soon as all that was asked for is there. -/
theorem complete_of_deployed (t : Timeline failing delay asked w p) (name : String) :
    ∃ s, (direct.deployer.state name).Gives w (.ok s) w ∧ (s = .deployed →
      Complete w name ((asked name).takeWhile fun r => !failing.contains r.label) ∧
      (Complete w name (asked name) ↔ ∀ r ∈ asked name, r.label ∉ failing)) ∧
      (asked name ≠ [] → Complete w name (asked name) → s = .deployed) := by
  have h := t.kept
  refine ⟨_, (h.steady.looks_state name).gives, fun hs => ?_, fun hne hcomplete =>
    state_reports_eq_deployed_iff.2 (h.running_of_complete hne hcomplete)⟩
  have hcomplete := h.complete_takeWhile (state_reports_eq_deployed_iff.1 hs)
  refine ⟨hcomplete, h.sound_of_complete, fun hsound => ?_⟩
  rwa [List.takeWhile_eq_self_iff.2 fun r hr => by simpa using hsound r hr] at hcomplete

/-- Where the second stage of the sample pipeline does not start, the first one is all that is
tracked, and the pipeline is deployed. -/
theorem exists_timeline_ticktock : ∃ asked w p, Timeline ["log"] none asked w p ∧
    asked "ticktock" = Samples.ticktockRequests ∧ w.tracked.idsOf "ticktock" = ["time-1"] ∧
    (direct.deployer.state "ticktock").Gives w (.ok .deployed) w := by
  have hstart : Timeline ["log"] none _ { launches := { failingLaunch := ["log"] } } _ :=
    .start rfl rfl
  have hstate := (hstart.kept.steady.looks_state "ticktock").gives
  have t := (hstart.deploy Samples.bound Samples.ticktockRequests ∅ hstate).finish rfl
  exact ⟨_, _, _, t, rfl, rfl, Activity.gives_of_alone rfl⟩

/-- The sample pipeline has its first stage then, and is not complete. -/
theorem complete_of_deployed_ticktock : ∃ asked w p, Timeline ["log"] none asked w p ∧
    asked "ticktock" = Samples.ticktockRequests ∧
    Complete w "ticktock" (Samples.ticktockRequests.take 1) ∧
    ¬ Complete w "ticktock" Samples.ticktockRequests := by
  obtain ⟨asked, w, p, t, hasked, -, hstate⟩ := exists_timeline_ticktock
  obtain ⟨s, hs, hdeployed, -⟩ := complete_of_deployed t "ticktock"
  obtain ⟨hsame, -⟩ := Activity.Gives.unique hs hstate
  obtain ⟨hfirst, hall⟩ := hdeployed (Except.ok.inj hsame)
  rw [hasked] at hfirst hall
  exact ⟨asked, w, p, t, hasked, hfirst, fun h => absurd (hall.1 h) (by decide)⟩

/-- A pipeline is deployed although a stage that was asked for has not been started. -/
theorem not_complete_of_deployed : ¬ ∀ failing delay asked w p name,
    Timeline failing delay asked w p → (direct.deployer.state name).Gives w (.ok .deployed) w →
      Complete w name (asked name) := by
  intro hall
  obtain ⟨asked, w, p, t, hasked, hids, hstate⟩ := exists_timeline_ticktock
  have hlength := (hall _ _ asked w p "ticktock" t hstate).2.length_eq
  rw [hasked, hids] at hlength
  exact absurd hlength (by decide)

end World

end StreamPipeline
