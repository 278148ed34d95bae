import StreamPipeline.Proofs.Concurrent.Serialized
import StreamPipeline.Proofs.Service.Idle
import StreamPipeline.Proofs.Service.Staged

/-!
# Deployments at once

Of any deployments of one pipeline that are asked for at once, each of which would succeed by
itself, the lock lets one do what it would do by itself (`exists_deployed_held`). It leaves the
pipeline active, so that all others are conflicts, and ask for no installation
(`inTurn_deployments`).

**However they take turns, one deployment succeeds** (`World.deployed_once`): the others are
conflicts, one installation was asked for, and the history has one more release.
-/

namespace StreamPipeline

open Activity (Interleaves Turn)

namespace World

variable {c : Configuration} {poller : Poller} {registry : Registry} {name : String}
  {p : Properties} {calls : List Properties} {w w' : World}

/-- Deployments of one pipeline that are asked for at once. -/
def deployments (c : Configuration) (poller : Poller) (registry : Registry) (name : String)
    (calls : List Properties) : List (Activity World (Except Failure Deployment)) :=
  calls.map fun p => ((releaseService c poller registry).deploy name p).outcome

/-! ### One deployment -/

theorem spares_locks (c : Configuration) (poller : Poller) (registry : Registry) (name : String)
    (p : Properties) : ((releaseService c poller registry).deployHeld name p).Spares locksPart :=
  Call.spares_deployHeld Call.spares_install_locksPart p beside_locksPart name

/-- A deployment that succeeds by itself succeeds under the lock, whatever the locks are. -/
theorem exists_deployed_held (hsettled : w.Settled)
    (h : w.Performs c poller registry (.deploy name p) (.ok ()) w') (t : LockTable) :
    ∃ d w₁, ((releaseService c poller registry).deployHeld name p).alone (locksPart.set t w) =
      some (.ok d, w₁) := by
  let held := (releaseService c poller registry).deployHeld name p
  obtain ⟨r, w₁, hheld, -⟩ : held.Ends (w.locking name) _ :=
    Call.works_deployHeld name p (w.locking name) hsettled.1 rfl
  have hdeploy : ((releaseService c poller registry).deploy name p).alone w =
      some (r, w.unlocking w₁ name) := by
    refine (LockTable.alone_holding name held.outcome hsettled.2).trans ?_
    exact congrArg (Option.map _) hheld
  -- the call has one outcome, which is the one that is known to succeed
  have hends : (discard ((releaseService c poller registry).deploy name p)).Ends w
      fun r' _ => r' = r.map fun _ => () :=
    Call.ends_discard.2 ((Call.ends_of_alone hdeploy).2 rfl)
  have hok : .ok () = r.map fun _ => () := hends.gives.2 _ _ h
  obtain ⟨d, rfl⟩ : ∃ d, r = .ok d := by
    cases r with
    | error e => cases hok
    | ok d => exact ⟨d, rfl⟩
  have hspares := spares_locks c poller registry name p
  have hset := hspares.alone_set t (w.locking name)
  exact ⟨d, locksPart.set t w₁, hset.trans (congrArg (Option.map _) hheld)⟩

/-- The pipeline was deployed since the world was `w`, and that once: one installation was asked
for, the history has one more release, and what runs is seen to be active. -/
structure DeployedOnce (w : World) (name : String) (w' : World) : Prop where
  unfailing : w'.calls.failing = []
  definitions : w'.definitions = w.definitions
  active : ∃ s, w'.content.state name = .ok s ∧ s.allowsDeploy = false
  installs : w'.disturbance.installs = w.disturbance.installs + 1
  released : ∃ r, w'.ledger.history name = r :: w.ledger.history name ∧
    r.version = (w.ledger.history name).length + 1 ∧ r.isLive = true

/-- **A deployment that succeeds leaves the pipeline active.** -/
theorem deployedOnce_of_held (hf : w.calls.failing = []) (hkeyed : w.content.Keyed)
    (horderly : w.ledger.Orderly) (hstaged : w.content.Staged)
    (hinitial : w.ledger.initial ≠ .unknown ∧ w.ledger.initial ≠ .undeployed) {t : LockTable}
    {d : Deployment} (h : ((releaseService c poller registry).deployHeld name p).alone
      (locksPart.set t w) = some (.ok d, w')) : DeployedOnce w name w' := by
  obtain ⟨hf', -, ht⟩ := (Call.ends_of_alone h).1
    (Call.works_deployHeld name p (locksPart.set t w) hf rfl)
  obtain ⟨hdefinitions, hactive, hreleased⟩ :=
    ht.active_of_deployed hkeyed horderly hstaged hinitial
  have hinstalls := Call.adds_deployHeld name p _ _ _ h
  exact ⟨hf', hdefinitions, hactive, hinstalls, hreleased⟩

/-- **A deployment of a pipeline that was deployed is a conflict**, and leaves that as it is. -/
theorem DeployedOnce.conflict {w₁ : World} (h : DeployedOnce w name w₁) {d : Definition}
    (hd : w.definitions.get? name = some d) (hname : d.name = name) :
    ∃ reason w₂, ((releaseService c poller registry).deployHeld name p).alone w₁ =
      some (.error (.conflict reason name), w₂) ∧ DeployedOnce w name w₂ := by
  obtain ⟨s, hs, hactive⟩ := h.active
  have hd₁ : w₁.content.definitions.get? name = some d := by
    rw [← hd, ← h.definitions]
    rfl
  obtain ⟨_, w₂, hheld, hf, hinstalls, ⟨reason, rfl⟩, es, hcontent⟩ :=
    (Call.refused_of_active hd₁ hname hs hactive :
      ((releaseService c poller registry).deployHeld name p).WorksBeside installsPart _ _)
      w₁ h.unfailing rfl
  refine ⟨reason, w₂, hheld, hf, ?_, ⟨s, ?_, hactive⟩, hinstalls.trans h.installs, ?_⟩
  · exact (congrArg Content.definitions hcontent).trans h.definitions
  · rw [hcontent]
    exact hs
  · have hledger : w₂.ledger = w₁.ledger := congrArg Content.ledger hcontent
    rw [hledger]
    exact h.released

/-! ### Deployments one after another -/

/-- What deployments of a pipeline have come to one after another, since the world was `w`: the
first one succeeded, and the others were conflicts. -/
inductive Deployed (w : World) (name : String) :
    List (Except Failure Deployment) → World → Prop where
  | none (t : LockTable) : Deployed w name [] (locksPart.set t w)
  | once (d : Deployment) (others : List (Except Failure Deployment)) (w' : World)
      (hothers : ∀ r ∈ others, ∃ reason, r = .error (.conflict reason name))
      (h : DeployedOnce w name w') : Deployed w name (.ok d :: others) w'

/-- A deployment that succeeds is one of a pipeline that is defined. -/
theorem Settled.exists_definition (hsettled : w.Settled)
    (h : w.Performs c poller registry (.deploy name p) (.ok ()) w') :
    ∃ d, w.definitions.get? name = some d := by
  have ht := ((hsettled.performs c poller registry _).2 _ _ h).2
  generalize w'.content = k' at ht
  cases ht with
  | deployed _ _ d _ _ _ _ _ _ hd => exact ⟨d, hd⟩

/-- One more deployment does what it would do by itself if it is the first, and is a conflict
otherwise. -/
theorem Deployed.further {platforms : List Platform} {initial : State} {w₀ : World}
    {rs : List (Except Failure Deployment)}
    (t : Run Operation.Checked (fresh platforms initial) w)
    (hinitial : w.ledger.initial ≠ .unknown ∧ w.ledger.initial ≠ .undeployed)
    (hlone : w.Performs c poller registry (.deploy name p) (.ok ()) w')
    (h : Deployed w name rs w₀) :
    ∃ r w₁, ((releaseService c poller registry).deployHeld name p).alone w₀ = some (r, w₁) ∧
      Deployed w name (rs ++ [r]) w₁ := by
  have hsettled := t.settled (settled_fresh platforms initial)
  cases h with
  | none locks =>
      obtain ⟨d, w₁, hheld⟩ := exists_deployed_held hsettled hlone locks
      exact ⟨.ok d, w₁, hheld, .once d [] w₁ nofun
        (deployedOnce_of_held hsettled.1 t.keyed t.orderly t.staged hinitial hheld)⟩
  | once d others _ hothers h =>
      obtain ⟨d', hd'⟩ := hsettled.exists_definition hlone
      obtain ⟨reason, w₂, hheld, h₂⟩ := h.conflict hd' (t.keyed name d' hd')
      refine ⟨_, w₂, hheld, .once d _ w₂ (fun r hr => ?_) h₂⟩
      rcases List.mem_append.1 hr with hr | hr
      · exact hothers r hr
      · exact ⟨reason, List.mem_singleton.1 hr⟩

/-- Under the lock the first of the deployments succeeds, and the others are conflicts. -/
theorem inTurn_deployments {platforms : List Platform} {initial : State}
    (t : Run Operation.Checked (fresh platforms initial) w)
    (hinitial : w.ledger.initial ≠ .unknown ∧ w.ledger.initial ≠ .undeployed)
    (hlone : ∀ p ∈ calls, ∃ w', w.Performs c poller registry (.deploy name p) (.ok ()) w') :
    InTurn locksPart
      (calls.map fun p => ((releaseService c poller registry).deployHeld name p).outcome)
      (Deployed w name) where
  lawful := lawful_locksPart
  spares := by
    intro q hq
    obtain ⟨p, -, rfl⟩ := List.mem_map.1 hq
    exact spares_locks c poller registry name p
  unlocked := by
    intro rs s locks h
    cases h with
    | none t => exact .none locks
    | once d others _ hothers h =>
        exact .once d others _ hothers
          ⟨h.unfailing, h.definitions, h.active, h.installs, h.released⟩
  works := by
    intro q hq rs s h
    obtain ⟨p, hp, rfl⟩ := List.mem_map.1 hq
    obtain ⟨w', hperforms⟩ := hlone p hp
    exact h.further t hinitial hperforms

/-- **However they take turns, one of the deployments succeeds.** Let deployments of one pipeline be
asked for at once in a world that operations have led to, where only definitions that pass the check
were created. Let no stage start as unknown or undeployed there, and let each of the deployments
succeed by itself, so that no release is running.

* They do not take turns for ever, and whatever they have come to, they can be brought to their end.
* In the end one of them has succeeded, and all others are conflicts. One installation was asked
  for, the history has one more release, with the next version, and no lock is left. -/
theorem deployed_once {platforms : List Platform} {initial : State}
    (t : Run Operation.Checked (fresh platforms initial) w)
    (hinitial : w.ledger.initial ≠ .unknown ∧ w.ledger.initial ≠ .undeployed) (hcalls : calls ≠ [])
    (hlone : ∀ p ∈ calls, ∃ w', w.Performs c poller registry (.deploy name p) (.ok ()) w') :
    (∀ run : ℕ → List (Activity World (Except Failure Deployment)) × World,
      run 0 = (deployments c poller registry name calls, w) →
        ∃ n, ¬ Turn (run n).1 (run n).2 (run (n + 1)).1 (run (n + 1)).2) ∧
    ∀ qs w₁, Interleaves (deployments c poller registry name calls) w qs w₁ →
      (∃ (rs : List (Except Failure Deployment)) (w' : World),
        Interleaves qs w₁ (rs.map .done) w') ∧
      ∀ rs : List (Except Failure Deployment), qs = rs.map .done →
        (∃ before d after, rs = before ++ .ok d :: after ∧
          ∀ r ∈ before ++ after, ∃ reason, r = .error (.conflict reason name)) ∧
        w₁.disturbance.installs = w.disturbance.installs + 1 ∧
        (∃ r, w₁.ledger.history name = r :: w.ledger.history name ∧
          r.version = (w.ledger.history name).length + 1 ∧ r.isLive = true) ∧
        w₁.locks.Idle := by
  have hturn := inTurn_deployments t hinitial hlone
  have htasks : deployments c poller registry name calls =
      (calls.map fun p => ((releaseService c poller registry).deployHeld name p).outcome).map
        (LockTable.holding locksPart name) := by
    rw [List.map_map]
    exact List.map_congr_left fun p _ => congrArg Call.outcome (Service.deploy_eq _ name p)
  refine ⟨fun run _ => ?_, fun qs w₁ hrun => ?_⟩
  · by_contra h
    push Not at h
    exact Activity.not_forever run h
  rw [htasks] at hrun
  obtain ⟨hend, hdone⟩ := LockTable.serialized hturn t.idle (.none w.locks) hrun
  refine ⟨hend, fun rs hrs => ?_⟩
  obtain ⟨done, hperm, hdeployed, hidle'⟩ := hdone rs hrs
  cases hdeployed with
  | none locks =>
      obtain rfl := List.nil_perm.1 hperm
      have hlength := hrun.length_eq
      rw [hrs, List.length_map, List.length_map, List.length_map] at hlength
      exact absurd (List.length_eq_zero_iff.1 hlength.symm) hcalls
  | once d others _ hothers h =>
      obtain ⟨before, after, rfl⟩ := List.append_of_mem (hperm.mem_iff.1 (.head _))
      refine ⟨⟨before, d, after, rfl, fun r hr => hothers r ?_⟩, h.installs, h.released, hidle'⟩
      have hrest : others.Perm (before ++ after) :=
        (hperm.trans List.perm_middle).cons_inv
      exact hrest.mem_iff.2 hr

/-- The sample pipeline is deployed twice at once: one of the deployments is a conflict. -/
theorem deployed_once_ticktock : ∃ w w' before d after,
    Run Operation.Checked (fresh [⟨"default", "local", ""⟩] .deployed) w ∧
      Interleaves (deployments { slots := 4 } ⟨4, ⟨10000000000⟩⟩ Samples.registry "ticktock" [∅, ∅])
        w ((before ++ .ok d :: after).map .done) w' ∧
      (∀ r ∈ before ++ after, ∃ reason, r = .error (.conflict reason "ticktock")) ∧
      w'.disturbance.installs = w.disturbance.installs + 1 := by
  obtain ⟨requests, package, hrequests, hpackage⟩ := Samples.exists_package
  obtain ⟨w, w₁, hcreate, hdeploy, hcontent, -⟩ := exists_deployment
    [⟨"default", "local", ""⟩] .deployed (c := { slots := 4 }) ⟨4, ⟨10000000000⟩⟩ (by decide)
    hrequests hpackage
  have hcheck : Samples.bound.check = .ok Samples.bound := by decide
  have t : Run Operation.Checked (fresh [⟨"default", "local", ""⟩] .deployed) w :=
    .operation .refl _ _ _ _ _ (fun d hd => by cases hd; exact hcheck) hcreate
  have hinitial : w.ledger.initial = .deployed := by
    have hledger := congrArg (·.ledger.initial) hcontent
    exact hledger
  obtain ⟨-, h⟩ := deployed_once t (by rw [hinitial]; decide) (List.cons_ne_nil ∅ [∅])
    fun p hp => ⟨w₁, by rwa [show p = ∅ by simpa using hp]⟩
  obtain ⟨⟨rs, w', hrun⟩, -⟩ := h _ _ .refl
  obtain ⟨⟨before, d, after, rfl, hconflicts⟩, hinstalls, -⟩ := (h _ _ hrun).2 rs rfl
  exact ⟨w, w', before, d, after, t, hrun, hconflicts, hinstalls⟩

end World

end StreamPipeline
