import StreamPipeline.Proofs.Release.Reconciled
import StreamPipeline.Proofs.Service.Deployment
import StreamPipeline.Proofs.Service.Manifests

/-!
# Pipelines have stages

Where only definitions with stages are created, every pipeline has stages, and so has whatever is
released and stored (`World.Run.staged`). What is deployed then is seen to be active, unless its
stages start from a state in which nothing seems to run (`Transition.active_of_deployed`).
-/

namespace StreamPipeline

/-- There are as many requests as stages. -/
theorem Request.length_of_build {registry : Registry} {d : Definition} {p : Properties}
    {requests : List Request} (h : build registry d p = .ok requests) :
    requests.length = d.stages.length := by
  obtain ⟨roles, told, hroles, hpass, hmakes⟩ := build_eq_ok_iff.1 h
  have htold : told.length = d.stages.length := by
    rw [ResolvedStage.length_propagated hpass, resolve_eq_map, List.length_map]
  rw [(hmakes.asks (by rw [Stage.length_roles hroles, htold])).length_eq, htold]

/-- Every definition has stages, and so has every manifest. -/
structure Content.Staged (k : Content) : Prop where
  definitions : ∀ name d, k.definitions.get? name = some d → d.stages ≠ []
  manifests : k.ledger.All fun m => m.entries ≠ []

theorem Content.Staged.computes {k : Content} (h : k.Staged) {registry : Registry}
    {op : Operation} {m : Manifest} (hm : op.Computes registry k m) : m.entries ≠ [] := by
  cases op with
  | deploy name p =>
      obtain ⟨d, requests, hd, hbuild, rfl⟩ := hm
      have hstages := h.definitions name d hd
      rw [← List.length_pos_iff, ← Request.length_of_build hbuild, List.length_pos_iff] at hstages
      simpa using hstages
  | update name p o =>
      obtain ⟨current, targets, hlive, -, hrepartition⟩ := hm
      obtain ⟨rs, hrs, -⟩ := Ledger.live_eq_ok_iff.1 hlive
      have hentries := h.manifests.released name current (by simp [hrs])
      intro hnil
      have hlabels := Manifest.labels_repartition_merge hrepartition
      simp only [Manifest.labels, hnil, List.map_nil] at hlabels
      exact hentries (List.map_eq_nil_iff.1 hlabels.symm)
  | create _ | undeploy _ | rollback _ _ | delete _ => exact hm.elim

namespace Transition

variable {c : Configuration} {registry : Registry} {k k' : Content} {op : Operation}
  {r : Except Failure Unit}

theorem staged (t : Transition c registry k op r k') (hk : k.Staged)
    (hcreate : ∀ d, op = .create d → d.stages ≠ []) : k'.Staged where
  definitions := t.all_definitions hk.definitions hcreate fun _ d updates hd => by
    have hlength := (d.like_withSettings updates).length_eq
    rwa [← List.length_pos_iff, ← hlength, List.length_pos_iff]
  manifests := t.all_manifests hk.manifests fun _ hm => hk.computes hm

end Transition

/-- Only definitions that pass the check are created. -/
def Operation.Checked (_ : Content) (op : Operation) : Prop := ∀ d, op = .create d → d.check = .ok d

theorem World.Run.staged {platforms : List Platform} {initial : State} {w : World}
    (t : Run Operation.Checked (fresh platforms initial) w) : w.content.Staged :=
  t.invariant (settled_fresh platforms initial)
    ⟨fun _ _ h => (nomatch h), Ledger.all_fresh _ platforms initial⟩
    (fun _ _ _ _ _ _ hk hchecked ht =>
      ht.staged hk fun d hd => (Definition.check_eq_ok_iff.1 (hchecked d hd)).1.stages)
    (fun _ name label s hk => ⟨hk.definitions, hk.manifests.setState name label s⟩)
    (fun _ _ hk => ⟨hk.definitions, hk.manifests⟩)

/-! ### Active pipelines -/

/-- A release of which something can be seen is seen to be active. -/
theorem Content.active_of_live {k : Content} {name : String} {r : Release}
    (hup : k.unavailable.contains name = false) (hr : k.ledger.live name = .ok r)
    (hblind : ¬ k.Blind name) : ∃ s, k.state name = .ok s ∧ s.allowsDeploy = false := by
  have hs : ∃ s, k.state name = .ok s := by
    rw [state, status_of_live hup hr]
    exact ⟨_, rfl⟩
  obtain ⟨s, hs⟩ := hs
  refine ⟨s, hs, Bool.eq_false_iff.2 fun hallowed => hblind (blind_iff.2 ⟨⟨r, hr⟩, ?_⟩)⟩
  rw [hs, (allowsDeploy_state_iff hs).1 hallowed]

/-- A new release is in front of the history, and is running. -/
theorem Ledger.history_install {l k : Ledger} {i : Installation} {r : Release}
    (h : l.install i = .ok (r, k)) : k.history i.release = r :: l.history i.release ∧
      r.version = l.nextVersion i.release ∧ r.isLive = true := by
  obtain ⟨-, -, s, m, -, -, rfl, rfl⟩ := install_eq_ok_iff.1 h
  exact ⟨(history_push ..).trans (if_pos rfl), rfl, rfl⟩

/-- **What was deployed is active.** The definitions stay, and the history has one more release,
with the next version. -/
theorem Transition.active_of_deployed {c : Configuration} {registry : Registry} {k k' : Content}
    {name : String} {p : Properties} (t : Transition c registry k (.deploy name p) (.ok ()) k')
    (hkeyed : k.Keyed) (horderly : k.ledger.Orderly) (hstaged : k.Staged)
    (hinitial : k.ledger.initial ≠ .unknown ∧ k.ledger.initial ≠ .undeployed) :
    k'.definitions = k.definitions ∧ (∃ s, k'.state name = .ok s ∧ s.allowsDeploy = false) ∧
      ∃ r, k'.ledger.history name = r :: k.ledger.history name ∧
        r.version = (k.ledger.history name).length + 1 ∧ r.isLive = true := by
  have hmanifests := (t.staged hstaged fun _ h => nomatch h).manifests
  cases t with
  | deployed _ _ d requests package l l' r ids hd hrequests hready hi =>
      obtain rfl := hkeyed name d hd
      obtain ⟨s, hs, -⟩ := hready.allowed
      have hup : k.unavailable.contains d.name = false := by
        refine Bool.eq_false_iff.2 fun hdown => ?_
        rw [Content.state, Content.status_of_unavailable hdown] at hs
        simp [Failure.isNoRelease] at hs
      have hhistory := Ledger.history_ensure hready.ensured d.name
      have hordered : l.Orderly := horderly.reaches (Ledger.reaches_ensure hready.ensured)
      have hreports : ∀ label, l'.stateOf d.name label = k.ledger.initial := fun label => by
        refine (Ledger.stateOf_install hi label).trans ?_
        rw [Ledger.ensure_keeps hready.ensured]
      obtain ⟨hnew, hversion, hlive⟩ : l'.history d.name = r :: l.history d.name ∧
          r.version = l.nextVersion d.name ∧ r.isLive = true := Ledger.history_install hi
      rw [hhistory] at hnew
      rw [hordered.nextVersion, hhistory] at hversion
      have hrunning : l'.live d.name = .ok r := Ledger.live_eq_ok_iff.2 ⟨_, hnew, hlive⟩
      refine ⟨rfl, Content.active_of_live hup hrunning ?_, r, hnew, hversion, hlive⟩
      -- some stage reports, and reports what all stages report from their start on
      rintro ⟨-, r', hr', hstates⟩
      obtain rfl : r = r' := Except.ok.inj (hrunning.symm.trans hr')
      have hin : r ∈ l'.history d.name := hnew ▸ .head _
      obtain ⟨e, he⟩ := List.exists_mem_of_ne_nil _ (hmanifests.released d.name r hin)
      rcases hstates with hunknown | hundeployed
      · exact hinitial.1 ((hreports e.label).symm.trans (hunknown e he))
      · exact hinitial.2 ((hreports e.label).symm.trans (hundeployed e he))

end StreamPipeline
