import StreamPipeline.Proofs.Aggregation
import StreamPipeline.Proofs.Service.Run
import StreamPipeline.Samples

/-!
# What a deployment sees

What a lifecycle sees of a running release is what its stages report. A release is blind where they
all report that nothing is known, or all that they are undeployed: the lifecycle then sees nothing
that runs (`blind_iff`), and would deploy once more. That is the only way for a deployment to fail
after its package was made ready (`blind_of_install`).

A deployment succeeds where nothing is running and its requests can be made and packed
(`deployed_of_ready`), so that every pipeline with such requests can be created and deployed
(`exists_deployed`).
-/

namespace StreamPipeline

namespace Content

/-- A release is running of which nothing seems to be: its stages all report that nothing is known,
or all that they are undeployed. -/
def Blind (k : Content) (name : String) : Prop :=
  k.unavailable.contains name = false ∧ ∃ r, k.ledger.live name = .ok r ∧
    ((∀ e ∈ r.manifest.entries, k.ledger.stateOf name e.label = .unknown) ∨
      ∀ e ∈ r.manifest.entries, k.ledger.stateOf name e.label = .undeployed)

variable {k : Content} {name : String}

/-- What the stages of a running release report. -/
theorem status_of_live {r : Release} (hup : k.unavailable.contains name = false)
    (hr : k.ledger.live name = .ok r) : k.status name = .ok (r.manifest.entries.map fun e =>
      ⟨e.label, Ledger.stageId name e.label r.version, k.ledger.stateOf name e.label⟩) := by
  rw [status_of_available (hup ▸ Bool.false_ne_true), Ledger.status, hr]
  rfl

/-- The lifecycle sees nothing that runs where nothing does. -/
theorem state_of_dead (hup : k.unavailable.contains name = false) (h : ¬ k.ledger.IsLive name) :
    k.state name = .ok .undeployed := by
  obtain ⟨e, he⟩ := Except.isOk_eq_false_iff.1 (Bool.eq_false_iff.2 (mt Except.isOk_iff.1 h))
  rw [state, status_of_available (hup ▸ Bool.false_ne_true), Ledger.status, he,
    Ledger.live_eq_error he]
  rfl

theorem blind_iff : k.Blind name ↔ k.ledger.IsLive name ∧ k.state name = .ok .undeployed := by
  constructor
  · rintro ⟨hup, r, hr, hstates⟩
    refine ⟨⟨r, hr⟩, ?_⟩
    unfold state
    rw [status_of_live hup hr]
    refine congrArg _ (PipelineStatus.ofStages_state_eq_undeployed_iff.2 ?_)
    simpa using hstates
  · rintro ⟨⟨r, hr⟩, hs⟩
    cases hup : k.unavailable.contains name with
    | true =>
        rw [state, status_of_unavailable hup] at hs
        simp [Failure.isNoRelease] at hs
    | false =>
        refine ⟨hup, r, hr, ?_⟩
        rw [state, status_of_live hup hr] at hs
        simpa using PipelineStatus.ofStages_state_eq_undeployed_iff.1 (Except.ok.inj hs)

/-- A pipeline may be deployed exactly where the lifecycle sees nothing that runs. -/
theorem allowsDeploy_state_iff {s : State} (h : k.state name = .ok s) :
    s.allowsDeploy = true ↔ s = .undeployed := by
  unfold state at h
  split at h
  · cases h
    exact PipelineStatus.allowsDeploy_ofStages_iff
  · split at h
    · cases h
      simp [State.allowsDeploy]
    · cases h

end Content

namespace Transition

variable {c : Configuration} {registry : Registry} {k k' : Content} {r : Except Failure Unit}
  {d : Definition} {requests : List Request} {p : Properties} {package : Package} {l : Ledger}

/-- What is ready and cannot be installed is running unseen. -/
theorem blind_of_install (hstocked : k.ledger.Stocked)
    (hready : k.Installable c d requests p package l) {e : Failure}
    (hfailed : l.install (package.installation c d p) = .error e) : k.Blind d.name := by
  obtain ⟨s, hs, hallowed⟩ := hready.allowed
  rw [(Content.allowsDeploy_state_iff hs).1 hallowed] at hs
  refine Content.blind_iff.2 ⟨?_, hs⟩
  refine (Ledger.isLive_congr (Ledger.history_ensure hready.ensured d.name)).1 ?_
  cases hlive : (l.live d.name).isOk with
  | true => exact Except.isOk_iff.1 hlive
  | false =>
      obtain ⟨r, l', hi⟩ := hstocked.exists_install (Packager.packed_of_package hready.packed)
        hready.ensured hready.platform hlive
      cases hi.symm.trans hfailed

/-- A deployment succeeds where nothing is running and its requests can be made and packed. Its
stages then report the state from which all stages start. -/
theorem deployed_of_ready {name : String} (t : Transition c registry k (.deploy name p) r k')
    (hkeyed : k.Keyed) (hstocked : k.ledger.Stocked) (hd : k.definitions.get? name = some d)
    (hup : k.unavailable.contains name = false) (hdead : ¬ k.ledger.IsLive name)
    (hplatform : k.ledger.platforms.any (·.name == p.platform?.getD c.platform) = true)
    (hrequests : Request.build registry d p = .ok requests)
    (hpacked : c.packager.package d requests p = .ok package) :
    r = .ok () ∧ k'.definitions = k.definitions ∧ k'.unavailable = k.unavailable ∧
      k'.ledger.IsLive name ∧ ∀ label, k'.ledger.stateOf name label = k.ledger.initial := by
  have hname := hkeyed name d hd
  obtain ⟨l, hl⟩ := k.ledger.exists_ensure (Packager.packed_of_package hpacked)
  have hready : k.Installable c d requests p package l :=
    ⟨⟨.undeployed, hname.symm ▸ Content.state_of_dead hup hdead, rfl⟩, hplatform, hpacked, hl⟩
  cases t with
  | refused _ e h => cases hd.symm.trans h
  | deployRefused _ _ d' e hd' h =>
      cases hd.symm.trans hd'
      exact absurd hready (h requests package l hrequests)
  | deployFailed _ _ d' e requests' package' l' hd' hr' hready' hi =>
      cases hd.symm.trans hd'
      exact absurd (Content.blind_iff.1 (blind_of_install hstocked hready' hi)).1 (hname ▸ hdead)
  | deployed _ _ d' requests' package' l' l'' r ids hd' hr' hready' hi =>
      cases hd.symm.trans hd'
      have hreports : ∀ label, l''.stateOf name label = k.ledger.initial := fun label => by
        rw [← hname]
        refine (Ledger.stateOf_install hi label).trans ?_
        rw [Ledger.ensure_keeps hready'.ensured]
      exact ⟨rfl, rfl, rfl, (Ledger.isLive_install hi).2 (.inl hname.symm), hreports⟩

/-- Nothing is deployed over a running release. -/
theorem not_deployed_of_live {name : String} (t : Transition c registry k (.deploy name p) r k')
    (hkeyed : k.Keyed) (hlive : k.ledger.IsLive name) : ∃ e, r = .error e := by
  cases t with
  | refused _ e h => exact ⟨e, rfl⟩
  | deployRefused _ _ d e hd h => exact ⟨e, rfl⟩
  | deployFailed _ _ d e requests package l hd hr hready hi => exact ⟨e, rfl⟩
  | deployed _ _ d requests package l l' r ids hd hr hready hi =>
      obtain ⟨-, hdead, -⟩ := Ledger.install_eq_ok_iff.1 hi
      have hlive' : l.IsLive d.name :=
        (Ledger.isLive_congr (Ledger.history_ensure hready.ensured d.name)).2
          (hkeyed name d hd ▸ hlive)
      exact absurd (Except.isOk_iff.2 hlive')
        (by simp [Package.installation] at hdead; simp [hdead])

end Transition

/-- Every pipeline can be created and then deployed whose requests can be made and packed. -/
theorem World.exists_deployment (platforms : List Platform) (initial : State) {c : Configuration}
    {registry : Registry} {d : Definition} {requests : List Request} {p : Properties}
    {package : Package} (poller : Poller)
    (hplatform : platforms.any (·.name == p.platform?.getD c.platform) = true)
    (hrequests : Request.build registry d p = .ok requests)
    (hpacked : c.packager.package d requests p = .ok package) :
    ∃ w₁ w₂, (fresh platforms initial).Performs c poller registry (.create d) (.ok ()) w₁ ∧
      w₁.Performs c poller registry (.deploy d.name p) (.ok ()) w₂ ∧
      w₁.content = { (fresh platforms initial).content with
        definitions := (∅ : Definitions).insert d.name d } ∧
      w₂.content.definitions = w₁.content.definitions ∧
      w₂.content.unavailable = w₁.content.unavailable ∧ w₂.ledger.IsLive d.name ∧
      ∀ label, w₂.ledger.stateOf d.name label = initial := by
  have hfresh := settled_fresh platforms initial
  obtain ⟨⟨r₁, w₁, hcreated⟩, hfirst⟩ := hfresh.performs c poller registry (.create d)
  have t₁ : Reaches (fresh platforms initial) w₁ :=
    .operation .refl c poller registry (.create d) r₁ trivial hcreated
  -- the definition is all that is there, so nothing stands against the deployment
  obtain ⟨rfl, hcontent⟩ : r₁ = .ok () ∧ w₁.content = { (fresh platforms initial).content with
      definitions := (∅ : Definitions).insert d.name d } := by
    have ht := (hfirst r₁ w₁ hcreated).2
    generalize w₁.content = k₁ at ht
    cases ht with
    | refused _ e h => cases h
    | created _ h => exact ⟨rfl, rfl⟩
  obtain ⟨⟨r₂, w₂, hdeployed⟩, hsecond⟩ :=
    (t₁.settled hfresh).performs c poller registry (.deploy d.name p)
  have hdefined : w₁.content.definitions.get? d.name = some d := by
    rw [hcontent]
    simp
  obtain ⟨rfl, hdefs, hup, hlive, hreports⟩ := (hsecond r₂ w₂ hdeployed).2.deployed_of_ready
    t₁.keyed t₁.stocked hdefined (by rw [hcontent]; rfl)
    (by rw [hcontent]; rintro ⟨r, hr⟩; cases hr) (by rw [hcontent]; exact hplatform) hrequests
    hpacked
  refine ⟨w₁, w₂, hcreated, hdeployed, hcontent, hdefs, hup, hlive, fun label => ?_⟩
  refine (hreports label).trans ?_
  rw [hcontent]
  rfl

theorem World.exists_deployed (platforms : List Platform) (initial : State) {c : Configuration}
    {registry : Registry} {d : Definition} {requests : List Request} {p : Properties}
    {package : Package} (poller : Poller)
    (hplatform : platforms.any (·.name == p.platform?.getD c.platform) = true)
    (hrequests : Request.build registry d p = .ok requests)
    (hpacked : c.packager.package d requests p = .ok package) :
    ∃ w, Reaches (fresh platforms initial) w ∧ w.definitions.get? d.name = some d ∧
      w.disturbance.unavailable = [] ∧ w.ledger.IsLive d.name ∧
      ∀ label, w.ledger.stateOf d.name label = initial := by
  obtain ⟨w₁, w, hcreated, hdeployed, hcontent, hdefs, hup, hlive, hreports⟩ :=
    exists_deployment platforms initial poller hplatform hrequests hpacked
  rw [hcontent] at hdefs hup
  have t : Reaches (fresh platforms initial) w :=
    .operation (.operation .refl c poller registry _ _ trivial hcreated) c poller registry _ _
      trivial hdeployed
  refine ⟨w, t, ?_, hup, hlive, hreports⟩
  exact (congrArg (·.get? d.name) hdefs).trans (StringMap.get?_insert_self ..)

/-- The requests for the pipeline of the samples can be made and packed. -/
theorem Samples.exists_package : ∃ requests package,
    Request.build registry bound ∅ = .ok requests ∧
      Packager.package {} bound requests ∅ = .ok package := by
  have h : (Request.build registry bound ∅ >>= fun requests =>
      Packager.package {} bound requests ∅).isOk = true := by
    decide
  obtain ⟨package, h⟩ := Except.isOk_iff.1 h
  obtain ⟨requests, hrequests, hpackage⟩ := Except.bind_eq_ok_iff.1 h
  exact ⟨requests, package, hrequests, hpackage⟩

end StreamPipeline
