import StreamPipeline.Proofs.Partition
import StreamPipeline.Proofs.Release.Override
import StreamPipeline.Proofs.Release.Package
import StreamPipeline.Proofs.Request
import StreamPipeline.Samples

/-!
# Updates and deployments from scratch

An update merges what is said now into the manifest of the running release, takes back what
partitioning wrote, and works it out anew. A deployment resolves all that was ever said and works
partitioning out once. For what is said within bounds (`Additive`) both come to the same manifest,
or fail alike (`repartition_merge_eq`): the stages that the update finds, bare again, are alike
those that the deployment resolves (`bare_alike`), so that the pass over them tells both the same.
-/

namespace StreamPipeline

open StreamPipeline.Partition Properties

/-- What may be said about a pipeline at deployment (`p`) and at an update (`u`) so that the update
only ever adds to what was said. -/
structure Additive (registry : Registry) (d : Definition) (p u : Properties) : Prop where
  /-- Nothing is said about the release as a whole. -/
  release : ∀ key, "release.".toList <+: key.toList → p.get? key = none ∧ u.get? key = none
  /-- The update says nothing about every stage. -/
  everyStage : ∀ (f : Family) key, (f.start everyStage).toList <+: key.toList → u.get? key = none
  /-- The update pins no stage to a blank version. -/
  pinned : ∀ s ∈ d.stages, ∀ v, u.get? (versionKey s.label) = some v → Text.trim v ≠ ""
  /-- The destinations from which stages consume are those of the definition. -/
  input : ∀ s ∈ d.stages, (p.forStage .app s.label).get? Binding.input = none ∧
    (u.forStage .app s.label).get? Binding.input = none
  /-- Nobody says what partitioning writes about apps. -/
  injected : ∀ s ∈ d.stages, ∀ key, isInjected key = true →
    (p.forStage .app s.label).get? key = none ∧ (u.forStage .app s.label).get? key = none ∧
      s.properties.get? key = none
  /-- Nobody says what partitioning writes for platforms. -/
  indexed : ∀ s ∈ d.stages, (p.forStage .deployer s.label).get? indexed = none ∧
    (u.forStage .deployer s.label).get? indexed = none
  /-- The locators of all artifacts end with their versions. -/
  versioned : registry.Versioned

namespace Entry

/-- The entry with what properties say about its stage. -/
def merged (u : Properties) (e : Entry) : Entry :=
  { e with spec := (Override.ofProperties u e.label).apply e.spec }

/-- A bare stage has the settings of its entry, but for what partitioning writes. -/
theorem get?_bare (e : Entry) (key : String) :
    e.bare.get? key = if isInjected key then none else e.spec.app.get? key := by
  show ((∅ : Settings).get? key).or ((e.spec.app.filterKeys (!isInjected ·)).get? key) = _
  rw [StringMap.get?_filterKeys]
  cases isInjected key <;> simp

theorem hasInput_bare (e : Entry) :
    e.bare.stage.hasInput = (e.spec.app.get? Binding.input).isSome := by
  show ((e.spec.app.filterKeys (!isInjected ·)).get? Binding.input).isSome = _
  rw [StringMap.get?_filterKeys, if_pos (by decide)]

/-- A stage that was told to number its instances is told so no longer. -/
theorem deployer_bare {e : Entry} {before said : Settings}
    (hbefore : before.get? indexed = none) (hsaid : said.get? indexed = none)
    (h : e.spec.deployer = StringMap.overlay
      (if e.spec.app.contains inputPartitioned then before.insert indexed "true" else before)
      said) :
    e.bare.deployer = before.overlay said := by
  show (if e.spec.app.contains inputPartitioned then e.spec.deployer.erase indexed
    else e.spec.deployer) = _
  rw [h]
  split
  · refine StringMap.ext_get? fun key => ?_
    rw [StringMap.get?_erase, StringMap.get?_overlay, StringMap.get?_overlay,
      StringMap.get?_insert]
    by_cases hkey : key = indexed <;> simp [hkey, hbefore, hsaid]
  · rfl

end Entry

/-- The entry of a stage in a role with an artifact. -/
def ResolvedStage.entry (s : ResolvedStage) (role : Role) (c : Coordinate)
    (pinned : Option String) : Entry :=
  ⟨s.stage.label, s.stage.app, role, c.spec pinned (s.stage.properties.overlay s.app) s.deployer⟩

/-- The entry of a request is that of its stage. -/
theorem Request.entry_of_ofStage {registry : Registry} {p : Properties} {s : ResolvedStage}
    {role : Role} {r : Request} (h : ofStage registry p s role = .ok r) :
    ∃ c, registry.find? s.stage.app role = some c ∧
      r.entry = s.entry role c (p.pinned? s.stage.label) := by
  obtain ⟨c, hc, rfl⟩ := ofStage_eq_ok_iff.1 h
  exact ⟨c, hc, rfl⟩

namespace Additive

variable {registry : Registry} {d : Definition} {p u : Properties} {s : Stage}

theorem forStage_overlay (h : Additive registry d p u) (f : Family) (label : String) :
    forStage (p.overlay u) f label = (p.forStage f label).overlay (u.forStage f label) :=
  Properties.forStage_overlay p (under_eq_empty (h.everyStage f)) label

/-- An entry with what is said now about its stage. -/
theorem merged_entry (h : Additive registry d p u) {t : ResolvedStage} {role : Role}
    {c : Coordinate} (hc : registry.find? t.stage.app role = some c) (pinned : Option String) :
    (t.entry role c pinned).merged u = ⟨t.stage.label, t.stage.app, role,
      c.spec ((u.pinned? t.stage.label).or pinned)
        ((t.stage.properties.overlay t.app).overlay (u.forStage .app t.stage.label))
        (t.deployer.overlay (u.forStage .deployer t.stage.label))⟩ :=
  congrArg (Entry.mk _ _ _) (Override.apply_spec (h.versioned _ _ c hc) u _ pinned _ _)

/-- What an update finds of an app property that partitioning does not write is what a deployment
resolves. -/
theorem get?_merged (h : Additive registry d p u) {t : ResolvedStage}
    (ht : ResolvedStage.Told (Request.resolved p s) t) {key : String}
    (hkey : isInjected key = false) :
    ((t.stage.properties.overlay t.app).overlay (u.forStage .app s.label)).get? key =
      (Request.resolved (p.overlay u) s).get? key := by
  rw [StringMap.get?_overlay, StringMap.get?_overlay, ht.app key hkey, ht.stage]
  unfold ResolvedStage.get? Request.resolved
  rw [h.forStage_overlay, StringMap.get?_overlay, Option.or_assoc]

/-- An update finds the mark of a partitioned consumer where the stage was told so. -/
theorem contains_merged (h : Additive registry d p u) (hs : s ∈ d.stages) {t : ResolvedStage}
    (ht : ResolvedStage.Told (Request.resolved p s) t) :
    ((t.stage.properties.overlay t.app).overlay (u.forStage .app s.label)).contains
      inputPartitioned = t.app.contains inputPartitioned := by
  obtain ⟨-, hu, hd⟩ := h.injected s hs inputPartitioned (by decide)
  have hd' : t.stage.properties.get? inputPartitioned = none := by rw [ht.stage]; exact hd
  simp only [StringMap.contains, StringMap.get?_overlay, hu, hd', Option.none_or, Option.or_none]

/-- **The bare stage of a merged entry is alike the stage that a deployment resolves.** -/
theorem bare_alike (h : Additive registry d p u) (hs : s ∈ d.stages) {t : ResolvedStage}
    (ht : ResolvedStage.Told (Request.resolved p s) t) {role : Role} {r : Request}
    (hmade : Request.ofStage registry p t role = .ok r) :
    (r.entry.merged u).bare.Alike (Request.resolved (p.overlay u) s) := by
  obtain ⟨c, hc, hentry⟩ := Request.entry_of_ofStage hmade
  have hlabel : t.stage.label = s.label := congrArg Stage.label ht.stage
  rw [hentry, h.merged_entry hc, hlabel]
  refine ⟨rfl, fun key => ?_, ?_, ?_⟩
  · -- what partitioning writes is taken back, and nobody else says it
    rw [Entry.get?_bare]
    cases hkey : isInjected key with
    | false => exact h.get?_merged ht hkey
    | true =>
        obtain ⟨hp, hu, hd⟩ := h.injected s hs key hkey
        unfold ResolvedStage.get? Request.resolved
        simp [h.forStage_overlay, StringMap.get?_overlay, hp, hu, hd]
  · obtain ⟨hp, hu⟩ := h.input s hs
    refine (Entry.hasInput_bare _).trans ((congrArg _ (h.get?_merged ht (by decide))).trans ?_)
    unfold ResolvedStage.get? Request.resolved
    simp [h.forStage_overlay, StringMap.get?_overlay, hp, hu, Stage.hasInput, Stage.input?]
  · obtain ⟨hp, hu⟩ := h.indexed s hs
    have htold := ht.deployer
    rw [← h.contains_merged hs ht] at htold
    refine (Entry.deployer_bare hp hu ?_).trans (h.forStage_overlay .deployer s.label).symm
    exact congrArg (StringMap.overlay · (u.forStage .deployer s.label)) htold

/-- A merged entry that is told what the stage that a deployment resolves is told becomes the entry
of that stage. -/
theorem exists_made (h : Additive registry d p u) (hs : s ∈ d.stages)
    {t now fresh : ResolvedStage} (ht : t.stage = s) (hfresh : fresh.stage = s)
    (halike : now.Alike fresh) {role : Role} {r : Request}
    (hmade : Request.ofStage registry p t role = .ok r) :
    ∃ r', Request.ofStage registry (p.overlay u) fresh role = .ok r' ∧
      (r.entry.merged u).withStage now = r'.entry := by
  subst ht
  obtain ⟨c, hc, hentry⟩ := Request.entry_of_ofStage hmade
  have hmade' := Request.ofStage_eq_ok_iff (p := p.overlay u) |>.2
    ⟨c, (congrArg (registry.find? ·.app role) hfresh).trans hc, rfl⟩
  refine ⟨_, hmade', ?_⟩
  obtain ⟨c', hc', hentry'⟩ := Request.entry_of_ofStage hmade'
  rw [hfresh, hc] at hc'
  cases hc'
  -- both are the same artifact under the same pin, with the settings of alike stages
  rw [hentry, hentry', h.merged_entry hc, hfresh, pinned?_overlay p (h.pinned _ hs)]
  unfold ResolvedStage.entry Entry.withStage
  rw [halike.settings, halike.deployer, hfresh]
  rfl

/-! ### All stages -/

variable {stages : List Stage} {told now fresh : List ResolvedStage} {roles : List Role}
  {requests : List Request}

/-- The stages that an update finds are alike those that a deployment resolves. -/
theorem forall₂_bare (h : Additive registry d p u) (hstages : ∀ s ∈ stages, s ∈ d.stages)
    (htold : List.Forall₂ ResolvedStage.Told (stages.map (Request.resolved p)) told)
    (hroles : roles.length = stages.length)
    (hmakes : Request.Makes registry p told roles requests) :
    List.Forall₂ ResolvedStage.Alike (requests.map fun r => (r.entry.merged u).bare)
      (stages.map (Request.resolved (p.overlay u))) := by
  induction stages generalizing told roles requests with
  | nil =>
      cases htold
      cases hmakes
      exact .nil
  | cons s r ih =>
      obtain ⟨role, roles, rfl⟩ := List.exists_cons_of_length_eq_add_one hroles
      cases htold with
      | cons ht htold =>
          cases hmakes with
          | cons hmade hmakes =>
              exact .cons (h.bare_alike (hstages s (by simp)) ht hmade)
                (ih (fun t ht => hstages t (by simp [ht])) htold (Nat.succ.inj hroles) hmakes)

/-- The entries that an update comes to are those that a deployment makes requests for. -/
theorem exists_makes (h : Additive registry d p u) (hstages : ∀ s ∈ stages, s ∈ d.stages)
    (htold : List.Forall₂ ResolvedStage.Told (stages.map (Request.resolved p)) told)
    (hroles : roles.length = stages.length)
    (hmakes : Request.Makes registry p told roles requests)
    (hfresh : List.Forall₂ ResolvedStage.Told (stages.map (Request.resolved (p.overlay u))) fresh)
    (halike : List.Forall₂ ResolvedStage.Alike now fresh) :
    ∃ requests', Request.Makes registry (p.overlay u) fresh roles requests' ∧
      List.zipWith Entry.withStage (requests.map fun r => r.entry.merged u) now =
        requests'.map Request.entry := by
  induction stages generalizing told now fresh roles requests with
  | nil =>
      cases htold
      cases hfresh
      cases halike
      cases hmakes
      exact ⟨[], .nil, rfl⟩
  | cons s r ih =>
      obtain ⟨role, roles, rfl⟩ := List.exists_cons_of_length_eq_add_one hroles
      cases htold with
      | cons ht htold =>
      cases hmakes with
      | cons hmade hmakes =>
      cases hfresh with
      | cons hf hfresh =>
      cases halike with
      | cons hn halike =>
      obtain ⟨r', hmade', hentry⟩ :=
        h.exists_made (hstages s (by simp)) ht.stage hf.stage hn hmade
      obtain ⟨requests', hmakes', hentries⟩ := ih (fun t ht => hstages t (by simp [ht])) htold
        (Nat.succ.inj hroles) hmakes hfresh halike
      exact ⟨r' :: requests', .cons hmade' hmakes', congrArg₂ List.cons hentry hentries⟩

/-- Nothing of what partitioning writes is said at deployment. -/
theorem unmarked (h : Additive registry d p u) :
    (∀ s ∈ d.stages.map (Request.resolved p), s.app.get? inputPartitioned = none) ∧
      ∀ s ∈ d.stages.map (Request.resolved (p.overlay u)), s.app.get? inputPartitioned = none := by
  constructor
  · intro t ht
    obtain ⟨s, hs, rfl⟩ := List.mem_map.1 ht
    exact (h.injected s hs _ (by decide)).1
  · intro t ht
    obtain ⟨s, hs, rfl⟩ := List.mem_map.1 ht
    obtain ⟨hp, hu, -⟩ := h.injected s hs inputPartitioned (by decide)
    show (forStage (p.overlay u) .app s.label).get? inputPartitioned = none
    rw [h.forStage_overlay, StringMap.get?_overlay, hu, hp, Option.none_or]

end Additive

/-- What was packed for a pipeline is what its release runs. -/
theorem Packager.ofPackage_package {k : Packager} {d : Definition} {requests : List Request}
    {p : Properties} {package : Package} (h : k.package d requests p = .ok package) :
    Manifest.ofPackage package = .ok ⟨requests.map Request.entry⟩ := by
  obtain ⟨info, version, repository, rfl⟩ := package_eq_ok h
  exact Manifest.ofPackage_packed info version repository _

/-- Whether requests can be packed does not depend on what they ask for. -/
theorem Packager.exists_package {k : Packager} {d : Definition} {requests : List Request}
    {p q : Properties} {package : Package} (h : k.package d requests p = .ok package)
    (hversion : q.packageVersion? = p.packageVersion?) (requests' : List Request) :
    ∃ package', k.package d requests' q = .ok package' := by
  obtain ⟨version, hv, -⟩ := package_eq_ok_iff.1 h
  exact ⟨_, package_eq_ok_iff.2 ⟨version, hversion ▸ hv, rfl⟩⟩

theorem Manifest.repartition_eq (m : Manifest) (pipeline : String) : m.repartition pipeline =
    (ResolvedStage.propagated pipeline (m.entries.map Entry.bare)).map fun stages =>
      ⟨List.zipWith Entry.withStage m.entries stages⟩ := by
  unfold repartition
  cases ResolvedStage.propagated pipeline (m.entries.map Entry.bare) <;> rfl

/-- **An update comes to what a deployment from scratch comes to.**  Let the requests of a pipeline
be made and packed for what is said at deployment. Then its release runs a manifest `m`, and for
what is said at an update

* where the requests can be made for both together, they can be packed, and the update comes to the
  manifest that the release of this package runs;
* where they cannot, the update fails, and fails alike. -/
theorem Manifest.repartition_merge_eq {registry : Registry} {d : Definition} {p u : Properties}
    (h : Additive registry d p u) {k : Packager} {requests : List Request} {package : Package}
    (hbuild : Request.build registry d p = .ok requests)
    (hpackage : k.package d requests p = .ok package) :
    ∃ m, ofPackage package = .ok m ∧
      (∀ requests', Request.build registry d (p.overlay u) = .ok requests' →
        ∃ package' m', k.package d requests' (p.overlay u) = .ok package' ∧
          ofPackage package' = .ok m' ∧
          (m.merge (Overrides.ofProperties u d.labels)).repartition d.name = .ok m') ∧
      ∀ e, Request.build registry d (p.overlay u) = .error e →
        (m.merge (Overrides.ofProperties u d.labels)).repartition d.name = .error e := by
  obtain ⟨roles, told, hroles, htold, hmakes⟩ := Request.build_eq_ok_iff.1 hbuild
  have hlength : roles.length = d.stages.length := Stage.length_roles hroles
  have htold' : List.Forall₂ ResolvedStage.Told (d.stages.map (Request.resolved p)) told := by
    have hall := ResolvedStage.forall₂_told_propagate d.name h.unmarked.1
    rwa [← Request.resolve_eq_map, ResolvedStage.propagated_eq_ok_iff.1 htold] at hall
  have hbare := h.forall₂_bare (fun _ hs => hs) htold' hlength hmakes
  have hlabels : requests.map (·.entry.label) = d.labels := by
    have h := hbare.imp fun _ _ halike => halike.label
    rw [List.forall₂_map_left_iff, List.forall₂_map_right_iff] at h
    rw [← List.forall₂_eq_eq_eq, Definition.labels, List.forall₂_map_left_iff,
      List.forall₂_map_right_iff]
    exact h
  -- the manifest from which the update starts, with what is said now
  have hmerged : (Manifest.mk (requests.map Request.entry)).merge
      (Overrides.ofProperties u d.labels) = ⟨requests.map fun r => r.entry.merged u⟩ := by
    refine (merge_ofProperties (fun e he => ?_) u).trans (congrArg _ List.map_map)
    obtain ⟨r, hr, rfl⟩ := List.mem_map.1 he
    exact hlabels ▸ List.mem_map_of_mem (f := (·.entry.label)) hr
  refine ⟨_, Packager.ofPackage_package hpackage, ?_⟩
  rw [hmerged, repartition_eq, List.map_map]
  -- the pass over its stages, and the one over the stages that a deployment resolves
  obtain ⟨halike, hsame⟩ := ResolvedStage.forall₂_propagate d.name hbare
  have hfresh := ResolvedStage.forall₂_told_propagate d.name h.unmarked.2
  rw [← Request.resolve_eq_map] at halike hsame hfresh
  cases hfails : (ResolvedStage.propagate d.name (Request.resolve d (p.overlay u))).2 with
  | some e =>
      have hboth := ResolvedStage.propagated_eq_error_iff.2 hfails
      rw [hfails] at hsame
      have herror : Request.build registry d (p.overlay u) = .error e :=
        Request.build_eq_error hroles hboth
      refine ⟨fun requests' hok => (by cases herror.symm.trans hok), fun e' he' => ?_⟩
      cases herror.symm.trans he'
      rw [Function.comp_def, ResolvedStage.propagated_eq_error_iff.2 hsame]
      rfl
  | none =>
      have hnow := ResolvedStage.propagated_eq_ok_iff.2 (Prod.ext rfl (hsame.trans hfails))
      have hboth := ResolvedStage.propagated_eq_ok_iff.2 (Prod.ext rfl hfails)
      obtain ⟨made, hmade, hentries⟩ :=
        h.exists_makes (fun _ hs => hs) htold' hlength hmakes hfresh halike
      have hok := Request.build_eq_ok_iff.2 ⟨roles, _, hroles, hboth, hmade⟩
      refine ⟨fun requests' hok' => ?_, fun e' he' => (by cases hok.symm.trans he')⟩
      cases hok.symm.trans hok'
      obtain ⟨package', hpackage'⟩ := Packager.exists_package hpackage
        (packageVersion?_overlay (h.release _ (by decide)).2) made
      refine ⟨package', _, hpackage', Packager.ofPackage_package hpackage', ?_⟩
      rw [Function.comp_def, hnow]
      exact congrArg (fun es => Except.ok (Manifest.mk es)) hentries

/-! ### A pipeline of which a stage is scaled and another one is pinned -/

namespace Samples

theorem versioned_registry : Registry.Versioned registry :=
  (((Registry.Versioned.empty.register "time" .source ⟨_, rfl⟩).register "http" .source
    ⟨_, rfl⟩).register "transform" .processor ⟨_, rfl⟩).register "log" .sink ⟨_, rfl⟩

theorem additive_said : Additive registry bound said saidAnew where
  release key h := by
    constructor
    · refine StringMap.get?_ofList_of_ne fun e he hk => ?_
      subst hk
      revert e
      decide
    · refine StringMap.get?_ofList_of_ne fun e he hk => ?_
      subst hk
      revert e
      decide
  everyStage f key h := by
    refine StringMap.get?_ofList_of_ne fun e he hk => ?_
    subst hk
    revert e
    cases f <;> decide
  pinned := by
    have h : ∀ s ∈ bound.stages,
        (saidAnew.get? (versionKey s.label)).all (Text.trim · ≠ "") = true := by
      decide
    intro s hs v hv
    simpa [hv] using h s hs
  input := by decide
  injected s hs key hkey := by
    have hmem := List.contains_iff_mem.1 hkey
    clear hkey
    revert s key
    decide
  indexed := by decide
  versioned := versioned_registry

end Samples

/-- Where the consumer is scaled and the producer pinned, the update comes to what a deployment from
scratch comes to: the producer is told the new number of parts, and is a new artifact. -/
theorem Manifest.repartition_merge_eq_scaled : ∃ requests package m,
    Request.build Samples.registry Samples.bound Samples.said = .ok requests ∧
      Packager.package {} Samples.bound requests Samples.said = .ok package ∧
      ofPackage package = .ok m ∧ ∃ requests' : List Request,
        (m.merge (Overrides.ofProperties Samples.saidAnew Samples.bound.labels)).repartition
          "ticktock" = .ok ⟨requests'.map Request.entry⟩ ∧
        (requests'.map fun r => (r.settings.get? outputCount, r.coordinate.locator)) =
          [(some "3", "maven://apps:time:2.0.0"), (none, "maven://apps:log:1.0.0")] := by
  have hpacked : (Request.build Samples.registry Samples.bound Samples.said >>= fun requests =>
      Packager.package {} Samples.bound requests Samples.said).isOk = true := by
    decide
  obtain ⟨package, h⟩ := Except.isOk_iff.1 hpacked
  obtain ⟨requests, hrequests, hpackage⟩ := Except.bind_eq_ok_iff.1 h
  obtain ⟨m, hm, hboth, -⟩ := repartition_merge_eq Samples.additive_said hrequests hpackage
  have hmade : (Request.build Samples.registry Samples.bound
      (Samples.said.overlay Samples.saidAnew)).toOption.map
        (·.map fun r => (r.settings.get? outputCount, r.coordinate.locator)) =
      some [(some "3", "maven://apps:time:2.0.0"), (none, "maven://apps:log:1.0.0")] := by
    decide
  obtain ⟨requests', hrequests', hsettings⟩ := Option.map_eq_some_iff.1 hmade
  obtain ⟨package', m', hpackage', hm', hupdate⟩ := hboth requests' (by
    revert hrequests'
    cases Request.build Samples.registry Samples.bound (Samples.said.overlay Samples.saidAnew) <;>
      simp [Except.toOption])
  rw [Packager.ofPackage_package hpackage'] at hm'
  cases hm'
  exact ⟨requests, package, m, hrequests, hpackage, hm, requests', hupdate, hsettings⟩

end StreamPipeline
