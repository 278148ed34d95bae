import StreamPipeline.Proofs.Release.Reconciled
import StreamPipeline.Proofs.Service.Atomic
import StreamPipeline.Proofs.Service.Manifests

/-!
# What updates leave in the stored definition

A service writes what an update released back into the stored definition. However often that
happens, the stored definition keeps the stages of the one that was created, bound alike, and so
does whatever is released and stored (`Content.Follows`).

**A pipeline that was updated is deployed anew as it is running** (`World.rebuilds_as_running`):
after any updates the requests for the stored definition, about which nothing else is said, ask for
what the running release has its stages told, the keys of its partitions included.
-/

namespace StreamPipeline

/-- What is stored under the name of a definition has its stages, and so has what is released. -/
structure Content.Follows (k : Content) (d : Definition) : Prop where
  stored : ∃ d', k.definitions.get? d.name = some d' ∧ d'.name = d.name ∧
    List.Forall₂ Stage.Like d.stages d'.stages
  manifests : k.ledger.All (Manifest.Binds d)

namespace Transition

variable {c : Configuration} {registry : Registry} {k k' : Content} {d : Definition}

/-- A definition that was created is stored, and nothing else has changed. -/
theorem of_create (t : Transition c registry k (.create d) (.ok ()) k') :
    k'.definitions.get? d.name = some d ∧ k'.ledger = k.ledger := by
  cases t with
  | created _ h => exact ⟨StringMap.get?_insert_self .., rfl⟩

/-- What is deployed for a definition has its stages. -/
theorem of_deploy {p : Properties} (t : Transition c registry k (.deploy d.name p) (.ok ()) k')
    (hd : k.definitions.get? d.name = some d) (hp : p.LeavesBindings d.labels)
    (hk : k.ledger.All (Manifest.Binds d)) :
    k'.Follows d ∧ ∃ requests, Request.build registry d p = .ok requests := by
  have hmanifests : k'.ledger.All (Manifest.Binds d) := by
    refine t.all_manifests hk ?_
    rintro _ ⟨_, requests, hd', hbuild, rfl⟩
    cases hd.symm.trans hd'
    exact Manifest.binds_of_build hp hbuild
  cases t with
  | deployed _ _ _ requests _ _ _ _ _ hd' hbuild =>
      cases hd.symm.trans hd'
      exact ⟨⟨⟨d, hd, rfl, List.forall₂_same.2 fun s _ => .refl s⟩, hmanifests⟩, requests, hbuild⟩

/-- An update releases what was worked out, if its package is not mistaken for another one, and
writes what it released into the stored definition. -/
theorem of_update {name : String} {u : Properties} {o : UpgradeOptions}
    (t : Transition c registry k (.update name u o) (.ok ()) k') : ∃ d' r,
      k.definitions.get? name = some d' ∧
      k'.definitions = k.definitions.insert d'.name (d'.withSettings r.manifest.settings) ∧
      k'.ledger.live name = .ok r ∧
      ((∀ package values l, k.Upgradable name u o package values l → k.ledger.Trusts package) →
        ∃ current targets, k.ledger.live name = .ok current ∧
          Lifecycle.targets name current.manifest.labels o = .ok targets ∧
          (current.manifest.merge (Lifecycle.overrides current.manifest.labels targets u
            o)).repartition name = .ok r.manifest) := by
  cases t with
  | upgraded _ _ _ d' package values l l' r hd' hready hu =>
      obtain ⟨current, hlive, hbuilt⟩ := hready.built
      obtain ⟨targets, m, version, htargets, rfl, hm, -, -, rfl⟩ :=
        Lifecycle.upgraded_eq_ok_iff.1 hbuilt
      have hrunning : l'.live name = .ok r := by
        obtain ⟨previous, s, m', -, -, -, rfl, rfl⟩ := Ledger.upgrade_eq_ok_iff.1 hu
        exact Ledger.live_push rfl
      have hreconciled : ((k.keeping l').reconciled name r.manifest).definitions =
          k.definitions.insert d'.name (d'.withSettings r.manifest.settings) := by
        unfold Content.reconciled
        rw [Content.definitions_keeping, hd']
      refine ⟨d', r, hd', hreconciled, ?_, fun htrusts =>
        ⟨current, targets, hlive, htargets, ?_⟩⟩
      · rw [Content.ledger_told, Content.ledger_reconciled]
        exact hrunning
      · have hs := (htrusts _ _ _ hready).stored?_ensure hready.packed hready.ensured
        obtain ⟨hmade, -⟩ := Ledger.upgrade_of_stored hs
          ((Ledger.live_ensure hready.ensured name).trans hlive) hu
        have hreleased : r.manifest = m :=
          Except.ok.inj (hmade.symm.trans (Manifest.ofPackage_packed _ _ _ m.entries))
        rw [hreleased]
        exact hm

/-- A deployment releases the package of its requests, if that is not mistaken for another one, and
stores no other package. -/
theorem deployed_as_packed {p : Properties} {requests : List Request} {package : Package}
    (t : Transition c registry k (.deploy d.name p) (.ok ()) k')
    (hd : k.definitions.get? d.name = some d) (hbuild : Request.build registry d p = .ok requests)
    (hpacked : c.packager.package d requests p = .ok package) (htrusts : k.ledger.Trusts package) :
    ∃ r, k'.ledger.live d.name = .ok r ∧ r.package = package.info ∧
      r.manifest = ⟨requests.map Request.entry⟩ ∧
      ∀ name version, ¬ (name = package.info.name ∧ version = package.info.version) →
        k'.ledger.stored? name version = k.ledger.stored? name version := by
  cases t with
  | deployed _ _ _ requests' package' l l' r ids hd' hbuild' hready hi =>
      cases hd.symm.trans hd'
      cases hbuild.symm.trans hbuild'
      cases hpacked.symm.trans hready.packed
      have hp := Packager.packed_of_package hpacked
      have hs := htrusts.stored?_ensure hp hready.ensured
      obtain ⟨hm, hinfo, hlive, hpackages⟩ := Ledger.install_of_stored hs hi
      rw [Packager.ofPackage_package hpacked] at hm
      refine ⟨r, hlive, hinfo, (Except.ok.inj hm).symm, fun name version hne => ?_⟩
      exact (Ledger.stored?_of_packages hpackages _ _).trans
        (Ledger.stored?_ensure_of_ne hp hready.ensured hne)

/-- An update succeeds where what is running can be worked out anew. -/
theorem updated_of_ready {name : String} {u : Properties} {o : UpgradeOptions} {current : Release}
    {package : Package} {values : Overrides} {r : Except Failure Unit}
    (t : Transition c registry k (.update name u o) r k') (hstocked : k.ledger.Stocked)
    (hd : k.definitions.get? name = some d) (hlive : k.ledger.live name = .ok current)
    (hbuilt : Lifecycle.upgraded { current with name } u o = .ok (package, values)) :
    r = .ok () := by
  cases t with
  | refused _ e h =>
      obtain ⟨l, hl⟩ := k.ledger.exists_ensure (Lifecycle.packed_of_upgraded hbuilt)
      rcases h with hmissing | hnot
      · cases hd.symm.trans hmissing
      · exact absurd ⟨⟨current, hlive, hbuilt⟩, hl⟩ (hnot package values l)
  | upgraded => rfl
  | upgradeFailed _ _ _ _ e package' values' l _ hready hu =>
      obtain ⟨_, _, hok⟩ := exists_upgrade hstocked hready
      cases hok.symm.trans hu

end Transition

namespace Content.Follows

variable {c : Configuration} {registry : Registry} {k k' : Content} {d : Definition}
  {u : Properties} {o : UpgradeOptions}

/-- What is running has the stages of the definition, and so an update binds none of them. -/
theorem get?_app_overrides (h : k.Follows d) (hu : u.LeavesBindings d.labels) {current : Release}
    (hlive : k.ledger.live d.name = .ok current) (targets : List String) (o : UpgradeOptions) :
    current.manifest.Binds d ∧ ∀ label key, Binding.isBinding key = true →
      ((Lifecycle.overrides current.manifest.labels targets u o).about label).app.get? key =
        none := by
  obtain ⟨rs, hrs, -⟩ := Ledger.live_eq_ok_iff.1 hlive
  have hbinds := h.manifests.released d.name current (by simp [hrs])
  refine ⟨hbinds, fun label key hkey => ?_⟩
  exact Lifecycle.get?_app_overrides (hbinds.labels_eq ▸ hu) targets o label hkey

/-- Updates that bind no stage are followed. -/
theorem updated (h : k.Follows d) (hu : u.LeavesBindings d.labels)
    (t : Transition c registry k (.update d.name u o) (.ok ()) k') : k'.Follows d := by
  constructor
  · obtain ⟨d', r, hd', hdefinitions, -⟩ := t.of_update
    obtain ⟨_, hstored, hname, hlike⟩ := h.stored
    cases hd'.symm.trans hstored
    refine ⟨d'.withSettings r.manifest.settings, ?_, hname, ?_⟩
    · rw [hdefinitions, hname, StringMap.get?_insert_self]
    · exact forall₂_comp (fun _ _ _ => .trans) hlike (d'.like_withSettings _)
  · refine t.all_manifests h.manifests ?_
    rintro m ⟨current, targets, hlive, -, hm⟩
    obtain ⟨hbinds, hsaid⟩ := h.get?_app_overrides hu hlive targets o
    exact hbinds.updated hsaid hm

end Content.Follows

namespace World

/-- Any number of updates by a service that succeed one after another, with properties that bind
none of the stages with these labels. -/
inductive Updates (c : Configuration) (poller : Poller) (registry : Registry) (name : String)
    (labels : List String) (w₀ : World) : World → Prop where
  | refl : Updates c poller registry name labels w₀ w₀
  | updated {w w' : World} (t : Updates c poller registry name labels w₀ w) (u : Properties)
      (o : UpgradeOptions) (hu : u.LeavesBindings labels)
      (h : w.Performs c poller registry (.update name u o) (.ok ()) w') :
      Updates c poller registry name labels w₀ w'

variable {c : Configuration} {poller : Poller} {registry : Registry} {d : Definition}
  {w w' : World}

/-- Updates that bind no stage are followed, one after another. -/
theorem Updates.follows (t : Updates c poller registry d.name d.labels w w')
    (hsettled : w.Settled) (h : w.content.Follows d) : w'.Settled ∧ w'.content.Follows d := by
  induction t with
  | refl => exact ⟨hsettled, h⟩
  | updated _ u o hu hperforms ih =>
      obtain ⟨hsettled', ht⟩ := (ih.1.performs c poller registry _).2 _ _ hperforms
      exact ⟨hsettled', ih.2.updated hu ht⟩

/-- **A pipeline that was updated is deployed anew as it is running.** Let a definition that passes
the check be created where nothing has happened yet, be deployed, and be updated at least once, and
let all of that succeed, with properties that leave it to the definition how its stages are bound.

* The stored definition has the name and the stages of the one that was created, in order: their
  labels, apps and bindings. Its text is what it is rendered as.
* If the running release tells the platform no number of instances, then the requests for the stored
  definition, about which nothing else is said, are made, and ask in order for the stages of the
  running release with all the settings that it has.

This holds unless what is stored already is mistaken for the package of the last update. -/
theorem rebuilds_as_running (platforms : List Platform) (initial : State) {p u : Properties}
    {o : UpgradeOptions} {w₁ w₂ : World} (hcheck : d.check = .ok d)
    (hp : p.LeavesBindings d.labels) (hu : u.LeavesBindings d.labels)
    (hcreate : (fresh platforms initial).Performs c poller registry (.create d) (.ok ()) w₁)
    (hdeploy : w₁.Performs c poller registry (.deploy d.name p) (.ok ()) w₂)
    (hupdates : Updates c poller registry d.name d.labels w₂ w)
    (hlast : w.Performs c poller registry (.update d.name u o) (.ok ()) w')
    (htrusts : ∀ package values l, w.content.Upgradable d.name u o package values l →
      w.ledger.Trusts package) :
    ∃ r stored, w'.ledger.live d.name = .ok r ∧ w'.definitions.get? d.name = some stored ∧
      stored.name = d.name ∧ List.Forall₂ Stage.Like d.stages stored.stages ∧
      stored.text = stored.render ∧
      ((∀ e ∈ r.manifest.entries, e.spec.deployer.get? Partition.count = none) →
        ∃ requests, Request.build registry stored ∅ = .ok requests ∧
          List.Forall₂ (fun q e => q.label = e.label ∧ q.settings = e.spec.app) requests
            r.manifest.entries) := by
  have h₀ := settled_fresh platforms initial
  obtain ⟨h₁, ht₁⟩ := (h₀.performs c poller registry _).2 _ _ hcreate
  obtain ⟨h₂, ht₂⟩ := (h₁.performs c poller registry _).2 _ _ hdeploy
  obtain ⟨hstored₁, hledger₁⟩ := ht₁.of_create
  have hall₁ : w₁.content.ledger.All (Manifest.Binds d) := by
    rw [hledger₁]
    exact Ledger.all_fresh _ platforms initial
  obtain ⟨hfollows₂, requests, hbuild⟩ := ht₂.of_deploy hstored₁ hp hall₁
  obtain ⟨hsettled, hfollows⟩ := hupdates.follows h₂ hfollows₂
  obtain ⟨-, ht⟩ := (hsettled.performs c poller registry _).2 _ _ hlast
  obtain ⟨d', r, hd', hdefinitions, hlive', hcomputed⟩ := ht.of_update
  obtain ⟨_, hstored, hname, hlike⟩ := hfollows.stored
  cases hd'.symm.trans hstored
  refine ⟨r, d'.withSettings r.manifest.settings, hlive', ?_, hname, ?_, rfl, fun hcount => ?_⟩
  · show w'.content.definitions.get? d.name = _
    rw [hdefinitions, hname, StringMap.get?_insert_self]
  · exact forall₂_comp (fun _ _ _ => .trans) hlike (d'.like_withSettings _)
  · obtain ⟨current, targets, hlive, -, hm⟩ := hcomputed htrusts
    obtain ⟨hbinds, hsaid⟩ := hfollows.get?_app_overrides hu hlive targets o
    have hlabels := (Definition.check_eq_ok_iff.1 hcheck).1.labels
    exact hbinds.exists_requests hlabels hsaid hm hcount hlike hname hbuild

end World

/-- The source of the sample pipeline is to partition by a key, for two instances of the sink. -/
def Samples.keyed : Properties :=
  .ofList [("app.time." ++ Partition.keyExpression, Partition.wholePayload),
    ("app.log." ++ Partition.count, "2")]

/-- The sample pipeline is deployed and then updated so that its source partitions by a key: the
stored definition asks for what is running. -/
theorem World.rebuilds_as_running_keyed : ∃ w r stored requests,
    Reaches (fresh [⟨"default", "local", ""⟩] .deployed) w ∧ w.ledger.live "ticktock" = .ok r ∧
      w.definitions.get? "ticktock" = some stored ∧
      Request.build Samples.registry stored ∅ = .ok requests ∧
      List.Forall₂ (fun q e => q.label = e.label ∧ q.settings = e.spec.app) requests
        r.manifest.entries := by
  have h₀ := settled_fresh [⟨"default", "local", ""⟩] .deployed
  have hbuild : Request.build Samples.registry Samples.bound ∅ = .ok Samples.ticktockRequests := by
    decide
  obtain ⟨w₁, w₂, hcreate, hdeploy, hcontent, hdefs, -⟩ :=
    exists_deployment [⟨"default", "local", ""⟩] .deployed (c := { slots := 1 })
      ⟨4, ⟨10000000000⟩⟩ rfl hbuild Samples.package_eq_ok
  have t₁ : Reaches (fresh [⟨"default", "local", ""⟩] .deployed) w₁ :=
    .operation .refl _ _ _ _ _ trivial hcreate
  have t₂ : Reaches (fresh [⟨"default", "local", ""⟩] .deployed) w₂ :=
    .operation t₁ _ _ _ _ _ trivial hdeploy
  have hstored : w₁.content.definitions.get? "ticktock" = some Samples.bound := by
    rw [hcontent]
    exact StringMap.get?_insert_self ..
  have htrusts : ∀ package, w₁.content.ledger.Trusts package := by
    rw [hcontent]
    exact fun _ _ h => (nomatch h)
  obtain ⟨-, ht₂⟩ := ((t₁.settled h₀).performs _ _ _ _).2 _ _ hdeploy
  obtain ⟨current, hlive, hinfo, hmanifest, hothers⟩ :=
    ht₂.deployed_as_packed hstored hbuild Samples.package_eq_ok (htrusts _)
  -- the update gives the package another version
  have hinfo : current.package = Samples.packageInfo := hinfo
  have hmanifest : current.manifest = Samples.manifest := hmanifest
  have htargets : Lifecycle.targets "ticktock" Samples.manifest.labels {} =
      .ok Samples.manifest.labels := by
    decide
  have hupdated : ((Samples.manifest.merge (Lifecycle.overrides Samples.manifest.labels
      Samples.manifest.labels Samples.keyed {})).repartition "ticktock").map (fun m =>
        decide (m ≠ Samples.manifest ∧ ∀ e ∈ m.entries,
          e.spec.deployer.get? Partition.count = none)) = .ok true := by
    decide
  obtain ⟨m, hm, hboth⟩ := Except.map_eq_ok_iff.1 hupdated
  obtain ⟨hchanged, hcount⟩ := of_decide_eq_true hboth
  have hversion : Lifecycle.upgradeVersion "ticktock" Samples.packageInfo.version Samples.keyed {} =
      .ok "1.0.1" := by
    decide
  rw [← hmanifest] at htargets hm hchanged
  rw [← hinfo] at hversion
  have hbuilt := Lifecycle.upgraded_eq_ok_iff (r := { current with name := "ticktock" }).2
    ⟨_, m, "1.0.1", htargets, rfl, hm, .inr hchanged, hversion, rfl⟩
  obtain ⟨⟨r, w, hupdate⟩, htransition⟩ := (t₂.settled h₀).performs { slots := 1 }
    ⟨4, ⟨10000000000⟩⟩ Samples.registry (.update "ticktock" Samples.keyed {})
  obtain rfl := (htransition r w hupdate).2.updated_of_ready t₂.stocked (hdefs ▸ hstored) hlive
    hbuilt
  have hnew : ∀ package values l,
      w₂.content.Upgradable "ticktock" Samples.keyed {} package values l →
        w₂.ledger.Trusts package := by
    rintro package values l ⟨⟨_, hlive', hbuilt'⟩, -⟩ s hs -
    cases hlive.symm.trans hlive'
    cases hbuilt.symm.trans hbuilt'
    have hversion : ¬ (current.package.name = Samples.packageInfo.name ∧
        "1.0.1" = Samples.packageInfo.version) := by
      rintro ⟨-, hsame⟩
      exact absurd hsame (by decide)
    have hnone := hothers _ _ hversion
    rw [hcontent] at hnone
    cases hs.symm.trans hnone
  obtain ⟨r', stored, hlive', hstored', -, -, -, hrebuilds⟩ := rebuilds_as_running
    [⟨"default", "local", ""⟩] .deployed (d := Samples.bound) (by decide)
    (by decide) (by decide) hcreate hdeploy .refl hupdate hnew
  have hreleased : r'.manifest = m := by
    obtain ⟨_, r, -, -, hreleased, hcomputed⟩ := (htransition (.ok ()) w hupdate).2.of_update
    obtain ⟨_, _, hcurrent, htargets', hm'⟩ := hcomputed hnew
    cases hreleased.symm.trans hlive'
    cases hlive.symm.trans hcurrent
    cases htargets'.symm.trans htargets
    exact Except.ok.inj (hm'.symm.trans hm)
  obtain ⟨requests, hbuild', hsame⟩ := hrebuilds (hreleased ▸ hcount)
  exact ⟨w, r', stored, requests, .operation t₂ _ _ _ _ _ trivial hupdate, hlive', hstored',
    hbuild', hsame⟩

end StreamPipeline
