import StreamPipeline.Proofs.Consumers
import StreamPipeline.Proofs.Release.Computed

/-!
# Upgrades that change nothing

A release runs the stages of a pipeline as a pass over them told them. An upgrade takes back what
the pass wrote and makes the pass anew, over stages that are read from the manifest: what was said
by the definition and what was said at deployment are one there. So it finds a stage bound to a
destination also where only the deployment said so.

**The manifest of a release is worked out as it was unless a consumer is bound late**
(`Manifest.repartition_requests_iff`), where nobody says what partitioning writes. So an upgrade
that says nothing and is not forced is refused right after the installation
(`World.nothing_to_upgrade`), unless a consumer is bound late.
-/

namespace StreamPipeline

open StreamPipeline.Partition ResolvedStage

/-- Nobody says about a stage what partitioning writes. -/
def ResolvedStage.Unsaid (a : ResolvedStage) : Prop :=
  ∀ key, isInjected key = true → a.get? key = none

namespace Entry

/-- The entry runs a stage with all its settings. -/
structure Runs (e : Entry) (t : ResolvedStage) : Prop where
  label : e.label = t.stage.label
  app : e.spec.app = t.stage.properties.overlay t.app
  deployer : e.spec.deployer = t.deployer

namespace Runs

variable {e : Entry} {a t b : ResolvedStage}

/-- An entry bears the mark of a consumer where its stage was told that it is one. -/
theorem contains_eq (he : e.Runs t) (ht : t.stage.properties.get? inputPartitioned = none) :
    e.spec.app.contains inputPartitioned = t.isMarked := by
  unfold isMarked StringMap.contains
  rw [he.app, StringMap.get?_overlay, ht, Option.or_none]

theorem unsaid_stage (ha : a.Unsaid) : a.stage.properties.get? inputPartitioned = none := by
  have h := ha inputPartitioned (by decide)
  unfold ResolvedStage.get? at h
  exact (Option.or_eq_none_iff.1 h).2

/-- A look-up in a bare stage is one in the stage from which the pass started. -/
theorem get?_bare (he : e.Runs t) (ht : Told a t) (ha : a.Unsaid) (key : String) :
    e.bare.get? key = a.get? key := by
  rw [Entry.get?_bare, he.app, StringMap.get?_overlay]
  cases hkey : isInjected key with
  | true => rw [if_pos rfl, ha key hkey]
  | false =>
      rw [if_neg Bool.false_ne_true, ht.app key hkey, ht.stage]
      rfl

/-- What a bare stage tells the platform is what was told it, but for the numbering of a
consumer's instances. -/
theorem nearly (he : e.Runs t) (ht : Told a t) (ha : a.Unsaid) : Nearly a e.bare where
  label := by
    rw [← ht.stage]
    exact he.label.symm
  get? key := (he.get?_bare ht ha key).symm
  deployer key hkey := by
    show a.deployer.get? key = (if e.spec.app.contains inputPartitioned then
      e.spec.deployer.erase indexed else e.spec.deployer).get? key
    rw [he.contains_eq (ht.stage ▸ unsaid_stage ha), he.deployer, ht.deployer]
    unfold isMarked
    split
    · rw [StringMap.get?_erase, if_neg hkey, StringMap.get?_insert_of_ne _ _ hkey]
    · rfl

theorem agrees (he : e.Runs t) (ht : Told a t) (ha : a.Unsaid) (hmark : t.isMarked = false) :
    Agrees a e.bare where
  label := (he.nearly ht ha).label
  get? := (he.nearly ht ha).get?
  deployer := by
    show a.deployer = if e.spec.app.contains inputPartitioned then
      e.spec.deployer.erase indexed else e.spec.deployer
    rw [he.contains_eq (ht.stage ▸ unsaid_stage ha), hmark, he.deployer, ht.deployer]
    rw [isMarked] at hmark
    rw [hmark]
    rfl

/-- An upgrade reads the stages anew. -/
theorem reread (he : e.Runs t) (ht : Told a t) (ha : a.Unsaid) : Reread a e.bare where
  nearly := he.nearly ht ha
  hasInput := by
    rw [Entry.hasInput_bare, ← he.get?_bare ht ha, Entry.get?_bare, if_neg (by decide)]

/-- An entry is left as it is by a stage that agrees with its own. -/
theorem withStage_eq (he : e.Runs t) (h : Agrees t b) : e.withStage b = e := by
  unfold Entry.withStage
  rw [← h.settings, ← h.deployer, ← he.app, ← he.deployer]

end Runs

end Entry

namespace Manifest

variable {stages told : List ResolvedStage} {entries : List Entry} {pipeline : String}

theorem forall₂_reread (htold : List.Forall₂ Told stages told)
    (hruns : List.Forall₂ Entry.Runs entries told) (hunsaid : ∀ a ∈ stages, a.Unsaid) :
    List.Forall₂ Reread stages (entries.map Entry.bare) := by
  induction htold generalizing entries with
  | nil =>
      cases hruns
      exact .nil
  | cons ht _ ih =>
      cases hruns with
      | cons he hruns =>
          exact .cons (he.reread ht (hunsaid _ (by simp)))
            (ih hruns fun a ha => hunsaid a (by simp [ha]))

/-- The entries bear the marks of the stages that they run. -/
theorem marked_of_runs (htold : List.Forall₂ Told stages told)
    (hruns : List.Forall₂ Entry.Runs entries told) (hunsaid : ∀ a ∈ stages, a.Unsaid) :
    entries.map (·.spec.app.contains inputPartitioned) = told.map isMarked := by
  induction htold generalizing entries with
  | nil =>
      cases hruns
      rfl
  | cons ht _ ih =>
      cases hruns with
      | cons he hruns =>
          have hstage := Entry.Runs.unsaid_stage (hunsaid _ (List.mem_cons_self ..))
          rw [List.map_cons, List.map_cons, he.contains_eq (ht.stage ▸ hstage),
            ih hruns fun a ha => hunsaid a (by simp [ha])]

/-- Where the same stages are consumers, a pass over the bare stages repeats the first one. -/
theorem repeats_bare (htold : List.Forall₂ Told stages told)
    (hruns : List.Forall₂ Entry.Runs entries told) (hunsaid : ∀ a ∈ stages, a.Unsaid)
    {isKeyed : Bool} (hmarked : told.map isMarked = consumers isKeyed stages)
    (hsame : consumers isKeyed (entries.map Entry.bare) = consumers isKeyed stages) :
    Repeats isKeyed stages (entries.map Entry.bare) := by
  induction htold generalizing entries isKeyed with
  | nil =>
      cases hruns
      exact .nil
  | @cons a t stages told ht _ ih =>
      cases hruns with
      | @cons e _ entries _ he hruns =>
          have ha := hunsaid a (by simp)
          have hkeyed := (he.nearly ht ha).declaresKey
          obtain ⟨hmark, hmarked⟩ := List.cons_eq_cons.1 hmarked
          obtain ⟨hconsumer, hsame⟩ := List.cons_eq_cons.1 hsame
          have hr := ih hruns (fun b hb => hunsaid b (by simp [hb])) hmarked
            (by rw [← hkeyed] at hsame; exact hsame)
          cases hc : isKeyed || a.declaresConsumer with
          | true => exact .consumer (he.nearly ht ha) hc (hconsumer.trans hc) hr
          | false => exact .other (he.agrees ht ha (hmark.trans hc)) hc (hconsumer.trans hc) hr

theorem withStages_eq_self {told' : List ResolvedStage}
    (hruns : List.Forall₂ Entry.Runs entries told) (h : List.Forall₂ Agrees told told') :
    List.zipWith Entry.withStage entries told' = entries := by
  induction hruns generalizing told' with
  | nil =>
      cases h
      rfl
  | cons he _ ih =>
      cases h with
      | cons ha h => rw [List.zipWith_cons_cons, he.withStage_eq ha, ih h]

/-- Nothing is said at deployment about bare stages. -/
theorem unmarked_bare {s : ResolvedStage} (hs : s ∈ entries.map Entry.bare) :
    s.app.get? inputPartitioned = none := by
  obtain ⟨e, -, rfl⟩ := List.mem_map.1 hs
  rfl

/-- A pass over bare stages that does not fail told them something. -/
theorem told_of_propagated (h : propagated pipeline (entries.map Entry.bare) = .ok told) :
    List.Forall₂ Told (entries.map Entry.bare) told := by
  have hbare : ∀ s ∈ entries.map Entry.bare, s.app.get? inputPartitioned = none :=
    fun _ hs => unmarked_bare hs
  have htold := forall₂_told_propagate pipeline hbare
  rwa [propagated_eq_ok_iff.1 h] at htold

/-- The entries that stages are put into bear the marks of these stages. -/
theorem marked_of_withStages {told' : List ResolvedStage}
    (htold : List.Forall₂ Told (entries.map Entry.bare) told')
    (h : List.zipWith Entry.withStage entries told' = entries) :
    told'.map isMarked = entries.map (·.spec.app.contains inputPartitioned) := by
  induction entries generalizing told' with
  | nil =>
      cases htold
      rfl
  | cons e entries ih =>
      cases htold with
      | @cons _ t _ told' ht htold =>
          obtain ⟨he, h⟩ := List.cons_eq_cons.1 h
          have hunsaid : t.stage.properties.get? inputPartitioned = none := by
            rw [ht.stage]
            exact (StringMap.get?_filterKeys _ _ _).trans (if_neg (by decide))
          have hmark : e.spec.app.contains inputPartitioned = t.isMarked := by
            rw [← he]
            exact Entry.Runs.contains_eq (e := e.withStage t)
              ⟨(congrArg Stage.label ht.stage).symm, rfl, rfl⟩ hunsaid
          rw [List.map_cons, List.map_cons, ih htold h, hmark]

/-- **Entries that run the stages of a pass are worked out as they are unless a consumer is bound
late.** -/
theorem repartition_entries_iff (hunsaid : ∀ a ∈ stages, a.Unsaid)
    (hpass : propagated pipeline stages = .ok told)
    (hruns : List.Forall₂ Entry.Runs entries told) :
    (Manifest.mk entries).repartition pipeline = .ok ⟨entries⟩ ↔ ¬ LateConsumer false stages := by
  have hunmarked : ∀ a ∈ stages, a.app.get? inputPartitioned = none := by
    intro a ha
    have h := hunsaid a ha inputPartitioned (by decide)
    unfold ResolvedStage.get? at h
    exact (Option.or_eq_none_iff.1 h).1
  have htold : List.Forall₂ Told stages told := by
    have h := forall₂_told_propagate pipeline hunmarked
    rwa [propagated_eq_ok_iff.1 hpass] at h
  have hmarked : told.map isMarked = consumers false stages := by
    refine marked_propagate (fun a ha => ?_) hpass
    rw [isMarked, StringMap.contains, hunmarked a ha]
    rfl
  rw [← consumers_eq_iff (forall₂_reread htold hruns hunsaid), repartition_eq]
  constructor
  · intro h
    obtain ⟨told', hpass', hsame⟩ := Except.map_eq_ok_iff.1 h
    have hsame : List.zipWith Entry.withStage entries told' = entries :=
      congrArg Manifest.entries hsame
    have hmarked' := marked_propagate (fun s hs => by
      rw [isMarked, StringMap.contains, unmarked_bare hs]
      rfl) hpass'
    -- the marks are those of the entries both times
    rw [← hmarked', ← hmarked, marked_of_withStages (told_of_propagated hpass') hsame,
      marked_of_runs htold hruns hunsaid]
  · intro hconsumers
    obtain ⟨told', hpass', hagree⟩ :=
      propagate_of_repeats (repeats_bare htold hruns hunsaid hmarked hconsumers) hpass
    rw [hpass']
    exact congrArg (fun es => Except.ok (Manifest.mk es)) (withStages_eq_self hruns hagree)

end Manifest

/-! ### Packages of requests -/

/-- The requests for the stages of a pass ask for these stages. -/
theorem Request.Makes.runs {registry : Registry} {p : Properties} {stages : List ResolvedStage}
    {roles : List Role} {requests : List Request} (h : Makes registry p stages roles requests)
    (hroles : roles.length = stages.length) :
    List.Forall₂ Entry.Runs (requests.map entry) stages := by
  induction stages generalizing roles requests with
  | nil =>
      cases h
      exact .nil
  | cons s r ih =>
      obtain ⟨role, roles, rfl⟩ := List.exists_cons_of_length_eq_add_one hroles
      cases h with
      | cons hmade h =>
          obtain ⟨c, -, rfl⟩ := ofStage_eq_ok_iff.1 hmade
          exact .cons ⟨rfl, rfl, rfl⟩ (ih h (Nat.succ.inj hroles))

/-- What is said about a pipeline leaves it to partitioning what partitioning writes. -/
def Request.Unsaid (d : Definition) (p : Properties) : Prop :=
  ∀ s ∈ d.stages, ∀ key, isInjected key = true →
    s.properties.get? key = none ∧ (p.forStage .app s.label).get? key = none

instance Request.decidableUnsaid (d : Definition) (p : Properties) : Decidable (Unsaid d p) :=
  decidable_of_iff (∀ s ∈ d.stages, ∀ key ∈ [inputPartitioned, inputCount, outputCount,
      outputKeyExpression, outputKeyExtractor, outputSelectorClass, outputSelectorExpression],
    s.properties.get? key = none ∧ (p.forStage .app s.label).get? key = none)
    (by simp only [Unsaid, isInjected, List.contains_iff_mem])

/-- A consumer of the pipeline is bound late. -/
def Request.BoundLate (d : Definition) (p : Properties) : Prop :=
  LateConsumer false (Request.resolve d p)

instance Request.decidableBoundLate (d : Definition) (p : Properties) : Decidable (BoundLate d p) :=
  inferInstanceAs (Decidable (LateConsumer false (Request.resolve d p)))

/-- **The manifest of a release is worked out as it was unless a consumer is bound late.** -/
theorem Manifest.repartition_requests_iff {registry : Registry} {d : Definition} {p : Properties}
    {requests : List Request} (hunsaid : Request.Unsaid d p)
    (hbuild : Request.build registry d p = .ok requests) :
    (Manifest.mk (requests.map Request.entry)).repartition d.name =
      .ok ⟨requests.map Request.entry⟩ ↔ ¬ Request.BoundLate d p := by
  obtain ⟨roles, told, hroles, htold, hmakes⟩ := Request.build_eq_ok_iff.1 hbuild
  have hlength : roles.length = told.length := by
    rw [Stage.length_roles hroles, length_propagated htold, Request.resolve_eq_map, List.length_map]
  refine repartition_entries_iff (fun a ha key hkey => ?_) htold (hmakes.runs hlength)
  rw [Request.resolve_eq_map] at ha
  obtain ⟨s, hs, rfl⟩ := List.mem_map.1 ha
  obtain ⟨hdefinition, hsaid⟩ := hunsaid s hs key hkey
  unfold ResolvedStage.get? Request.resolved
  rw [hdefinition, hsaid]
  rfl

/-! ### Upgrades that are refused -/

namespace Lifecycle

/-- Where nothing is said, nothing is merged. -/
theorem merge_overrides_empty (m : Manifest) (targets : List String) {o : UpgradeOptions}
    (ho : o.coordinates = ∅) : m.merge (overrides m.labels targets ∅ o) = m := by
  have hnone : ∀ label, (overrides m.labels targets ∅ o).get? label = none := by
    intro label
    unfold overrides Overrides.retain
    rw [ho, StringMap.get?_filterKeys]
    show (if _ then (Overrides.ofProperties ∅ m.labels).get? label else none) = none
    rw [Overrides.get?_ofProperties, if_pos (c := (Override.ofProperties ∅ label).isEmpty) rfl]
    split <;> [split; skip] <;> rfl
  obtain ⟨entries⟩ := m
  refine congrArg Manifest.mk ((List.map_congr_left fun e _ => ?_).trans (List.map_id entries))
  rw [hnone]
  rfl

/-- Stages may change that are there. -/
theorem exists_targets {labels : List String} {o : UpgradeOptions} (name : String)
    (ho : o.coordinates = ∅) (hlabels : ∀ ls, o.labels = some ls → ls ⊆ labels) :
    ∃ ls, targets name labels o = .ok ls := by
  have hthere : (o.labels.getD labels ++ o.coordinates.keys).find? (!labels.contains ·) = none := by
    rw [ho, show (∅ : StringMap Coordinate).keys = [] from rfl, List.append_nil,
      List.find?_eq_none]
    intro l hl
    cases hls : o.labels with
    | none =>
        rw [hls] at hl
        simpa using hl
    | some ls =>
        rw [hls] at hl
        simpa using hlabels ls hls hl
  unfold targets
  dsimp only
  rw [hthere]
  exact ⟨_, rfl⟩

/-- What comes out as it was is not released once more, unless that is forced. -/
theorem upgraded_eq_error {r : Release} {p : Properties} {o : UpgradeOptions}
    {labels : List String} (hlabels : targets r.name r.manifest.labels o = .ok labels)
    (hsame : (r.manifest.merge (overrides r.manifest.labels labels p o)).repartition r.name =
      .ok r.manifest) (hforce : o.force = false) :
    upgraded r p o = .error (.conflict .nothingToUpgrade r.name) := by
  unfold upgraded
  simp only [hlabels, hsame, hforce, bind, Except.bind]
  rfl

end Lifecycle

/-- An upgrade of which nothing can be made is refused. -/
theorem Call.works_lifecycleUpgrade_of_error {c : Configuration} {k : Content} {name : String}
    {p : Properties} {o : UpgradeOptions} {current : Release} {e : Failure}
    {Q : Except Failure Release → Content → Prop} (hlive : k.ledger.live name = .ok current)
    (he : Lifecycle.upgraded { current with name } p o = .error e) (h : Q (.error e) k) :
    ((World.lifecycle c).upgrade name p o).Works k Q := by
  obtain ⟨rs, hrs, hl⟩ := Ledger.live_eq_ok_iff.1 hlive
  refine works_bind (works_info ?_)
  rw [Ledger.latest_eq_ok_iff.2 ⟨rs, hrs⟩]
  dsimp only
  rw [hl, Bool.not_true, if_neg Bool.false_ne_true]
  refine works_bind (works_ofExcept ?_)
  rw [he]
  exact h

/-- **Nothing is to be upgraded right after an installation unless a consumer is bound late.** Let
requests be made and packed for a pipeline, about which nobody says what partitioning writes.

* The manifest that the release of the package runs is worked out as it was exactly if no consumer
  is bound late.
* In that case, once the package is installed, an upgrade that says nothing and is not forced is
  refused, whatever stages may change, and leaves the ledger as it was. -/
theorem World.nothing_to_upgrade (platforms : List Platform) (initial : State)
    {registry : Registry} {d : Definition} {p : Properties} {requests : List Request}
    {c : Configuration} {package : Package} (hunsaid : Request.Unsaid d p)
    (hbuild : Request.build registry d p = .ok requests)
    (hpacked : c.packager.package d requests p = .ok package) :
    (∃ m, Manifest.ofPackage package = .ok m ∧
      (m.repartition d.name = .ok m ↔ ¬ Request.BoundLate d p)) ∧
    (¬ Request.BoundLate d p → ∀ (cs : List Ledger.Command) (w : World), w.calls.failing = [] →
      w.ledger = Ledger.after { platforms, initial } cs → Ledger.Unmistaken cs package →
      ∀ r w', ((World.lifecycle c).install d requests p).Gives w (.ok r) w' →
      ∀ (c' : Configuration) (o : UpgradeOptions), o.force = false → o.coordinates = ∅ →
        (∀ labels, o.labels = some labels → labels ⊆ r.manifest.labels) →
      ∃ w'', ((World.lifecycle c').upgrade d.name ∅ o).Gives w'
          (.error (.conflict .nothingToUpgrade d.name)) w'' ∧
        w''.ledger = w'.ledger) := by
  have hsame := Manifest.repartition_requests_iff hunsaid hbuild
  refine ⟨⟨_, Packager.ofPackage_package hpacked, hsame⟩, ?_⟩
  intro hlate cs w hfailing hledger hcs r w' hinstall c' o hforce ho hlabels
  obtain ⟨hfailing', hm⟩ := moves_of_gives (m := .install d requests p) hfailing hinstall
  have hfiled : Ledger.Filed cs w.content.ledger := by
    rw [show w.content.ledger = Ledger.after { platforms, initial } cs from hledger]
    exact Ledger.filed_after platforms initial cs
  obtain ⟨_, hpacked', -, hcomputed⟩ := hm.installed_as_computed hfiled
  cases hpacked.symm.trans hpacked'
  obtain ⟨hlive, -, hmanifest, -⟩ := hcomputed hcs
  obtain ⟨targets, htargets⟩ := Lifecycle.exists_targets d.name ho hlabels
  have hrefused : Lifecycle.upgraded { r with name := d.name } ∅ o =
      .error (.conflict .nothingToUpgrade d.name) := by
    refine Lifecycle.upgraded_eq_error (r := { r with name := d.name }) htargets ?_ hforce
    show (r.manifest.merge (Lifecycle.overrides r.manifest.labels targets ∅ o)).repartition d.name =
      .ok r.manifest
    rw [Lifecycle.merge_overrides_empty _ _ ho, hmanifest]
    exact hsame.2 hlate
  have hworks : ((World.lifecycle c').upgrade d.name ∅ o).Works w'.content fun r k =>
      r = .error (.conflict .nothingToUpgrade d.name) ∧ k.ledger = w'.content.ledger :=
    Call.works_lifecycleUpgrade_of_error hlive hrefused ⟨rfl, rfl⟩
  obtain ⟨_, w'', hg, rfl, hkept⟩ := hworks.exists_gives hfailing'
  exact ⟨w'', hg, hkept⟩

/-- The sample pipeline, where its source partitions by a key: right after the installation there is
nothing to upgrade. -/
theorem World.nothing_to_upgrade_keyed : ∃ requests package m r w w',
    Request.build Samples.registry Samples.bound Samples.said = .ok requests ∧
      Packager.package {} Samples.bound requests Samples.said = .ok package ∧
      Manifest.ofPackage package = .ok m ∧ m.repartition "ticktock" = .ok m ∧
      ((World.lifecycle { slots := 1 }).install Samples.bound requests Samples.said).Gives
        (World.fresh [⟨"default", "local", ""⟩] .deployed) (.ok r) w ∧
      ((World.lifecycle { slots := 1 }).upgrade "ticktock" ∅ {}).Gives w
        (.error (.conflict .nothingToUpgrade "ticktock")) w' := by
  have hall : (Request.build Samples.registry Samples.bound Samples.said >>= fun requests =>
      Packager.package {} Samples.bound requests Samples.said).isOk = true := by
    decide
  obtain ⟨package, h⟩ := Except.isOk_iff.1 hall
  obtain ⟨requests, hbuild, hpacked⟩ := Except.bind_eq_ok_iff.1 h
  have hunsaid : Request.Unsaid Samples.bound Samples.said := by decide
  have hlate : ¬ Request.BoundLate Samples.bound Samples.said := by decide
  obtain ⟨⟨m, hm, hsame⟩, hrefused⟩ := nothing_to_upgrade [⟨"default", "local", ""⟩] .deployed
    (c := { slots := 1 }) hunsaid hbuild hpacked
  have hcs : Ledger.Unmistaken [] package := fun _ _ h => by cases h
  obtain ⟨r, w, -, hinstall, -⟩ := (ready_fresh [⟨"default", "local", ""⟩] .deployed).installed
    { slots := 1 } rfl (by decide) hpacked hcs
  obtain ⟨w', hupgrade, -⟩ := hrefused hlate [] _ rfl rfl hcs r w hinstall { slots := 1 } {} rfl rfl
    fun _ h => by cases h
  exact ⟨requests, package, m, r, w, w', hbuild, hpacked, hm, hsame.2 hlate, hinstall, hupgrade⟩

/-- The source of the sample pipeline is told at deployment from where it consumes, and that it is a
partitioned consumer. -/
def Samples.lateSaid : Properties :=
  .ofList [("app.time." ++ Binding.input, "foo"), ("app.time." ++ Partition.consumer, "true")]

/-- What is installed of that does not come out as it was. -/
theorem Manifest.not_stable_of_boundLate : ∃ requests package m,
    Request.Unsaid Samples.bound Samples.lateSaid ∧
      Request.build Samples.registry Samples.bound Samples.lateSaid = .ok requests ∧
      Packager.package {} Samples.bound requests Samples.lateSaid = .ok package ∧
      Manifest.ofPackage package = .ok m ∧ m.repartition Samples.bound.name ≠ .ok m := by
  have hall : (Request.build Samples.registry Samples.bound Samples.lateSaid >>= fun requests =>
      Packager.package {} Samples.bound requests Samples.lateSaid).isOk = true := by
    decide
  obtain ⟨package, h⟩ := Except.isOk_iff.1 hall
  obtain ⟨requests, hbuild, hpacked⟩ := Except.bind_eq_ok_iff.1 h
  have hunsaid : Request.Unsaid Samples.bound Samples.lateSaid := by decide
  have hlate : Request.BoundLate Samples.bound Samples.lateSaid := by decide
  refine ⟨requests, package, _, hunsaid, hbuild, hpacked, Packager.ofPackage_package hpacked, ?_⟩
  exact fun hsame => (repartition_requests_iff hunsaid hbuild).1 hsame hlate

end StreamPipeline
