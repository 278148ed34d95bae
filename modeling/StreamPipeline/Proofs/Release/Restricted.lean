import StreamPipeline.Proofs.Release.Pinned
import StreamPipeline.Proofs.Release.Repartitioned

/-!
# Upgrades of some stages

An upgrade may be restricted to some stages. What is said of all stages, and artifacts that are to
take the place of others, are cut back to these, so that nothing is overridden about any other
stage (`Lifecycle.about_overrides`). But consumers are worked out anew for all of them, and so a
stage next to one that changes may be told something else.

**`World.upgrade_restricted`**: a stage to which an upgrade is not restricted keeps all that
partitioning does not write. If no stage next to it changes either, it becomes what it becomes when
consumers are worked out anew and nothing else is done.
-/

namespace StreamPipeline

/-- Nothing is overridden about a stage to which an upgrade is not restricted, whatever is said of
all stages, and whatever is to take its place. -/
theorem Lifecycle.about_overrides {targets : List String} {label : String} (h : label ∉ targets)
    (labels : List String) (p : Properties) (o : UpgradeOptions) :
    (overrides labels targets p o).about label = {} := by
  unfold overrides Overrides.retain Overrides.about
  rw [StringMap.get?_filterKeys, if_neg (by simpa using h)]
  rfl

namespace Entry

variable {os : Overrides} {e : Entry}

theorem updated_of_about (h : os.about e.label = {}) : e.updated os = e := by
  rw [updated, h, Override.apply_of_isEmpty rfl]

end Entry

namespace Manifest

variable {m m₀ m₁ : Manifest} {name : String} {os : Overrides} {i : Nat} {e e₁ : Entry}

/-- An update keeps the places of the stages. -/
theorem length_repartition_merge (h : (m.merge os).repartition name = .ok m₁) :
    m₁.entries.length = m.entries.length := by
  rw [length_repartition h, merge_eq]
  exact List.length_map ..

/-- An update keeps, but for what partitioning writes, what each entry has with what is overridden
about it. -/
theorem keeps_updated (h : (m.merge os).repartition name = .ok m₁) (he : m.entries[i]? = some e)
    (he₁ : m₁.entries[i]? = some e₁) : (e.updated os).Keeps e₁ := by
  rw [getElem?_repartition h, getElem?_merge, he] at he₁
  cases he₁
  exact Entry.keeps_retold ..

/-- An entry that is not overridden, as those next to it are not, becomes what it becomes without
overrides. -/
theorem getElem?_of_untouched (h : (m.merge os).repartition name = .ok m₁)
    (h₀ : m.repartition name = .ok m₀)
    (hbeside : ∀ j (e : Entry), i ≤ j + 1 → j ≤ i + 1 → m.entries[j]? = some e →
      os.about e.label = {}) :
    m₁.entries[i]? = m₀.entries[i]? := by
  refine getElem?_repartition_congr h h₀ fun j hfront hbehind => ?_
  rw [getElem?_merge]
  cases he : m.entries[j]? with
  | none => rfl
  | some e => exact congrArg some (Entry.updated_of_about (hbeside j e hfront hbehind he))

end Manifest

/-- **An upgrade that is restricted to some stages touches no other ones**, whatever is said of all
stages. Let a ledger have become what it is by commands of any kind. An upgrade that succeeds makes
a package of the running release, and unless another text was uploaded that is mistaken for it, in
what is running then

* the same stages run in the same places and roles;
* a stage to which the upgrade is not restricted keeps its artifact, its version and its pin, and
  all properties that partitioning does not write;
* if the upgrade is not restricted to a stage next to it either, its entry is the one that comes of
  working out consumers anew in the release before.

An upgrade that names no stages is restricted to all of them. -/
theorem World.upgrade_restricted (platforms : List Platform) (initial : State)
    (cs : List Ledger.Command) {w w' : World} (hfailing : w.calls.failing = [])
    (hledger : w.ledger = Ledger.after { platforms, initial } cs) (c : Configuration)
    (name : String) (p : Properties) (o : UpgradeOptions) {r : Release}
    (hg : ((World.lifecycle c).upgrade name p o).Gives w (.ok r) w') :
    ∃ current package values, w.ledger.live name = .ok current ∧
      Lifecycle.upgraded { current with name } p o = .ok (package, values) ∧
      (Ledger.Unmistaken cs package →
        w'.ledger.live name = .ok r ∧
        r.manifest.entries.length = current.manifest.entries.length ∧
        (∀ (i : Nat) (e e₁ : Entry), current.manifest.entries[i]? = some e →
          r.manifest.entries[i]? = some e₁ →
          (e₁.label = e.label ∧ e₁.app = e.app ∧ e₁.role = e.role) ∧
          (e.label ∉ o.labels.getD current.manifest.labels → e.Keeps e₁)) ∧
        ∀ m₀, current.manifest.repartition name = .ok m₀ → ∀ i : Nat,
          (∀ j (e : Entry), i ≤ j + 1 → j ≤ i + 1 → current.manifest.entries[j]? = some e →
            e.label ∉ o.labels.getD current.manifest.labels) →
          r.manifest.entries[i]? = m₀.entries[i]?) := by
  obtain ⟨-, hmoves⟩ := moves_of_gives (m := .upgrade name p o) hfailing hg
  obtain ⟨current, labels, m₁, version, hlive, hlabels, hm, hversion, hchanged, -, hcomputed⟩ :=
    hmoves.upgraded_as_computed (filed_of_ledger hledger)
  refine ⟨current, _, _, hlive, Lifecycle.upgraded_eq_ok_iff.2
    ⟨labels, m₁, version, hlabels, rfl, hm, hchanged, hversion, rfl⟩, fun hcs => ?_⟩
  obtain ⟨hlive', -, hmanifest, -⟩ := hcomputed hcs
  rw [hmanifest]
  rw [Lifecycle.targets_eq_ok hlabels] at hm
  refine ⟨hlive', Manifest.length_repartition_merge hm, fun i e e₁ he he₁ => ?_,
    fun m₀ h₀ i hbeside => ?_⟩
  · have hkeeps := Manifest.keeps_updated hm he he₁
    refine ⟨⟨hkeeps.label, hkeeps.app, hkeeps.role⟩, fun hlabel => ?_⟩
    rwa [Entry.updated_of_about (Lifecycle.about_overrides hlabel _ p o)] at hkeeps
  · exact Manifest.getElem?_of_untouched hm h₀ fun j e hfront hbehind he =>
      Lifecycle.about_overrides (hbeside j e hfront hbehind he) _ p o

namespace Samples

/-- Requests for the pipeline in which requests are transformed twice. -/
def chainRequests : List Request :=
  List.zipWith request chain.stages [.source, .processor, .processor, .sink]

/-- What a release of it runs. -/
def chainManifest : Manifest := ⟨chainRequests.map Request.entry⟩

/-- What is said of its package. -/
def chainInfo : PackageInfo :=
  { name := "chain", version := "1.0.0", repository := "local", kind := .pipeline
    description := chain.text }

theorem package_chain : Packager.package {} chain chainRequests ∅ =
    .ok (chainManifest.toPackage chainInfo) :=
  Packager.package_eq_ok_iff.2 ⟨"1.0.0", by decide, rfl⟩

/-- What makes the sink a partitioned consumer, with two instances of every stage. -/
def saidOfSink : Properties :=
  .ofList [("app.*." ++ Partition.count, "2"), ("app.log." ++ Partition.consumer, "true")]

/-- An upgrade of the sink only, though there is a new source. -/
def sinkOnly : UpgradeOptions :=
  { labels := some ["log"], coordinates := .ofList [("http", coordinate "http" "2.0.0")] }

end Samples

/-- Of a pipeline of four stages the sink is upgraded, and comes to be partitioned. The stage in
front of it keeps what partitioning does not write, and the first two stages stay as they are. -/
theorem World.upgrade_restricted_sink : ∃ r w₁ r' w₂,
    ((World.lifecycle { slots := 1 }).install Samples.chain Samples.chainRequests ∅).Gives
        (World.fresh [⟨"default", "local", ""⟩] .deployed) (.ok r) w₁ ∧
      ((World.lifecycle { slots := 1 }).upgrade "chain" Samples.saidOfSink Samples.sinkOnly).Gives
        w₁ (.ok r') w₂ ∧
      r'.manifest ≠ r.manifest ∧
      (∀ i, i < 2 → r'.manifest.entries[i]? = r.manifest.entries[i]?) ∧
      ∀ e e₁, r.manifest.entries[2]? = some e → r'.manifest.entries[2]? = some e₁ → e.Keeps e₁ := by
  obtain ⟨m₁, hm⟩ : ∃ m₁, (Samples.chainManifest.merge (Lifecycle.overrides
      Samples.chainManifest.labels ["log"] Samples.saidOfSink Samples.sinkOnly)).repartition
        "chain" = .ok m₁ :=
    Except.isOk_iff.1 (by decide)
  have hchanged : m₁ ≠ Samples.chainManifest := by
    rintro rfl
    exact absurd hm (by decide)
  have hlabels : Lifecycle.targets "chain" Samples.chainManifest.labels Samples.sinkOnly =
      .ok ["log"] := by
    decide
  have hversion : Lifecycle.upgradeVersion "chain" "1.0.0" Samples.saidOfSink Samples.sinkOnly =
      .ok "1.0.1" := by
    decide
  have hsettled : Samples.chainManifest.repartition "chain" = .ok Samples.chainManifest := by decide
  obtain ⟨r, w₁, cs, built, values, r', w₂, hinstall, h₁, hlive, hmanifest, hbuilt, hcs, hupgrade,
      -, hmanifest'⟩ :=
    exists_installed_upgraded [⟨"default", "local", ""⟩] .deployed { slots := 1 } rfl
      Samples.package_chain hlabels hm (.inr hchanged) hversion (by decide)
  obtain ⟨_, _, _, hcurrent, hbuilt', h⟩ := upgrade_restricted _ _ cs h₁.failing h₁.ledger
    { slots := 1 } "chain" Samples.saidOfSink Samples.sinkOnly hupgrade
  cases hlive.symm.trans hcurrent
  cases hbuilt.symm.trans hbuilt'
  obtain ⟨-, -, hkeeps, huntouched⟩ := h hcs
  rw [show r.manifest = Samples.chainManifest from hmanifest] at hkeeps huntouched
  have hothers : ∀ j < 3, ∀ e ∈ Samples.chainManifest.entries[j]?, e.label ∉ ["log"] := by decide
  refine ⟨r, w₁, r', w₂, hinstall, hupgrade, ?_⟩
  rw [show r.manifest = Samples.chainManifest from hmanifest]
  refine ⟨hmanifest' ▸ hchanged, fun i hi => ?_, fun e e₁ he he₁ => ?_⟩
  · exact huntouched _ hsettled i fun j e _ hj he => hothers j (by omega) e he
  · exact (hkeeps 2 e e₁ he he₁).2 (hothers 2 (by omega) e he)

end StreamPipeline
