import StreamPipeline.Proofs.Release.Updated

/-!
# Updates that are repeated

An update that is repeated finds what it said already said. The pass over the stages finds the same
consumers as before, for it reads look-ups only, and these agree (`Entry.nearly_again`). What a
second update can change is whether the instances of a stage are numbered: where a stage ceases to
be a partitioned consumer, the numbering that came with that is taken back, and with it the
numbering that the update itself asks for. The second update finds the stage no consumer, and leaves
its numbering to it (`Entry.Lapses`).

**An update that is repeated changes nothing unless it lapses** (`World.upgrade_repeated`): then it
gives another manifest the second time.
-/

namespace StreamPipeline

open StreamPipeline.Partition ResolvedStage

/-! ### Overrides that are applied twice -/

namespace Override

/-- A second time only the properties matter. -/
theorem apply_again (o : Override) (s : StageSpec) (app deployer : Settings) :
    o.apply { o.apply s with app, deployer } =
      { o.apply s with app := app.overlay o.app, deployer := deployer.overlay o.deployer } := by
  unfold apply
  cases o.coordinate with
  | some c => rfl
  | none =>
      cases o.version with
      | none => rfl
      | some v =>
          dsimp only
          rw [pinLocator_self]

end Override

namespace Entry

/-- The stage of an entry `e` ceases to be a partitioned consumer by an update that asks itself for
the numbering of its instances, and comes to the entry `e₁`. -/
structure Lapses (os : Overrides) (e e₁ : Entry) : Prop where
  was : e.spec.app.contains inputPartitioned = true
  ceased : e₁.spec.app.contains inputPartitioned = false
  unsaid : (os.about e.label).app.contains inputPartitioned = false
  numbered : (os.about e.label).deployer.contains indexed = true

instance decidableLapses (os : Overrides) (e e₁ : Entry) : Decidable (Lapses os e e₁) :=
  decidable_of_iff (e.spec.app.contains inputPartitioned = true ∧
      e₁.spec.app.contains inputPartitioned = false ∧
      (os.about e.label).app.contains inputPartitioned = false ∧
      (os.about e.label).deployer.contains indexed = true)
    ⟨fun ⟨was, ceased, unsaid, numbered⟩ => ⟨was, ceased, unsaid, numbered⟩,
      fun ⟨was, ceased, unsaid, numbered⟩ => ⟨was, ceased, unsaid, numbered⟩⟩

variable {os : Overrides} {e : Entry} {t t' : ResolvedStage}

/-! ### One entry -/

/-- A repeated update finds the look-ups of the first one, but for the numbering of instances. -/
theorem nearly_again (ht : Told (e.updated os).bare t) :
    Nearly (e.updated os).bare (((e.updated os).withStage t).updated os).bare where
  label := rfl
  get? key := by
    rw [get?_bare, get?_bare]
    cases hkey : isInjected key with
    | true => rfl
    | false =>
        rw [if_neg Bool.false_ne_true, if_neg Bool.false_ne_true, get?_updated _ (withStage _ t),
          get?_withStage ht hkey, get?_updated, ← Option.or_assoc]
        exact congrArg (Option.or · _) (Option.or_self).symm
  deployer key hkey := by
    have htold : t.deployer.get? key = (e.updated os).bare.deployer.get? key := by
      rw [ht.deployer]
      split
      · rw [StringMap.get?_insert_of_ne _ _ hkey]
      · rfl
    have hsaid : ((e.updated os).withStage t).spec.deployer.get? key =
        (e.updated os).spec.deployer.get? key := by
      refine htold.trans ?_
      rw [get?_deployer_bare, if_neg fun h => hkey h.2]
    rw [get?_deployer_bare, if_neg fun h => hkey h.2, get?_deployer_bare, if_neg fun h => hkey h.2,
      deployer_updated _ (withStage _ t), StringMap.get?_overlay, hsaid, deployer_updated,
      StringMap.get?_overlay, ← Option.or_assoc]
    exact congrArg (Option.or · _) (Option.or_self).symm

theorem hasInput_again (ht : Told (e.updated os).bare t) :
    (e.updated os).bare.stage.hasInput =
      (((e.updated os).withStage t).updated os).bare.stage.hasInput := by
  have hget := (nearly_again ht).get? Binding.input
  rw [get?_bare, get?_bare, if_neg (by decide), if_neg (by decide)] at hget
  rw [hasInput_bare, hasInput_bare, hget]

/-- How the instances of a stage are to be numbered, once it was told whether it is a consumer. -/
theorem get?_indexed {a b : ResolvedStage} (h : Told a b) : b.deployer.get? indexed =
    if b.isMarked then some "true" else a.deployer.get? indexed := by
  rw [h.deployer]
  unfold isMarked
  split
  · exact StringMap.get?_insert_self ..
  · rfl

/-- **The instances of a stage are numbered as they were unless the update lapses.** -/
theorem indexed_again_iff (ht : Told (e.updated os).bare t)
    (ht' : Told (((e.updated os).withStage t).updated os).bare t')
    (hmark : t'.isMarked = t.isMarked) :
    t'.deployer.get? indexed = t.deployer.get? indexed ↔
      ¬ e.Lapses os ((e.updated os).withStage t) := by
  have hmarked : ((e.updated os).withStage t).spec.app.contains inputPartitioned = t.isMarked :=
    (runs_withStage ht).contains_eq (ht.stage ▸ bare_unmarked _)
  have hfirst := get?_deployer_bare (e.updated os) indexed
  have hsecond := get?_deployer_bare (((e.updated os).withStage t).updated os) indexed
  rw [contains_updated, deployer_updated, StringMap.get?_overlay] at hfirst hsecond
  rw [hmarked] at hsecond
  have hlapses : e.Lapses os ((e.updated os).withStage t) ↔
      e.spec.app.contains inputPartitioned = true ∧ t.isMarked = false ∧
        (os.about e.label).app.contains inputPartitioned = false ∧
        ((os.about e.label).deployer.get? indexed).isSome = true := by
    rw [← hmarked]
    exact ⟨fun ⟨was, ceased, unsaid, numbered⟩ => ⟨was, ceased, unsaid, numbered⟩,
      fun ⟨was, ceased, unsaid, numbered⟩ => ⟨was, ceased, unsaid, numbered⟩⟩
  have hkept : ((e.updated os).withStage t).spec.deployer.get? indexed = t.deployer.get? indexed :=
    rfl
  have hlabel : ((e.updated os).withStage t).label = e.label := rfl
  rw [hkept, get?_indexed ht, hfirst, hlabel] at hsecond
  rw [get?_indexed ht, get?_indexed ht', hmark, hsecond, hfirst, hlapses]
  cases t.isMarked with
  | true => simp
  | false =>
      cases (os.about e.label).app.contains inputPartitioned with
      | true => simp
      | false => cases e.spec.app.contains inputPartitioned <;> simp [← Option.or_assoc]

/-- A second time the entry comes out as the first time unless the update lapses. -/
theorem withStage_again_iff (ht : Told (e.updated os).bare t)
    (ht' : Told (((e.updated os).withStage t).updated os).bare t') (h : Nearly t t') :
    (((e.updated os).withStage t).updated os).withStage t' = (e.updated os).withStage t ↔
      ¬ e.Lapses os ((e.updated os).withStage t) := by
  have hmark : t'.isMarked = t.isMarked := by
    have hget := h.get? inputPartitioned
    unfold ResolvedStage.get? at hget
    rw [ht.stage, ht'.stage, bare_unmarked, bare_unmarked, Option.or_none, Option.or_none] at hget
    unfold isMarked StringMap.contains
    rw [hget]
  rw [← indexed_again_iff ht ht' hmark]
  constructor
  · intro hsame
    exact congrArg (fun e : Entry => e.spec.deployer.get? indexed) hsame
  · intro hindexed
    have hagree : Agrees t t' := ⟨h.label, h.get?, StringMap.ext_get? fun key => by
      by_cases hkey : key = indexed
      · rw [hkey, hindexed]
      · exact h.deployer key hkey⟩
    unfold withStage
    rw [← hagree.settings, ← hagree.deployer]
    exact congrArg (fun s : StageSpec => { e with spec := { s with
      app := t.stage.properties.overlay t.app, deployer := t.deployer } })
      (Override.apply_again (os.about e.label) e.spec _ _)

end Entry

namespace Manifest

/-- Some stage of a manifest `m` lapses by an update that comes to the manifest `m₁`. -/
def Lapses (m : Manifest) (os : Overrides) (m₁ : Manifest) : Prop :=
  ∃ p ∈ m.entries.zip m₁.entries, p.1.Lapses os p.2

instance decidableLapses (m : Manifest) (os : Overrides) (m₁ : Manifest) :
    Decidable (m.Lapses os m₁) :=
  inferInstanceAs (Decidable (∃ p ∈ m.entries.zip m₁.entries, p.1.Lapses os p.2))

variable {os : Overrides} {entries : List Entry} {told told' : List ResolvedStage}

/-- The stages of a repeated update are nearly the same. -/
theorem nearly_again
    (htold : List.Forall₂ Told ((entries.map (Entry.updated os)).map Entry.bare) told) :
    List.Forall₂ (fun a b => Nearly a b ∧ a.stage.hasInput = b.stage.hasInput)
      ((entries.map (Entry.updated os)).map Entry.bare)
      (((updatedWith os entries told).map (Entry.updated os)).map Entry.bare) := by
  induction entries generalizing told with
  | nil => exact .nil
  | cons e entries ih =>
      cases htold with
      | cons ht htold =>
          exact .cons ⟨Entry.nearly_again ht, Entry.hasInput_again ht⟩ (ih htold)

/-- Entries come out a second time as they did the first time unless one of them lapses. -/
theorem updatedWith_again_iff
    (htold : List.Forall₂ Told ((entries.map (Entry.updated os)).map Entry.bare) told)
    (htold' : List.Forall₂ Told
      (((updatedWith os entries told).map (Entry.updated os)).map Entry.bare) told')
    (h : List.Forall₂ Nearly told told') :
    updatedWith os (updatedWith os entries told) told' = updatedWith os entries told ↔
      ¬ (Manifest.mk entries).Lapses os ⟨updatedWith os entries told⟩ := by
  unfold Lapses
  induction entries generalizing told told' with
  | nil => simp [updatedWith]
  | cons e entries ih =>
      cases htold with
      | @cons _ t _ told ht htold =>
      cases h with
      | @cons _ t' _ told' h hrest =>
      cases htold' with
      | cons ht' htold' =>
      have hhead := Entry.withStage_again_iff ht ht' h
      have htail := ih htold htold' hrest
      show _ :: updatedWith os (updatedWith os entries told) told' =
        _ :: updatedWith os entries told ↔
          ¬ ∃ p ∈ (e, _) :: entries.zip (updatedWith os entries told), _
      rw [List.cons_eq_cons, hhead, htail, List.exists_mem_cons_iff, not_or]

/-- **An update that is repeated comes to a manifest, and to the same one unless it lapses.** -/
theorem exists_repartition_again {m m₁ : Manifest} {name : String}
    (h : (m.merge os).repartition name = .ok m₁) :
    ∃ m₂, (m₁.merge os).repartition name = .ok m₂ ∧ (m₂ = m₁ ↔ ¬ m.Lapses os m₁) := by
  obtain ⟨told, hpass, rfl⟩ := repartition_merge_eq_ok_iff.1 h
  have htold := told_of_propagated hpass
  obtain ⟨told', hpass', hnearly⟩ := kept_nearly.exists_propagated (nearly_again htold) hpass
  have htold' := told_of_propagated hpass'
  refine ⟨_, repartition_merge_eq_ok_iff.2 ⟨told', hpass', rfl⟩, ?_⟩
  rw [Manifest.mk.injEq]
  exact updatedWith_again_iff htold htold' (hnearly.imp fun _ _ h => h.1)

end Manifest

/-! ### Upgrades that are repeated -/

/-- A package of which no release can be made is malformed. -/
theorem Manifest.kind_of_ofPackage {package : Package} {e : Failure}
    (h : Manifest.ofPackage package = .error e) : e.kind = .serialization := by
  unfold Manifest.ofPackage at h
  rcases Except.bind_eq_error_iff.1 h with hspecs | ⟨specs, -, h⟩
  · obtain ⟨part, -, hpart⟩ := Except.exists_of_mapM_eq_error hspecs
    split at hpart
    · cases hpart
    · cases hpart
      rfl
  · rcases Except.bind_eq_error_iff.1 h with hentries | ⟨entries, -, h⟩
    · obtain ⟨⟨info, spec⟩, -, hpart⟩ := Except.exists_of_mapM_eq_error hentries
      dsimp only at hpart
      split at hpart
      · cases hpart
      · cases hpart
        rfl
    · cases h

/-- A ledger never answers that an upgrade would change nothing. -/
theorem Ledger.kind_of_upgrade {l : Ledger} {u : Upgrade} {e : Failure}
    (h : l.upgrade u = .error e) : e.kind ≠ .conflict := by
  unfold Ledger.upgrade at h
  rcases Except.bind_eq_error_iff.1 h with hlive | ⟨previous, -, h⟩
  · cases Ledger.live_eq_error hlive
    nofun
  rcases Except.bind_eq_error_iff.1 h with hstored | ⟨stored, -, h⟩
  · unfold Ledger.stored at hstored
    split at hstored
    · cases hstored
    · cases hstored
      nofun
  rcases Except.bind_eq_error_iff.1 h with hm | ⟨m, -, h⟩
  · rw [Manifest.kind_of_ofPackage hm]
    decide
  · cases h

namespace Lifecycle

theorem kind_of_upgradeVersion {name current : String} {p : Properties} {o : UpgradeOptions}
    {e : Failure} (h : upgradeVersion name current p o = .error e) : e.kind ≠ .conflict := by
  unfold upgradeVersion at h
  split at h
  · unfold checkVersion at h
    split at h
    · cases h
    · cases h
      nofun
  · unfold nextVersion at h
    split at h
    · split at h
      · cases h
      · cases h
        nofun
    · cases h
      nofun

/-- Where the stages may change and the manifest can be worked out, only the version can keep a
release from being upgraded, unless nothing changes. -/
theorem kind_of_upgraded {r : Release} {p : Properties} {o : UpgradeOptions} {labels : List String}
    {m : Manifest} {e : Failure} (hlabels : targets r.name r.manifest.labels o = .ok labels)
    (hm : (r.manifest.merge (overrides r.manifest.labels labels p o)).repartition r.name = .ok m)
    (hchanged : m ≠ r.manifest) (h : upgraded r p o = .error e) : e.kind ≠ .conflict := by
  unfold upgraded at h
  rcases Except.bind_eq_error_iff.1 h with h | ⟨labels', hlabels', h⟩
  · cases hlabels.symm.trans h
  cases hlabels.symm.trans hlabels'
  rcases Except.bind_eq_error_iff.1 h with h | ⟨m', hm', h⟩
  · cases hm.symm.trans h
  cases hm.symm.trans hm'
  dsimp only at h
  rw [if_neg (by simp [hchanged])] at h
  rcases Except.bind_eq_error_iff.1 h with hversion | ⟨version, -, h⟩
  · exact kind_of_upgradeVersion hversion
  · cases h

end Lifecycle

/-- An upgrade that is not forced is refused as one that changes nothing exactly where it works out
the manifest that is running. -/
theorem Call.works_lifecycleUpgrade_iff {c : Configuration} {k : Content} {name : String}
    {p : Properties} {o : UpgradeOptions} {current : Release} {labels : List String} {m : Manifest}
    (hlive : k.ledger.live name = .ok current)
    (hlabels : Lifecycle.targets name current.manifest.labels o = .ok labels)
    (hm : (current.manifest.merge
      (Lifecycle.overrides current.manifest.labels labels p o)).repartition name = .ok m)
    (hforce : o.force = false) :
    ((World.lifecycle c).upgrade name p o).Works k fun r k' =>
      (r = .error (.conflict .nothingToUpgrade name) ↔ m = current.manifest) ∧
        (m = current.manifest → k' = k) := by
  by_cases hsame : m = current.manifest
  · subst hsame
    exact works_lifecycleUpgrade_of_error hlive
      (Lifecycle.upgraded_eq_error (r := { current with name }) hlabels hm hforce)
      ⟨iff_of_true rfl rfl, fun _ => rfl⟩
  · have hother : ∀ {e : Failure}, e.kind ≠ .conflict →
        ((.error e : Except Failure Release) = .error (.conflict .nothingToUpgrade name) ↔
          m = current.manifest) := by
      intro e he
      refine iff_of_false (fun h => ?_) hsame
      cases h
      exact he rfl
    cases hu : Lifecycle.upgraded { current with name } p o with
    | error e =>
        have he := Lifecycle.kind_of_upgraded (r := { current with name }) hlabels hm hsame hu
        exact works_lifecycleUpgrade_of_error hlive hu ⟨hother he, fun h => absurd h hsame⟩
    | ok built =>
        refine works_lifecycleUpgrade (fun hnot => ?_) fun package values l hready => ?_
        · obtain ⟨l, hl⟩ := k.ledger.exists_ensure (Lifecycle.packed_of_upgraded hu)
          exact absurd ⟨⟨current, hlive, hu⟩, hl⟩ (hnot built.1 built.2 l)
        · split
          · exact ⟨iff_of_false nofun hsame, fun h => absurd h hsame⟩
          · rename_i e he
            exact ⟨hother (Ledger.kind_of_upgrade he), fun h => absurd h hsame⟩

/-- **An upgrade that is repeated changes nothing unless it lapses.**

* Let overrides be merged into whatever manifest, and its consumers be worked out anew. Then the
  same can be done with what came out; it comes to a manifest, and to the one that it started from
  exactly if no stage lapses: if none ceases to be a partitioned consumer while the overrides ask
  themselves for the numbering of its instances.
* An upgrade that succeeds releases what it worked out, unless another text was uploaded that is
  mistaken for its package. When it is repeated with the same properties and options, but not
  forced, it is refused as one that changes nothing exactly if no stage has lapsed. The ledger stays
  then. -/
theorem World.upgrade_repeated (platforms : List Platform) (initial : State) :
    (∀ (m m₁ : Manifest) (os : Overrides) (name : String),
      (m.merge os).repartition name = .ok m₁ →
      ∃ m₂, (m₁.merge os).repartition name = .ok m₂ ∧ (m₂ = m₁ ↔ ¬ m.Lapses os m₁)) ∧
    ∀ (cs : List Ledger.Command) (w : World), w.calls.failing = [] →
      w.ledger = Ledger.after { platforms, initial } cs →
      ∀ c name p o r w', ((World.lifecycle c).upgrade name p o).Gives w (.ok r) w' →
      ∃ current labels m₁ version, w.ledger.live name = .ok current ∧
        Lifecycle.targets name current.manifest.labels o = .ok labels ∧
        (current.manifest.merge
          (Lifecycle.overrides current.manifest.labels labels p o)).repartition name = .ok m₁ ∧
        Lifecycle.upgradeVersion name current.package.version p o = .ok version ∧
        (Ledger.Unmistaken cs (m₁.toPackage { current.package with version }) →
          r.manifest = m₁ ∧ ∀ c', ∃ r₂ w'',
            ((World.lifecycle c').upgrade name p { o with force := false }).Gives w' r₂ w'' ∧
            (r₂ = .error (.conflict .nothingToUpgrade name) ↔ ¬ current.manifest.Lapses
              (Lifecycle.overrides current.manifest.labels labels p o) m₁) ∧
            (r₂ = .error (.conflict .nothingToUpgrade name) → w''.ledger = w'.ledger)) := by
  refine ⟨fun m m₁ os name h => Manifest.exists_repartition_again h, ?_⟩
  intro cs w hfailing hledger c name p o r w' hg
  obtain ⟨hfailing', hmoves⟩ := moves_of_gives (m := .upgrade name p o) hfailing hg
  have hfiled : Ledger.Filed cs w.content.ledger := by
    rw [show w.content.ledger = Ledger.after { platforms, initial } cs from hledger]
    exact Ledger.filed_after platforms initial cs
  obtain ⟨current, labels, m₁, version, hlive, hlabels, hm, hversion, -, -, hcomputed⟩ :=
    hmoves.upgraded_as_computed hfiled
  refine ⟨current, labels, m₁, version, hlive, hlabels, hm, hversion, fun hcs => ?_⟩
  obtain ⟨hlive', -, hmanifest, -⟩ := hcomputed hcs
  refine ⟨hmanifest, fun c' => ?_⟩
  -- the second upgrade finds the labels of the first one, and so the same overrides
  have hsame : r.manifest.labels = current.manifest.labels :=
    hmanifest ▸ Manifest.labels_repartition_merge hm
  obtain ⟨m₂, hm₂, hiff⟩ := Manifest.exists_repartition_again hm
  rw [← hmanifest] at hm₂ hiff
  rw [← hsame] at hlabels hm₂
  have hworks := Call.works_lifecycleUpgrade_iff (c := c') (k := w'.content)
    (o := { o with force := false }) hlive' hlabels hm₂ rfl
  obtain ⟨r₂, w'', hg₂, hrefused, hkept⟩ := hworks.exists_gives hfailing'
  rw [← hmanifest]
  exact ⟨r₂, w'', hg₂, hrefused.trans hiff,
    fun h => congrArg Content.ledger (hkept (hrefused.1 h))⟩

/-- The sample pipeline is upgraded so that its source partitions by a key: asked for a second time,
nothing is to be upgraded. -/
theorem World.upgrade_repeated_keyed : ∃ r w₁ r' w₂ w₃,
    ((World.lifecycle { slots := 1 }).install Samples.bound Samples.ticktockRequests ∅).Gives
        (World.fresh [⟨"default", "local", ""⟩] .deployed) (.ok r) w₁ ∧
      ((World.lifecycle { slots := 1 }).upgrade "ticktock" Samples.said {}).Gives w₁ (.ok r') w₂ ∧
      ((World.lifecycle { slots := 1 }).upgrade "ticktock" Samples.said {}).Gives w₂
        (.error (.conflict .nothingToUpgrade "ticktock")) w₃ ∧
      w₃.ledger = w₂.ledger := by
  have h₀ := World.ready_fresh [⟨"default", "local", ""⟩] .deployed
  obtain ⟨r, w₁, cs, hinstall, h₁, hlive, hinfo, hmanifest, huploads⟩ :=
    h₀.installed { slots := 1 } rfl rfl Samples.package_eq_ok fun _ _ h => by cases h
  have hmanifest : r.manifest = Samples.manifest := hmanifest
  have hinfo : r.package = Samples.packageInfo := hinfo
  have hlabels : Lifecycle.targets "ticktock" Samples.manifest.labels {} =
      .ok Samples.manifest.labels := by
    decide
  obtain ⟨m₁, hm⟩ : ∃ m₁, (Samples.manifest.merge (Lifecycle.overrides Samples.manifest.labels
      Samples.manifest.labels Samples.said {})).repartition "ticktock" = .ok m₁ :=
    Except.isOk_iff.1 (by decide)
  have hchanged : m₁ ≠ Samples.manifest := by
    rintro rfl
    exact absurd hm (by decide)
  have hversion : Lifecycle.upgradeVersion "ticktock" Samples.packageInfo.version Samples.said {} =
      .ok "1.0.1" := by
    decide
  -- no stage has been a consumer before
  have hkept : ∀ os m, ¬ Samples.manifest.Lapses os m := by
    rintro os m ⟨⟨e, e₁⟩, he, hwas, -⟩
    have hnone : ∀ e ∈ Samples.manifest.entries, e.spec.app.contains inputPartitioned = false := by
      decide
    exact Bool.false_ne_true ((hnone e (List.of_mem_zip he).1).symm.trans hwas)
  have hsaid : Ledger.Unmistaken cs
      (m₁.toPackage { Samples.packageInfo with version := "1.0.1" }) := by
    refine Ledger.unmistaken_of_ne (Packager.packed_of_package Samples.package_eq_ok)
      (fun text ht => (huploads text ht).resolve_left (by simp)) ?_
    show "1.0.0" ≠ "1.0.1"
    decide
  rw [← hmanifest] at hlabels hm hchanged hkept
  rw [← hinfo] at hversion hsaid
  obtain ⟨r', w₂, -, hupgrade, -⟩ :=
    h₁.upgraded { slots := 1 } _ _ _ hlive hlabels hm (.inr hchanged) hversion hsaid
  obtain ⟨-, hrepeated⟩ := upgrade_repeated [⟨"default", "local", ""⟩] .deployed
  obtain ⟨_, _, _, _, hlive', hlabels', hm', hversion', h⟩ :=
    hrepeated cs w₁ h₁.failing h₁.ledger { slots := 1 } "ticktock" Samples.said {} r' w₂ hupgrade
  cases hlive.symm.trans hlive'
  cases hlabels.symm.trans hlabels'
  cases hm.symm.trans hm'
  cases hversion.symm.trans hversion'
  obtain ⟨r₂, w₃, hagain, hrefused, hledger⟩ := (h hsaid).2 { slots := 1 }
  obtain rfl := hrefused.2 (hkept _ _)
  exact ⟨r, w₁, r', w₂, w₃, hinstall, hupgrade, hagain, hledger rfl⟩

/-- The sink of the sample pipeline calls itself a partitioned consumer. -/
def Samples.partitioned : Properties := .ofList [("app.log." ++ Partition.consumer, "true")]

/-- It no longer does, and its instances are to be numbered all the same. -/
def Samples.numbered : Properties :=
  .ofList [("app.log." ++ Partition.consumer, "false"),
    ("deployer.log." ++ Partition.indexed, "true")]

/-- An update of what is deployed that lapses: the numbering that it asks for is there only after it
was asked for twice. -/
theorem Manifest.not_stable_of_lapse : ∃ requests m₁ m₂,
    Request.build Samples.registry Samples.bound Samples.partitioned = .ok requests ∧
      ((Manifest.mk (requests.map Request.entry)).merge
        (Overrides.ofProperties Samples.numbered Samples.bound.labels)).repartition "ticktock" =
          .ok m₁ ∧
      (m₁.merge (Overrides.ofProperties Samples.numbered Samples.bound.labels)).repartition
        "ticktock" = .ok m₂ ∧
      m₂ ≠ m₁ := by
  have hall : (Request.build Samples.registry Samples.bound Samples.partitioned >>= fun requests =>
      ((Manifest.mk (requests.map Request.entry)).merge (Overrides.ofProperties Samples.numbered
        Samples.bound.labels)).repartition "ticktock" >>= fun m₁ =>
      (m₁.merge (Overrides.ofProperties Samples.numbered Samples.bound.labels)).repartition
        "ticktock" >>= fun m₂ =>
      if m₂ ≠ m₁ then .ok () else .error (.noRelease "ticktock")).isOk = true := by
    decide
  obtain ⟨_, h⟩ := Except.isOk_iff.1 hall
  obtain ⟨requests, hbuild, h⟩ := Except.bind_eq_ok_iff.1 h
  obtain ⟨m₁, hm₁, h⟩ := Except.bind_eq_ok_iff.1 h
  obtain ⟨m₂, hm₂, h⟩ := Except.bind_eq_ok_iff.1 h
  refine ⟨requests, m₁, m₂, hbuild, hm₁, hm₂, fun hsame => ?_⟩
  rw [if_neg (not_not_intro hsame)] at h
  cases h

end StreamPipeline
