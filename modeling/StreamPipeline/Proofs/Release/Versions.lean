import StreamPipeline.Proofs.Digest
import StreamPipeline.Proofs.Release.Lineage

/-!
# What a package version stands for

An upgrade that is given no package version falls back to the one behind the version that is
running. After a rollback that may be a version which an earlier release has already, and the
package of that release is overwritten.

**Package versions identify what is released as long as upgrades start from the highest version**
(`World.versions_identify`), or work out again what the release with their version runs. On such
runs no upgrade overwrites the package of an earlier release with other content. An upgrade from a
version that is not the highest always falls back to one that is taken already. Where nothing is
rolled back, the highest version is running.
-/

namespace StreamPipeline

open Lifecycle (Move)

/-- Releases of the same version of a package run the same manifest. -/
def Ledger.Identifies (l : Ledger) (name : String) : Prop :=
  ∀ r ∈ l.history name, ∀ q ∈ l.history name, r.package.name = q.package.name →
    r.package.version = q.package.version → r.manifest = q.manifest

/-- No release of a name has a package of a higher version than the one that is running. -/
def Ledger.RunsNewest (l : Ledger) (name : String) : Prop :=
  ∀ current, l.live name = .ok current → ∀ r ∈ l.history name,
    ¬ VersionPrecedes current.package.version r.package.version

/-- An upgrade works out the manifest that an earlier release with the version of its package runs,
and its package is not mistaken for another one by its digest. -/
def Ledger.Repeats (l : Ledger) (name : String) (p : Properties) (o : UpgradeOptions) : Prop :=
  ∀ current package values, l.live name = .ok current →
    Lifecycle.upgraded { current with name } p o = .ok (package, values) →
    l.Trusts package ∧ ∃ q ∈ l.history name,
      q.package.version = package.info.version ∧ Manifest.ofPackage package = .ok q.manifest

/-- A move does not uninstall `name`, and upgrades it to no version that is asked for. -/
def Lifecycle.Move.FallsBack (name : String) : Move → Prop
  | install _ _ _ => True
  | upgrade n p o => n = name → o.version = none ∧ p.packageVersion? = none
  | rollback _ _ => True
  | uninstall n => n ≠ name

theorem Lifecycle.Move.FallsBack.ne {m : Move} {name : String} (h : m.FallsBack name) :
    m ≠ .uninstall name := by
  rintro rfl
  exact h rfl

/-- Besides that, an upgrade of `name` starts from the highest version or repeats a release. -/
def Lifecycle.Move.KeepsVersions (name : String) (l : Ledger) (m : Move) : Prop :=
  m.FallsBack name ∧ ∀ p o, m = .upgrade name p o → l.RunsNewest name ∨ l.Repeats name p o

namespace Ledger

variable {l k : Ledger} {name : String} {current r : Release}

theorem mem_shipped (h : r ∈ l.history name) : r.shipped ∈ l.shipped name :=
  List.mem_map_of_mem h

/-- Nothing has been released under a name, or a release is running and what was shipped is a
lineage. -/
def Lined (name : String) (l : Ledger) : Prop :=
  l.history name = [] ∨
    ∃ current top, l.live name = .ok current ∧ Lineage name top (l.shipped name)

theorem Lined.of_history (h : l.Lined name) (hk : k.history name = l.history name) :
    k.Lined name := by
  rw [Lined, hk, live_of_history hk, shipped_of_history hk]
  exact h

/-- What is running belongs to a lineage. -/
theorem Lined.lineage (h : l.Lined name) (hlive : l.live name = .ok current) :
    ∃ top, Lineage name top (l.shipped name) := by
  rcases h with hnil | ⟨_, top, -, h⟩
  · exact absurd (mem_history_of_live hlive) (by simp [hnil])
  · exact ⟨top, h⟩

/-- Besides that, what is running has the highest version. -/
def Topped (name : String) (l : Ledger) : Prop :=
  l.history name = [] ∨ ∃ current, l.live name = .ok current ∧
    Lineage name current.package.version (l.shipped name)

theorem Topped.lined : l.Topped name → l.Lined name :=
  Or.imp_right fun ⟨current, hlive, h⟩ => ⟨current, _, hlive, h⟩

theorem Topped.of_history (h : l.Topped name) (hk : k.history name = l.history name) :
    k.Topped name := by
  rw [Topped, hk, live_of_history hk, shipped_of_history hk]
  exact h

theorem Topped.runsNewest (h : l.Topped name) : l.RunsNewest name := by
  intro current hlive r hr
  rcases h with hnil | ⟨_, hlive', h⟩
  · simp [hnil] at hr
  · cases hlive.symm.trans hlive'
    exact h.newest r.shipped (mem_shipped hr)

theorem Lined.identifies (h : l.Lined name) : l.Identifies name := by
  rcases h with hnil | ⟨current, top, -, h⟩
  · intro r hr
    simp [hnil] at hr
  · exact fun r hr q hq _ hversion => h.manifest_eq (mem_shipped hr) (mem_shipped hq) hversion

/-- The newest release that is running has the highest version. -/
theorem RunsNewest.eq_top (h : l.RunsNewest name) {top : String} (hlive : l.live name = .ok current)
    (hl : Lineage name top (l.shipped name)) : current.package.version = top := by
  refine hl.eq_top (a := current.shipped) (mem_shipped (mem_history_of_live hlive)) fun b hb => ?_
  obtain ⟨r, hr, rfl⟩ := List.mem_map.1 hb
  exact h current hlive r hr

end Ledger

namespace Content

variable {k k' : Content} {name : String} {p : Properties} {o : UpgradeOptions} {package : Package}
  {values : Overrides} {l : Ledger} {current r : Release}

/-- The package of an upgrade that is given no version is the next version of what is running. -/
theorem Upgradable.falls_back (h : k.Upgradable name p o package values l)
    (ho : o.version = none) (hp : p.packageVersion? = none)
    (hlive : k.ledger.live name = .ok current) :
    package.info.name = current.package.name ∧
      nextVersion name current.package.version = .ok package.info.version := by
  obtain ⟨_, hlive', hbuilt⟩ := h.built
  cases hlive.symm.trans hlive'
  obtain ⟨labels, m, version, -, -, -, -, hversion, rfl⟩ := Lifecycle.upgraded_eq_ok_iff.1 hbuilt
  rw [Lifecycle.upgradeVersion, ho, hp] at hversion
  exact ⟨rfl, hversion⟩

/-- Whatever is found in place of its package, a release has the name and version of that. -/
theorem Upgradable.release_info {platforms : List Platform} {initial : State} {s : StoredPackage}
    (h : k.Upgradable name p o package values l)
    (t : Ledger.Reaches { platforms, initial } k.ledger)
    (hs : l.stored? package.info.name package.info.version = some s)
    (hinfo : r.package = s.package.info) :
    r.package.name = package.info.name ∧ r.package.version = package.info.version := by
  rw [hinfo]
  exact (t.trans (Ledger.reaches_ensure h.ensured)).stored_info hs

variable {platforms : List Platform} {initial : State} {top : String}

/-- An upgrade from the highest version ships the version behind it. -/
theorem Adds.later (h : k.Adds name (.upgrade name p o) r)
    (t : Ledger.Reaches { platforms, initial } k.ledger) (ho : o.version = none)
    (hp : p.packageVersion? = none) (hlive : k.ledger.live name = .ok current)
    (hk : Lineage name current.package.version (k.ledger.shipped name)) :
    Lineage name r.package.version (r.shipped :: k.ledger.shipped name) := by
  cases h with
  | upgraded _ _ _ package values l s hready hs hm hinfo =>
      obtain ⟨hname, hversion⟩ := hready.release_info t hs hinfo
      obtain ⟨hsame, hnext⟩ := hready.falls_back ho hp hlive
      refine hk.later (a := r.shipped) (fun b hb => ?_) (hversion ▸ hnext)
      have hcurrent := Ledger.mem_shipped (Ledger.mem_history_of_live hlive)
      exact (hname.trans hsame).trans (hk.name_eq hcurrent hb)

/-- An upgrade that repeats a release ships what that release shipped. -/
theorem Adds.again (h : k.Adds name (.upgrade name p o) r)
    (t : Ledger.Reaches { platforms, initial } k.ledger) (hrepeats : k.ledger.Repeats name p o)
    (hk : Lineage name top (k.ledger.shipped name)) :
    Lineage name top (r.shipped :: k.ledger.shipped name) := by
  cases h with
  | upgraded _ _ _ package values l s hready hs hm hinfo =>
      obtain ⟨hname, hversion⟩ := hready.release_info t hs hinfo
      obtain ⟨current, hlive, hbuilt⟩ := hready.built
      obtain ⟨htrusts, q, hq, hqversion, hqm⟩ := hrepeats current package values hlive hbuilt
      have hfound := htrusts.stored?_ensure hready.packed hready.ensured
      cases hs.symm.trans hfound
      have hsame : r.package.name = q.package.name := by
        obtain ⟨labels, m, version, -, -, -, -, -, rfl⟩ := Lifecycle.upgraded_eq_ok_iff.1 hbuilt
        have hcurrent := Ledger.mem_shipped (Ledger.mem_history_of_live hlive)
        exact hname.trans (hk.name_eq hcurrent (Ledger.mem_shipped hq))
      exact hk.repeated (Ledger.mem_shipped hq) hsame (hversion.trans hqversion.symm)
        (Except.ok.inj (hm.symm.trans hqm))

/-- What is installed under a name is the first that is shipped. -/
theorem Adds.first {d : Definition} {requests : List Request}
    (h : k.Adds name (.install d requests p) r) (hk : k.ledger.Lined name) :
    Lineage name r.package.version (r.shipped :: k.ledger.shipped name) := by
  cases h with
  | installed _ _ _ _ _ hdead =>
      rcases hk with hnil | ⟨current, top, hlive, -⟩
      · rw [Ledger.shipped, hnil]
        exact .one name r.shipped
      · rw [hlive] at hdead
        cases hdead

/-- What is rolled back to was shipped before. -/
theorem Adds.back {version : Nat} (h : k.Adds name (.rollback name version) r)
    (hk : Lineage name top (k.ledger.shipped name)) :
    Lineage name top (r.shipped :: k.ledger.shipped name) := by
  cases h with
  | rolledBack _ _ q hq hshipped =>
      rw [hshipped]
      exact hk.repeated (Ledger.mem_shipped hq) rfl rfl rfl

variable {c : Configuration} {m : Move} {result : Except Failure Release}

/-- **One move that keeps versions.** -/
theorem Moves.lined (h : k.Moves c m result k')
    (t : Ledger.Reaches { platforms, initial } k.ledger) (hk : k.ledger.Lined name)
    (hm : m.KeepsVersions name k.ledger) : k'.ledger.Lined name := by
  rcases h.history_cases (.reaches (fun _ => .nil) t) hm.1.ne with
    hsame | ⟨r, hadds, hlive, hshipped⟩
  · exact hk.of_history hsame
  refine .inr ?_
  rw [hshipped]
  cases hadds with
  | installed d requests p r hname hdead =>
      exact ⟨r, _, hlive, Adds.first (.installed d requests p r hname hdead) hk⟩
  | upgraded p o r package values l s hready hs hmade hinfo =>
      have hadds := Adds.upgraded p o r package values l s hready hs hmade hinfo
      obtain ⟨ho, hp⟩ := hm.1 rfl
      obtain ⟨current, hcurrent, -⟩ := hready.built
      obtain ⟨top, hlineage⟩ := hk.lineage hcurrent
      rcases hm.2 p o rfl with hnewest | hrepeats
      · obtain rfl := hnewest.eq_top hcurrent hlineage
        exact ⟨r, _, hlive, hadds.later t ho hp hcurrent hlineage⟩
      · exact ⟨r, _, hlive, hadds.again t hrepeats hlineage⟩
  | rolledBack version r q hq hsame =>
      rcases hk with hnil | ⟨_, top, -, hlineage⟩
      · simp [hnil] at hq
      · exact ⟨r, _, hlive, Adds.back (.rolledBack version r q hq hsame) hlineage⟩

/-- One move that is no rollback. -/
theorem Moves.topped (h : k.Moves c m result k')
    (t : Ledger.Reaches { platforms, initial } k.ledger) (hk : k.ledger.Topped name)
    (hfalls : m.FallsBack name) (hback : ∀ version, m ≠ .rollback name version) :
    k'.ledger.Topped name := by
  rcases h.history_cases (.reaches (fun _ => .nil) t) hfalls.ne with
    hsame | ⟨r, hadds, hlive, hshipped⟩
  · exact hk.of_history hsame
  refine .inr ⟨r, hlive, ?_⟩
  rw [hshipped]
  cases hadds with
  | installed d requests p r hname hdead =>
      exact Adds.first (.installed d requests p r hname hdead) hk.lined
  | upgraded p o r package values l s hready hs hmade hinfo =>
      have hadds := Adds.upgraded p o r package values l s hready hs hmade hinfo
      obtain ⟨ho, hp⟩ := hfalls rfl
      obtain ⟨current, hcurrent, -⟩ := hready.built
      obtain ⟨top, hlineage⟩ := hk.lined.lineage hcurrent
      obtain rfl := hk.runsNewest.eq_top hcurrent hlineage
      exact hadds.later t ho hp hcurrent hlineage
  | rolledBack version r q hq hsame => exact absurd rfl (hback version)

/-- **What is stored for an earlier release stays, or is replaced with what that release runs.** -/
theorem Upgradable.keeps (h : k.Upgradable name p o package values l) (hk : k.ledger.Lined name)
    (ho : o.version = none) (hp : p.packageVersion? = none)
    (hkeeps : k.ledger.RunsNewest name ∨ k.ledger.Repeats name p o) :
    ∀ r ∈ k.ledger.history name,
      l.stored? r.package.name r.package.version =
        k.ledger.stored? r.package.name r.package.version ∨
      ∃ s, l.stored? r.package.name r.package.version = some s ∧
        Manifest.ofPackage s.package = .ok r.manifest := by
  intro r hr
  obtain ⟨current, hlive, hbuilt⟩ := h.built
  obtain ⟨top, hlineage⟩ := hk.lineage hlive
  by_cases hplace : r.package.name = package.info.name ∧ r.package.version = package.info.version
  · rcases hkeeps with hnewest | hrepeats
    · -- the version behind the highest one is new
      obtain rfl := hnewest.eq_top hlive hlineage
      obtain ⟨-, hnext⟩ := h.falls_back ho hp hlive
      exact absurd hplace.2 (hlineage.ne_of_next hnext r.shipped (Ledger.mem_shipped hr))
    · obtain ⟨htrusts, q, hq, hversion, hm⟩ := hrepeats current package values hlive hbuilt
      have hsame : r.manifest = q.manifest := hlineage.manifest_eq (Ledger.mem_shipped hr)
        (Ledger.mem_shipped hq) (hplace.2.trans hversion.symm)
      refine .inr ⟨⟨package, package.digest⟩, ?_, hsame ▸ hm⟩
      rw [hplace.1, hplace.2]
      exact htrusts.stored?_ensure h.packed h.ensured
  · exact .inl (Ledger.stored?_ensure_of_ne h.packed h.ensured hplace)

theorem Moves.keeps_stored (h : k.Moves c (.upgrade name p o) result k')
    (hk : k.ledger.Lined name) (ho : o.version = none) (hp : p.packageVersion? = none)
    (hkeeps : k.ledger.RunsNewest name ∨ k.ledger.Repeats name p o) :
    ∀ r ∈ k.ledger.history name,
      k'.ledger.stored? r.package.name r.package.version =
        k.ledger.stored? r.package.name r.package.version ∨
      ∃ s, k'.ledger.stored? r.package.name r.package.version = some s ∧
        Manifest.ofPackage s.package = .ok r.manifest := by
  intro r hr
  cases h with
  | refused => exact .inl rfl
  | upgradeFailed _ _ _ e package values l hready hu => exact hready.keeps hk ho hp hkeeps r hr
  | upgraded _ _ _ r' package values l l' hready hu =>
      obtain ⟨-, -, -, -, -, -, -, hl'⟩ := Ledger.upgrade_eq_ok_iff.1 hu
      have hpackages : l'.packages = l.packages := hl' ▸ l.packages_retire _ _
      rw [ledger_reconciled]
      show l'.stored? _ _ = _ ∨ ∃ s, l'.stored? _ _ = some s ∧ _
      rw [Ledger.stored?_of_packages hpackages]
      exact hready.keeps hk ho hp hkeeps r hr

/-- An upgrade from a version that is not the highest is given one that is taken. -/
theorem Moves.taken (h : k.Moves c (.upgrade name p o) (.ok r) k')
    (t : Ledger.Reaches { platforms, initial } k.ledger) (hk : k.ledger.Lined name)
    (ho : o.version = none) (hp : p.packageVersion? = none)
    (hlower : ¬ k.ledger.RunsNewest name) :
    ∃ q ∈ k.ledger.history name,
      q.package.name = r.package.name ∧ q.package.version = r.package.version := by
  cases h with
  | upgraded _ _ _ _ package values l l' hready hu =>
      obtain ⟨previous, s, m, -, hs, -, hmade, -⟩ := Ledger.upgrade_eq_ok_iff.1 hu
      have hinfo : r.package = s.package.info := (congrArg Release.package hmade).symm
      obtain ⟨hname, hversion⟩ := hready.release_info t hs hinfo
      obtain ⟨current, hlive, q, hq, hprecedes⟩ : ∃ current, k.ledger.live name = .ok current ∧
          ∃ q ∈ k.ledger.history name,
            VersionPrecedes current.package.version q.package.version := by
        simpa [Ledger.RunsNewest] using hlower
      obtain ⟨hsame, hnext⟩ := hready.falls_back ho hp hlive
      obtain ⟨top, hlineage⟩ := hk.lineage hlive
      have hcurrent := Ledger.mem_shipped (Ledger.mem_history_of_live hlive)
      obtain ⟨b, hb, htaken⟩ := hlineage.exists_next hcurrent (Ledger.mem_shipped hq) hprecedes
      have hnamed := hlineage.name_eq hcurrent hb
      obtain ⟨q', hq', rfl⟩ := List.mem_map.1 hb
      refine ⟨q', hq', ?_, ?_⟩
      · exact hnamed.symm.trans (hsame.symm.trans hname.symm)
      · exact (Except.ok.inj (htaken.symm.trans hnext)).trans hversion.symm

end Content

namespace World

variable {platforms : List Platform} {initial : State} {name : String} {w : World}

/-- **A run of moves that keep versions.** -/
theorem Managed.lined
    (t : Managed (fun l m => m.KeepsVersions name l) (fresh platforms initial) w) :
    w.ledger.Lined name :=
  (t.invariant (I := fun l => Ledger.Reaches { platforms, initial } l ∧ l.Lined name) rfl
    ⟨.refl, .inl rfl⟩
    (fun _ _ _ _ _ ⟨tk, hk⟩ hm hmoves => ⟨tk.trans hmoves.reaches, hmoves.lined tk hk hm⟩)
    fun _ n label s ⟨tk, hk⟩ => ⟨tk.step (.setState n label s), hk⟩).2

/-- A run without rollbacks. -/
theorem Managed.topped (t : Managed (fun _ m => m.FallsBack name ∧
      ∀ version, m ≠ .rollback name version) (fresh platforms initial) w) :
    w.ledger.Topped name :=
  (t.invariant (I := fun l => Ledger.Reaches { platforms, initial } l ∧ l.Topped name) rfl
    ⟨.refl, .inl rfl⟩
    (fun _ _ _ _ _ ⟨tk, hk⟩ ⟨hfalls, hback⟩ hmoves =>
      ⟨tk.trans hmoves.reaches, hmoves.topped tk hk hfalls hback⟩)
    fun _ n label s ⟨tk, hk⟩ => ⟨tk.step (.setState n label s), hk⟩).2

end World

/-- **Package versions identify what is released**, as long as each upgrade of `name` that is given
no version starts from the highest one or repeats a release. On such runs, whatever else there is:

* releases of the same version of a package run the same manifest;
* whatever comes of such an upgrade, what is stored for an earlier release stays, or is replaced
  with what that release runs;
* an upgrade that starts from a version which is not the highest is given one that an earlier
  release has.

Where `name` is never rolled back, the highest version is running. -/
theorem World.versions_identify (platforms : List Platform) (initial : State) (name : String) :
    (∀ w, Managed (fun l m => m.KeepsVersions name l) (fresh platforms initial) w →
      w.ledger.Identifies name ∧
      (∀ c p o result w', o.version = none → p.packageVersion? = none →
        w.ledger.RunsNewest name ∨ w.ledger.Repeats name p o →
        ((World.lifecycle c).upgrade name p o).Gives w result w' →
        ∀ r ∈ w.ledger.history name,
          w'.ledger.stored? r.package.name r.package.version =
            w.ledger.stored? r.package.name r.package.version ∨
          ∃ s, w'.ledger.stored? r.package.name r.package.version = some s ∧
            Manifest.ofPackage s.package = .ok r.manifest) ∧
      ∀ c p o r w', o.version = none → p.packageVersion? = none → ¬ w.ledger.RunsNewest name →
        ((World.lifecycle c).upgrade name p o).Gives w (.ok r) w' →
        ∃ q ∈ w.ledger.history name,
          q.package.name = r.package.name ∧ q.package.version = r.package.version) ∧
    ∀ w, Managed (fun _ m => m.FallsBack name ∧ ∀ version, m ≠ .rollback name version)
        (fresh platforms initial) w →
      w.ledger.RunsNewest name ∧ w.ledger.Identifies name := by
  refine ⟨fun w t => ⟨t.lined.identifies, ?_, ?_⟩, fun w t =>
    ⟨t.topped.runsNewest, t.topped.lined.identifies⟩⟩
  · intro c p o result w' ho hp hkeeps hg
    have hmoves := (moves_of_gives (m := .upgrade name p o) (t.failing_eq rfl) hg).2
    exact hmoves.keeps_stored t.lined ho hp hkeeps
  · intro c p o r w' ho hp hlower hg
    have hmoves := (moves_of_gives (m := .upgrade name p o) (t.failing_eq rfl) hg).2
    exact hmoves.taken t.reaches t.lined ho hp hlower

/-! ### A pipeline of one stage -/

namespace Samples

/-- The artifact of the stage. -/
def clockCoordinate (version : String) : Coordinate :=
  { name := "time", kind := "maven", version, locator := "time:" ++ version }

/-- A pipeline of one stage. -/
def clock : Definition := ⟨"tick", "time", [.ofApp "time"]⟩

/-- The request for its stage. -/
def clockRequests : List Request :=
  [{ stage := .ofApp "time", role := .source, coordinate := clockCoordinate "1" }]

/-- What a release of it runs. -/
def clockManifest (version : String) : Manifest :=
  ⟨[⟨"time", "time", .source, { resource := "time:" ++ version, version }⟩]⟩

/-- Its package in a version. -/
def clockInfo (version : String) : PackageInfo :=
  { name := "tick", version, repository := "local", kind := .pipeline, description := "time" }

/-- An upgrade to another artifact. -/
def clockTo (version : String) : UpgradeOptions :=
  { coordinates := .ofList [("time", clockCoordinate version)] }

theorem package_clock : Packager.package {} clock clockRequests ∅ =
    .ok ((clockManifest "1").toPackage (clockInfo "1.0.0")) :=
  Packager.package_eq_ok_iff.2 ⟨"1.0.0", by decide, rfl⟩

theorem targets_clock (version : String) (hv : version = "2" ∨ version = "3") :
    Lifecycle.targets "tick" (clockManifest "1").labels (clockTo version) =
      .ok (clockManifest "1").labels := by
  rcases hv with rfl | rfl <;> decide

theorem repartition_clock (version : String) (hv : version = "2" ∨ version = "3") :
    ((clockManifest "1").merge (Lifecycle.overrides (clockManifest "1").labels
      (clockManifest "1").labels ∅ (clockTo version))).repartition "tick" =
      .ok (clockManifest version) := by
  rcases hv with rfl | rfl <;> decide

theorem next_clock : nextVersion "tick" "1.0.0" = .ok "1.0.1" := by decide

theorem digest_clock_ne : ((clockManifest "2").toPackage (clockInfo "1.0.1")).digest ≠
    ((clockManifest "3").toPackage (clockInfo "1.0.1")).digest := by
  -- The digests are worked out one by one, so that the rounds of both are never held at once.
  have htwo : ((clockManifest "2").toPackage (clockInfo "1.0.1")).digest =
      "7dba652cfb88bf8c389e363def5d5242961138b3969ec1bd2612451abac78b05" := by
    simp only [Package.digest, Package.text, Yaml.Tree.render, Digest.toList_toUTF8,
      Digest.sha256_eq_digest]
    decide +kernel
  rw [htwo]
  simp only [Package.digest, Package.text, Yaml.Tree.render, Digest.toList_toUTF8,
    Digest.sha256_eq_digest]
  decide +kernel

/-- The package that an upgrade of the first release ships. -/
theorem exists_clock_upgraded {w : World} {cs : List Ledger.Command} {r : Release}
    {version : String}
    (h : w.Ready [⟨"default", "local", ""⟩] .deployed cs) (hv : version = "2" ∨ version = "3")
    (hlive : w.ledger.live "tick" = .ok r)
    (hr : r.shipped = (clockInfo "1.0.0", clockManifest "1"))
    (hcs : Ledger.Unmistaken cs ((clockManifest version).toPackage (clockInfo "1.0.1"))) :
    ∃ r' w' cs',
      ((Move.upgrade "tick" ∅ (clockTo version)).call { slots := 1 }).Gives w (.ok r') w' ∧
      w'.Ready [⟨"default", "local", ""⟩] .deployed cs' ∧
      r'.shipped = (clockInfo "1.0.1", clockManifest version) ∧
      ∀ text, .upload text ∈ cs' → .upload text ∈ cs ∨
        text = ((clockManifest version).toPackage (clockInfo "1.0.1")).text := by
  obtain ⟨hinfo, hm⟩ := Prod.mk.inj hr
  have hversion : Lifecycle.upgradeVersion "tick" r.package.version ∅ (clockTo version) =
      .ok "1.0.1" := by
    rw [hinfo]
    exact next_clock
  have hchanged : clockManifest version ≠ r.manifest := by
    rw [hm]
    rcases hv with rfl | rfl <;> decide
  obtain ⟨r', w', cs', hg, h', -, hinfo', hm', huploads⟩ :=
    h.upgraded { slots := 1 } "tick" ∅ (clockTo version) hlive
      (by rw [hm]; exact targets_clock version hv) (by rw [hm]; exact repartition_clock version hv)
      (.inr hchanged) hversion (by rw [hinfo]; exact hcs)
  rw [hinfo] at hinfo' huploads
  exact ⟨r', w', cs', hg, h', Prod.ext hinfo' hm', huploads⟩

/-- The pipeline is installed, upgraded, rolled back and upgraded otherwise. -/
theorem exists_clock_run : ∃ r₁ w₁ r₂ w₂ r₃ w₃ r₄ w₄,
    ((Move.install clock clockRequests ∅).call { slots := 1 }).Gives
      (World.fresh [⟨"default", "local", ""⟩] .deployed) (.ok r₁) w₁ ∧
    ((Move.upgrade "tick" ∅ (clockTo "2")).call { slots := 1 }).Gives w₁ (.ok r₂) w₂ ∧
    ((Move.rollback "tick" 1).call { slots := 1 }).Gives w₂ (.ok r₃) w₃ ∧
    ((Move.upgrade "tick" ∅ (clockTo "3")).call { slots := 1 }).Gives w₃ (.ok r₄) w₄ ∧
    w₃.ledger.live "tick" = .ok r₃ ∧
    r₃.shipped = (clockInfo "1.0.0", clockManifest "1") ∧
    r₄.shipped = (clockInfo "1.0.1", clockManifest "3") ∧
    w₃.ledger.shipped "tick" = [(clockInfo "1.0.0", clockManifest "1"),
      (clockInfo "1.0.1", clockManifest "2"), (clockInfo "1.0.0", clockManifest "1")] ∧
    w₄.ledger.shipped "tick" = r₄.shipped :: w₃.ledger.shipped "tick" := by
  have h₀ := World.ready_fresh [⟨"default", "local", ""⟩] .deployed
  obtain ⟨r₁, w₁, cs₁, g₁, h₁, hlive₁, hinfo₁, hm₁, huploads₁⟩ :=
    h₀.installed { slots := 1 } rfl rfl package_clock fun _ _ h => by cases h
  have hr₁ : r₁.shipped = (clockInfo "1.0.0", clockManifest "1") := Prod.ext hinfo₁ hm₁
  have s₁ : w₁.ledger.shipped "tick" = [r₁.shipped] :=
    (h₀.shipped (m := .install _ _ _) g₁ rfl (by simp)).2
  have hfirst := Packager.packed_of_package package_clock
  have hne : (clockInfo "1.0.0").version ≠ (clockInfo "1.0.1").version := by decide
  obtain ⟨r₂, w₂, cs₂, g₂, h₂, hr₂, huploads₂⟩ := exists_clock_upgraded h₁ (.inl rfl) hlive₁ hr₁
    (Ledger.unmistaken_of_ne hfirst (fun text ht => (huploads₁ text ht).resolve_left (by simp)) hne)
  have s₂ : w₂.ledger.shipped "tick" = [r₂.shipped, r₁.shipped] :=
    (h₁.shipped g₂ rfl (by simp)).2.trans (congrArg _ s₁)
  -- of the two releases the first one is found under its number
  obtain ⟨a, rs, hhistory, ha, hrs⟩ := List.map_eq_cons_iff.1 s₂
  obtain ⟨b, rs', rfl, hb, hrs'⟩ := List.map_eq_cons_iff.1 hrs
  obtain rfl : rs' = [] := List.map_eq_nil_iff.1 hrs'
  have hversions : [a.version, b.version] = [2, 1] := by
    simpa [hhistory, List.range'] using (h₂.orderly "tick").versions
  obtain ⟨ha₂, hb₁⟩ : a.version = 2 ∧ b.version = 1 := by simpa using hversions
  have hfind : (w₂.ledger.history "tick").find? (·.version == Ledger.rollbackTarget a 1) =
      some b := by
    simp [hhistory, Ledger.rollbackTarget, ha₂, hb₁]
  obtain ⟨w₃, g₃, h₃, -⟩ := h₂.rolledBack { slots := 1 } (Ledger.rollback_eq_ok_iff.2
    ⟨a, b, Ledger.latest_eq_ok_iff.2 ⟨_, hhistory⟩, hfind, rfl, rfl⟩)
  obtain ⟨hlive₃, s₃⟩ := h₂.shipped (m := .rollback "tick" 1) g₃ rfl (by simp)
  have hr₃ : (Ledger.restored a 1 b).shipped = (clockInfo "1.0.0", clockManifest "1") :=
    hb.trans hr₁
  have hcs : Ledger.Unmistaken (cs₂ ++ [.rollback "tick" 1])
      ((clockManifest "3").toPackage (clockInfo "1.0.1")) := by
    -- the text of the first package has another version, that of the second one another digest
    intro text q ht hread _ hversion hdigest
    rcases huploads₂ text (by simpa using ht) with ht | rfl
    · obtain rfl := (huploads₁ text ht).resolve_left (by simp)
      cases hfirst.ofText?_text.symm.trans hread
      exact absurd hversion hne
    · exact absurd hdigest digest_clock_ne
  obtain ⟨r₄, w₄, cs₄, g₄, h₄, hr₄, -⟩ := exists_clock_upgraded h₃ (.inr rfl) hlive₃ hr₃ hcs
  obtain ⟨-, s₄⟩ := h₃.shipped g₄ rfl (by simp)
  refine ⟨_, _, _, _, _, _, _, _, g₁, g₂, g₃, g₄, hlive₃, hr₃, hr₄, ?_, s₄⟩
  refine s₃.trans (congrArg₂ _ hr₃ (s₂.trans ?_))
  rw [hr₂, hr₁]

end Samples

/-- The pipeline is rolled back to its first version: its versions still identify what is released,
but the next upgrade is given one that is taken. -/
theorem World.versions_identify_rolled_back : ∃ w₁ w r w',
    Managed (fun _ m => m.FallsBack "tick" ∧ ∀ version, m ≠ .rollback "tick" version)
        (fresh [⟨"default", "local", ""⟩] .deployed) w₁ ∧ w₁.ledger.RunsNewest "tick" ∧
    Managed (fun l m => m.KeepsVersions "tick" l) (fresh [⟨"default", "local", ""⟩] .deployed) w ∧
    w.ledger.Identifies "tick" ∧ ¬ w.ledger.RunsNewest "tick" ∧
    ((lifecycle { slots := 1 }).upgrade "tick" ∅ (Samples.clockTo "3")).Gives w (.ok r) w' ∧
    ∃ q ∈ w.ledger.history "tick",
      q.package.name = r.package.name ∧ q.package.version = r.package.version := by
  obtain ⟨r₁, w₁, r₂, w₂, r₃, w₃, r₄, w₄, g₁, g₂, g₃, g₄, hlive₃, hr₃, -, s₃, -⟩ :=
    Samples.exists_clock_run
  obtain ⟨hkept, hunrolled⟩ := versions_identify [⟨"default", "local", ""⟩] .deployed "tick"
  have u₁ : Managed (fun _ m => m.FallsBack "tick" ∧ ∀ version, m ≠ .rollback "tick" version)
      (fresh [⟨"default", "local", ""⟩] .deployed) w₁ :=
    .moved .refl _ (.install ..) _ ⟨trivial, by simp⟩ g₁
  obtain ⟨hnewest, -⟩ := hunrolled w₁ u₁
  have t₁ : Managed (fun l m => m.KeepsVersions "tick" l)
      (fresh [⟨"default", "local", ""⟩] .deployed) w₁ :=
    .moved .refl _ (.install ..) _ ⟨trivial, by simp⟩ g₁
  have t₂ : Managed (fun l m => m.KeepsVersions "tick" l)
      (fresh [⟨"default", "local", ""⟩] .deployed) w₂ :=
    .moved t₁ _ (.upgrade ..) _
      ⟨fun _ => ⟨rfl, by decide⟩, fun _ _ _ => .inl hnewest⟩ g₂
  have t₃ : Managed (fun l m => m.KeepsVersions "tick" l)
      (fresh [⟨"default", "local", ""⟩] .deployed) w₃ :=
    .moved t₂ _ (.rollback ..) _ ⟨trivial, by simp⟩ g₃
  obtain ⟨hidentifies, -, htaken⟩ := hkept w₃ t₃
  have hlower : ¬ w₃.ledger.RunsNewest "tick" := by
    intro h
    obtain ⟨q, hq, hshipped⟩ : ∃ q ∈ w₃.ledger.history "tick",
        q.shipped = (Samples.clockInfo "1.0.1", Samples.clockManifest "2") :=
      List.mem_map.1 (show _ ∈ w₃.ledger.shipped "tick" by simp [s₃])
    have hlast := h r₃ hlive₃ q hq
    rw [(Prod.mk.inj hr₃).1, (Prod.mk.inj hshipped).1] at hlast
    exact hlast (versionPrecedes_next Samples.next_clock)
  exact ⟨w₁, w₃, r₄, w₄, u₁, hnewest, t₃, hidentifies, hlower, g₄,
    htaken _ ∅ _ r₄ w₄ rfl (by decide) hlower g₄⟩

/-- Without uninstalling and without asking for a version, two releases of the same version of a
package run different manifests. -/
theorem World.not_identified_of_rolled_back : ∃ w,
    Managed (fun _ m => m.name = "tick" ∧ m.FallsBack "tick" ∧
      ∀ d requests p, m = .install d requests p → p.packageVersion? = none)
      (fresh [⟨"default", "local", ""⟩] .deployed) w ∧ ¬ w.ledger.Identifies "tick" := by
  obtain ⟨r₁, w₁, r₂, w₂, r₃, w₃, r₄, w₄, g₁, g₂, g₃, g₄, -, -, hr₄, s₃, s₄⟩ :=
    Samples.exists_clock_run
  have hfalls : ∀ version, (Move.upgrade "tick" ∅ (Samples.clockTo version)).FallsBack "tick" :=
    fun version _ => ⟨rfl, by decide⟩
  refine ⟨w₄, .moved (.moved (.moved (.moved .refl _ (.install ..) _ ⟨rfl, trivial, ?_⟩ g₁)
    _ (.upgrade ..) _ ⟨rfl, hfalls _, by simp⟩ g₂) _ (.rollback ..) _ ⟨rfl, trivial, by simp⟩ g₃)
    _ (.upgrade ..) _ ⟨rfl, hfalls _, by simp⟩ g₄, ?_⟩
  · rintro d requests p h
    cases h
    decide
  · intro hidentifies
    have hmem : ∀ a ∈ w₄.ledger.shipped "tick", ∃ q ∈ w₄.ledger.history "tick", q.shipped = a :=
      fun a => List.mem_map.1
    rw [s₄, s₃, hr₄] at hmem
    obtain ⟨r, hr, hshipped⟩ :=
      hmem (Samples.clockInfo "1.0.1", Samples.clockManifest "3") (by simp)
    obtain ⟨q, hq, hshipped'⟩ :=
      hmem (Samples.clockInfo "1.0.1", Samples.clockManifest "2") (by simp)
    obtain ⟨hinfo, hm⟩ := Prod.mk.inj hshipped
    obtain ⟨hinfo', hm'⟩ := Prod.mk.inj hshipped'
    have hsame := hidentifies r hr q hq (by rw [hinfo, hinfo']) (by rw [hinfo, hinfo'])
    rw [hm, hm'] at hsame
    exact absurd hsame (by decide)

end StreamPipeline
