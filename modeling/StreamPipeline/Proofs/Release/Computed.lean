import StreamPipeline.Proofs.Release.Incremental
import StreamPipeline.Proofs.Release.Moves
import StreamPipeline.Proofs.Release.Uploads

/-!
# What is released is what was computed

A manifest reaches the ledger as the text of a package, and that text is not even uploaded where
the digest of a stored package is the same. The release is made of whatever is found under the
package's name and version.

**A release runs what was computed for it** (`World.released_as_computed`). From whatever a ledger
has become by whatever commands, an installation that succeeds releases the stages of its requests,
and an upgrade that succeeds the manifest with the overrides merged in and its consumers worked out
anew. Afterwards the package is found with its digest. Only another text with the name, version and
digest of the package can be in the way.

Where nothing hinders a move (`World.Ready`), what can be packed is installed and what can be worked
out replaces what is running (`Ready.installed`, `Ready.upgraded`).
-/

namespace StreamPipeline

open Ledger (Command Filed Unmistaken)

namespace Ledger

variable {l k : Ledger} {p : Package} {r : Release}

/-- A release that was added is running. -/
theorem live_push (h : r.isLive = true) : (l.push r).live r.name = .ok r := by
  refine live_eq_ok_iff.2 ⟨l.history r.name, ?_, h⟩
  rw [history_push, if_pos rfl]

/-- The release that an installation makes of the package that it finds. -/
theorem install_of_stored {i : Installation} {digest : String}
    (hs : l.stored? i.package i.packageVersion = some ⟨p, digest⟩) (h : l.install i = .ok (r, k)) :
    Manifest.ofPackage p = .ok r.manifest ∧ r.package = p.info ∧ k.live i.release = .ok r ∧
      k.packages = l.packages := by
  obtain ⟨-, -, s, m, hs', hm, rfl, rfl⟩ := install_eq_ok_iff.1 h
  cases hs.symm.trans hs'
  exact ⟨hm, rfl, live_push rfl, rfl⟩

/-- The release that an upgrade makes of the package that it finds. -/
theorem upgrade_of_stored {u : Upgrade} {digest : String} {current : Release}
    (hs : l.stored? u.package u.packageVersion = some ⟨p, digest⟩)
    (hlive : l.live u.release = .ok current) (h : l.upgrade u = .ok (r, k)) :
    Manifest.ofPackage p = .ok r.manifest ∧ r.package = p.info ∧ r.platform = current.platform ∧
      r.version = current.version + 1 ∧ k.live u.release = .ok r ∧ k.packages = l.packages := by
  obtain ⟨previous, s, m, hprevious, hs', hm, rfl, rfl⟩ := upgrade_eq_ok_iff.1 h
  cases hs.symm.trans hs'
  cases hlive.symm.trans hprevious
  refine ⟨hm, rfl, rfl, ?_, live_push rfl, packages_retire l _ _⟩
  obtain ⟨rs, hrs, -⟩ := live_eq_ok_iff.1 hlive
  show l.nextVersion u.release = current.version + 1
  rw [nextVersion, hrs]

theorem findPackage_eq_some {name version : String} {s : StoredPackage}
    (h : l.stored? name version = some s) :
    l.findPackage name version = some ⟨s.package.info, s.digest⟩ := by
  rw [findPackage, h]
  rfl

/-- Making a package ready changes nothing about what is running. -/
theorem live_ensure (h : l.ensure p = .ok ((), k)) (name : String) : k.live name = l.live name := by
  rw [live, live, history_ensure h]

/-- A package that was made ready stays to be found with its digest. -/
theorem digest_of_ensure {k' : Ledger} (hp : p.Packed) (h : l.ensure p = .ok ((), k))
    (hk : k'.packages = k.packages) :
    (k'.findPackage p.info.name p.info.version).map (·.digest) = some p.digest := by
  obtain ⟨s, hs, hdigest⟩ := exists_digest_of_ensure hp h
  rw [findPackage_eq_some ((stored?_of_packages hk _ _).trans hs), Option.map_some, hdigest]

end Ledger

variable {c : Configuration} {k k' : Content} {cs : List Command} {r : Release}

/-- An installation that succeeds releases the requests. -/
theorem Content.Moves.installed_as_computed {d : Definition} {requests : List Request}
    {p : Properties} (hfiled : Filed cs k.ledger)
    (h : k.Moves c (.install d requests p) (.ok r) k') :
    ∃ package, c.packager.package d requests p = .ok package ∧
      (k'.ledger.findPackage package.info.name package.info.version).map (·.digest) =
        some package.digest ∧
      (Unmistaken cs package →
        k'.ledger.live d.name = .ok r ∧ r.package = package.info ∧
        r.manifest = ⟨requests.map Request.entry⟩ ∧
        k'.ledger.findPackage r.package.name r.package.version =
          some ⟨package.info, package.digest⟩) := by
  cases h with
  | installed _ _ _ _ package l l' hready hi =>
      have hp := Packager.packed_of_package hready.packed
      obtain ⟨-, -, s, m, -, -, -, hl'⟩ := Ledger.install_eq_ok_iff.1 hi
      refine ⟨package, hready.packed,
        Ledger.digest_of_ensure hp hready.ensured (hl' ▸ rfl), fun hcs => ?_⟩
      have hs := (hfiled.trusts hp hcs).stored?_ensure hp hready.ensured
      obtain ⟨hm, hinfo, hlive, hpackages⟩ := Ledger.install_of_stored hs hi
      refine ⟨hlive, hinfo, ?_, ?_⟩
      · exact Except.ok.inj (hm.symm.trans (Packager.ofPackage_package hready.packed))
      · rw [hinfo]
        exact Ledger.findPackage_eq_some ((Ledger.stored?_of_packages hpackages _ _).trans hs)

/-- An upgrade that succeeds releases the manifest that was worked out. -/
theorem Content.Moves.upgraded_as_computed {name : String} {p : Properties} {o : UpgradeOptions}
    (hfiled : Filed cs k.ledger) (h : k.Moves c (.upgrade name p o) (.ok r) k') :
    ∃ current labels m version, k.ledger.live name = .ok current ∧
      Lifecycle.targets name current.manifest.labels o = .ok labels ∧
      (current.manifest.merge
        (Lifecycle.overrides current.manifest.labels labels p o)).repartition name = .ok m ∧
      Lifecycle.upgradeVersion name current.package.version p o = .ok version ∧
      (o.force = true ∨ m ≠ current.manifest) ∧
      (k'.ledger.findPackage current.package.name version).map (·.digest) =
        some (m.toPackage { current.package with version }).digest ∧
      (Unmistaken cs (m.toPackage { current.package with version }) →
        k'.ledger.live name = .ok r ∧ r.package = { current.package with version } ∧
        r.manifest = m ∧ r.platform = current.platform ∧ r.version = current.version + 1 ∧
        k'.ledger.findPackage r.package.name r.package.version = some
          ⟨r.package, (m.toPackage { current.package with version }).digest⟩) := by
  cases h with
  | upgraded _ _ _ _ package values l l' hready hu =>
      obtain ⟨current, hcurrent, hbuilt⟩ := hready.built
      have hp := hready.packed
      obtain ⟨labels, m, version, hlabels, rfl, hm, hchanged, hversion, rfl⟩ :=
        Lifecycle.upgraded_eq_ok_iff.1 hbuilt
      obtain ⟨previous, s, m', -, -, -, -, hl'⟩ := Ledger.upgrade_eq_ok_iff.1 hu
      have hkept : l'.packages = l.packages := hl' ▸ Ledger.packages_retire l _ _
      rw [Content.ledger_reconciled]
      refine ⟨current, labels, m, version, hcurrent, hlabels, hm, hversion, hchanged,
        Ledger.digest_of_ensure hp hready.ensured hkept, fun hcs => ?_⟩
      have hs := (hfiled.trusts hp hcs).stored?_ensure hp hready.ensured
      have hlive := (Ledger.live_ensure hready.ensured name).trans hcurrent
      obtain ⟨hmade, hinfo, hplatform, hnext, hrunning, -⟩ := Ledger.upgrade_of_stored hs hlive hu
      refine ⟨hrunning, hinfo, ?_, hplatform, hnext, ?_⟩
      · exact Except.ok.inj (hmade.symm.trans (Manifest.ofPackage_packed _ _ _ m.entries))
      · rw [hinfo]
        exact Ledger.findPackage_eq_some ((Ledger.stored?_of_packages hkept _ _).trans hs)

/-! ### Moves that succeed -/

namespace Ledger

variable {l₀ l k : Ledger} {p : Package} {cs : List Command}

/-- Making a package ready uploads no other text. -/
theorem exists_after_ensure (hl : l = l₀.after cs) (h : l.ensure p = .ok ((), k)) :
    ∃ cs', k = l₀.after cs' ∧ ∀ text, .upload text ∈ cs' → .upload text ∈ cs ∨ text = p.text := by
  rcases ensure_cases h with ⟨rfl, -⟩ | ⟨info, hu⟩
  · exact ⟨cs, hl, fun _ => .inl⟩
  · refine ⟨cs ++ [.upload p.text], ?_, fun text ht => by simpa using ht⟩
    rw [after_append, ← hl, perform, Call.apply, attempt, hu]
    rfl

/-- What a command that succeeds makes of a ledger is the ledger after it. -/
theorem after_of_attempt {c : Command} {r : Option Release} (hl : l = l₀.after cs)
    (h : attempt c l = .ok (r, k)) : k = l₀.after (cs ++ [c]) := by
  rw [after_append, ← hl, perform, Call.apply, h]

end Ledger

namespace Content.Moves

variable {l₀ l : Ledger} {d : Definition} {requests : List Request} {p : Properties}
  {o : UpgradeOptions} {name : String} {version : Nat} {package : Package} {values : Overrides}
  {current : Release}

/-- An installation uploads at most the text of its package. -/
theorem after_installed (h : k.Moves c (.install d requests p) (.ok r) k')
    (hl : k.ledger = l₀.after cs) (hpacked : c.packager.package d requests p = .ok package) :
    ∃ cs', k'.ledger = l₀.after cs' ∧
      ∀ text, .upload text ∈ cs' → .upload text ∈ cs ∨ text = package.text := by
  cases h with
  | installed _ _ _ _ _ l l' hready hi =>
      cases hpacked.symm.trans hready.packed
      obtain ⟨cs', hl, huploads⟩ := Ledger.exists_after_ensure hl hready.ensured
      have hdone : Ledger.attempt (.install (package.installation c d p)) l = .ok (some r, l') := by
        simp [Ledger.attempt, hi, Except.map]
      exact ⟨_, Ledger.after_of_attempt hl hdone, fun text ht => huploads text (by simpa using ht)⟩

/-- An upgrade uploads at most the text of its package. -/
theorem after_upgraded (h : k.Moves c (.upgrade name p o) (.ok r) k')
    (hl : k.ledger = l₀.after cs) (hlive : k.ledger.live name = .ok current)
    (hbuilt : Lifecycle.upgraded { current with name } p o = .ok (package, values)) :
    ∃ cs', k'.ledger = l₀.after cs' ∧
      ∀ text, .upload text ∈ cs' → .upload text ∈ cs ∨ text = package.text := by
  cases h with
  | upgraded _ _ _ _ package values l l' hready hu =>
      obtain ⟨_, hcurrent, hbuilt'⟩ := hready.built
      cases hlive.symm.trans hcurrent
      cases hbuilt.symm.trans hbuilt'
      obtain ⟨cs', hl, huploads⟩ := Ledger.exists_after_ensure hl hready.ensured
      rw [Content.ledger_reconciled]
      have hdone : Ledger.attempt (.upgrade (package.upgrade name values o)) l =
          .ok (some r, l') := by
        simp [Ledger.attempt, hu, Except.map]
      exact ⟨_, Ledger.after_of_attempt hl hdone, fun text ht => huploads text (by simpa using ht)⟩

theorem ledger_rolledBack (h : k.Moves c (.rollback name version) (.ok r) k')
    (hrolled : k.ledger.rollback name version = .ok (r, l)) : k'.ledger = l := by
  cases h with
  | rolledBack _ _ _ l' hrolled' =>
      cases hrolled.symm.trans hrolled'
      exact Content.ledger_reconciled _ _ _

end Content.Moves

namespace World

/-- A world as some commands have left its ledger, in which nothing hinders a move. -/
structure Ready (platforms : List Platform) (initial : State) (cs : List Command) (w : World) :
    Prop where
  failing : w.calls.failing = []
  available : w.disturbance.unavailable = []
  ledger : w.ledger = Ledger.after { platforms, initial } cs
  stocked : w.ledger.Stocked

variable {platforms : List Platform} {initial : State} {w : World}

theorem ready_fresh (platforms : List Platform) (initial : State) :
    (fresh platforms initial).Ready platforms initial [] :=
  ⟨rfl, rfl, rfl, fun _ _ _ h => by cases h⟩

/-- What is stored in a world was uploaded by the commands that have left its ledger. -/
theorem filed_of_ledger (h : w.ledger = Ledger.after { platforms, initial } cs) :
    Filed cs w.content.ledger := by
  rw [show w.content.ledger = Ledger.after { platforms, initial } cs from h]
  exact Ledger.filed_after platforms initial cs

namespace Ready

theorem filed (h : w.Ready platforms initial cs) : Filed cs w.content.ledger :=
  filed_of_ledger h.ledger

/-- What is packed and not running is installed as it was computed. -/
theorem installed (h : w.Ready platforms initial cs) (c : Configuration) {d : Definition}
    {requests : List Request} {p : Properties} {package : Package}
    (hdead : (w.ledger.live d.name).isOk = false)
    (hplatform : w.ledger.platforms.any (·.name == p.platform?.getD c.platform) = true)
    (hpacked : c.packager.package d requests p = .ok package) (hcs : Unmistaken cs package) :
    ∃ r w' cs', ((lifecycle c).install d requests p).Gives w (.ok r) w' ∧
      w'.Ready platforms initial cs' ∧ w'.ledger.live d.name = .ok r ∧
      r.package = package.info ∧ r.manifest = ⟨requests.map Request.entry⟩ ∧
      ∀ text, .upload text ∈ cs' → .upload text ∈ cs ∨ text = package.text := by
  obtain ⟨r, w', hg⟩ := exists_installed h.failing h.stocked
    (by rw [h.available]; rfl) hdead hplatform hpacked
  obtain ⟨hfailing, hm⟩ := moves_of_gives h.failing hg
  obtain ⟨_, hpacked', -, hcomputed⟩ := hm.installed_as_computed h.filed
  cases hpacked.symm.trans hpacked'
  obtain ⟨hlive, hinfo, hmanifest, -⟩ := hcomputed hcs
  obtain ⟨cs', hledger, huploads⟩ := hm.after_installed h.ledger hpacked
  exact ⟨r, w', cs', hg, ⟨hfailing, hm.unavailable_eq.trans h.available, hledger,
    hm.stocked h.stocked⟩, hlive, hinfo, hmanifest, huploads⟩

/-- What is running is replaced by what was worked out. -/
theorem upgraded (h : w.Ready platforms initial cs) (c : Configuration) (name : String)
    (p : Properties) (o : UpgradeOptions) {current : Release} {labels : List String} {m : Manifest}
    {version : String} (hlive : w.ledger.live name = .ok current)
    (hlabels : Lifecycle.targets name current.manifest.labels o = .ok labels)
    (hm : (current.manifest.merge
      (Lifecycle.overrides current.manifest.labels labels p o)).repartition name = .ok m)
    (hchanged : o.force = true ∨ m ≠ current.manifest)
    (hversion : Lifecycle.upgradeVersion name current.package.version p o = .ok version)
    (hcs : Unmistaken cs (m.toPackage { current.package with version })) :
    ∃ r w' cs', ((lifecycle c).upgrade name p o).Gives w (.ok r) w' ∧
      w'.Ready platforms initial cs' ∧ w'.ledger.live name = .ok r ∧
      r.package = { current.package with version } ∧ r.manifest = m ∧
      ∀ text, .upload text ∈ cs' →
        .upload text ∈ cs ∨ text = (m.toPackage { current.package with version }).text := by
  have hbuilt := Lifecycle.upgraded_eq_ok_iff (r := { current with name }).2
    ⟨labels, m, version, hlabels, rfl, hm, hchanged, hversion, rfl⟩
  obtain ⟨r, w', hg⟩ := exists_upgraded (c := c) h.failing h.stocked hlive hbuilt
  obtain ⟨hfailing, hmoves⟩ := moves_of_gives h.failing hg
  obtain ⟨_, _, _, _, hlive', hlabels', hm', hversion', -, -, hcomputed⟩ :=
    hmoves.upgraded_as_computed h.filed
  cases hlive.symm.trans hlive'
  cases hlabels.symm.trans hlabels'
  cases hm.symm.trans hm'
  cases hversion.symm.trans hversion'
  obtain ⟨hrunning, hinfo, hmanifest, -⟩ := hcomputed hcs
  obtain ⟨cs', hledger, huploads⟩ := hmoves.after_upgraded h.ledger hlive hbuilt
  exact ⟨r, w', cs', hg, ⟨hfailing, hmoves.unavailable_eq.trans h.available, hledger,
    hmoves.stocked h.stocked⟩, hrunning, hinfo, hmanifest, huploads⟩

/-- A version that is found is released once more, and nothing is uploaded. -/
theorem rolledBack (h : w.Ready platforms initial cs) (c : Configuration) {name : String}
    {version : Nat} {r : Release} {l : Ledger}
    (hrolled : w.ledger.rollback name version = .ok (r, l)) :
    ∃ w', ((lifecycle c).rollback name version).Gives w (.ok r) w' ∧
      w'.Ready platforms initial (cs ++ [.rollback name version]) ∧ w'.ledger = l := by
  obtain ⟨w', hg⟩ := exists_rolledBack (c := c) h.failing hrolled
  obtain ⟨hfailing, hm⟩ := moves_of_gives h.failing hg
  have hl := hm.ledger_rolledBack hrolled
  refine ⟨w', hg, ⟨hfailing, hm.unavailable_eq.trans h.available, ?_, hm.stocked h.stocked⟩, hl⟩
  refine (Ledger.after_of_attempt (c := .rollback name version) (r := some r) h.ledger ?_)
  rw [Ledger.attempt, hrolled, show w'.ledger = l from hl]
  rfl

end Ready

/-- What is packed is installed where nothing was before, and then replaced by what is worked out,
unless the package is of the same version. -/
theorem exists_installed_upgraded (platforms : List Platform) (initial : State) (c : Configuration)
    {d : Definition} {requests : List Request} {p q : Properties} {o : UpgradeOptions}
    {package : Package} {labels : List String} {m : Manifest} {version : String}
    (hplatform : platforms.any (·.name == p.platform?.getD c.platform) = true)
    (hpacked : c.packager.package d requests p = .ok package)
    (hlabels : Lifecycle.targets d.name (Manifest.mk (requests.map Request.entry)).labels o =
      .ok labels)
    (hm : ((Manifest.mk (requests.map Request.entry)).merge
      (Lifecycle.overrides (Manifest.mk (requests.map Request.entry)).labels labels q
        o)).repartition d.name = .ok m)
    (hchanged : o.force = true ∨ m ≠ ⟨requests.map Request.entry⟩)
    (hversion : Lifecycle.upgradeVersion d.name package.info.version q o = .ok version)
    (hnext : package.info.version ≠ version) :
    ∃ r w₁ cs built values r' w₂,
      ((lifecycle c).install d requests p).Gives (fresh platforms initial) (.ok r) w₁ ∧
      w₁.Ready platforms initial cs ∧ w₁.ledger.live d.name = .ok r ∧
      r.manifest = ⟨requests.map Request.entry⟩ ∧
      Lifecycle.upgraded { r with name := d.name } q o = .ok (built, values) ∧
      Unmistaken cs built ∧ ((lifecycle c).upgrade d.name q o).Gives w₁ (.ok r') w₂ ∧
      w₂.ledger.live d.name = .ok r' ∧ r'.manifest = m := by
  obtain ⟨r, w₁, cs, hinstall, h₁, hlive, hinfo, hmanifest, huploads⟩ :=
    (ready_fresh platforms initial).installed c rfl hplatform hpacked fun _ _ h => by cases h
  -- nothing but the text of the first package has been uploaded
  have hcs : Unmistaken cs (m.toPackage { r.package with version }) :=
    Ledger.unmistaken_of_ne (Packager.packed_of_package hpacked)
      (fun text ht => (huploads text ht).resolve_left List.not_mem_nil) hnext
  rw [← hmanifest] at hlabels hm hchanged
  rw [← hinfo] at hversion
  have hbuilt := Lifecycle.upgraded_eq_ok_iff (r := { r with name := d.name }).2
    ⟨labels, m, version, hlabels, rfl, hm, hchanged, hversion, rfl⟩
  obtain ⟨r', w₂, -, hupgrade, -, hlive', -, hmanifest', -⟩ :=
    h₁.upgraded c d.name q o hlive hlabels hm hchanged hversion hcs
  exact ⟨r, w₁, cs, _, _, r', w₂, hinstall, h₁, hlive, hmanifest, hbuilt, hcs, hupgrade, hlive',
    hmanifest'⟩

end World

/-- **A release runs what was computed for it**, whether or not its package had to be uploaded. Let
a ledger have become what it is by commands of any kind.

* An installation that succeeds releases, in the order of the requests, the stage that each asks
  for.
* An upgrade that succeeds releases the running manifest with the overrides merged in and its
  consumers worked out anew, on the same platform as the next version, with the package described
  as before but for its version. Unless it is forced, this is another manifest.
* Afterwards what is found under the name and version of the package has its digest.

What is found is the package itself, and what is said of the release holds, unless another text was
uploaded that has the package's name, version and digest. -/
theorem World.released_as_computed (platforms : List Platform) (initial : State)
    (cs : List Command) {w : World} (hfailing : w.calls.failing = [])
    (hledger : w.ledger = Ledger.after { platforms, initial } cs) (c : Configuration) :
    (∀ d requests p r w', ((World.lifecycle c).install d requests p).Gives w (.ok r) w' →
      ∃ package, c.packager.package d requests p = .ok package ∧
        (w'.ledger.findPackage package.info.name package.info.version).map (·.digest) =
          some package.digest ∧
        (Unmistaken cs package →
          w'.ledger.live d.name = .ok r ∧ r.package = package.info ∧
          (r.manifest.entries = requests.map fun q =>
            { label := q.label, app := q.stage.app, role := q.role
              spec := { resource := q.coordinate.locator, version := q.coordinate.version
                        pinned := q.pinned, app := q.settings, deployer := q.deployer } }) ∧
          w'.ledger.findPackage r.package.name r.package.version =
            some ⟨package.info, package.digest⟩)) ∧
    ∀ name p o r w', ((World.lifecycle c).upgrade name p o).Gives w (.ok r) w' →
      ∃ current labels m version, w.ledger.live name = .ok current ∧
        Lifecycle.targets name current.manifest.labels o = .ok labels ∧
        (current.manifest.merge
          (Lifecycle.overrides current.manifest.labels labels p o)).repartition name = .ok m ∧
        Lifecycle.upgradeVersion name current.package.version p o = .ok version ∧
        (o.force = true ∨ m ≠ current.manifest) ∧
        (w'.ledger.findPackage current.package.name version).map (·.digest) =
          some (m.toPackage { current.package with version }).digest ∧
        (Unmistaken cs (m.toPackage { current.package with version }) →
          w'.ledger.live name = .ok r ∧ r.package = { current.package with version } ∧
          r.manifest = m ∧ r.platform = current.platform ∧ r.version = current.version + 1 ∧
          w'.ledger.findPackage r.package.name r.package.version = some
            ⟨r.package, (m.toPackage { current.package with version }).digest⟩) := by
  have hfiled : Filed cs w.content.ledger := by
    rw [show w.content.ledger = Ledger.after { platforms, initial } cs from hledger]
    exact Ledger.filed_after platforms initial cs
  constructor
  · intro d requests p r w' hg
    have hmoves := (World.moves_of_gives (m := .install d requests p) hfailing hg).2
    obtain ⟨package, hpacked, hdigest, h⟩ := hmoves.installed_as_computed hfiled
    refine ⟨package, hpacked, hdigest, fun hcs => ?_⟩
    obtain ⟨hlive, hinfo, hm, hfound⟩ := h hcs
    exact ⟨hlive, hinfo, congrArg Manifest.entries hm, hfound⟩
  · intro name p o r w' hg
    exact (World.moves_of_gives (m := .upgrade name p o) hfailing hg).2.upgraded_as_computed hfiled

/-! ### The sample pipeline -/

namespace Samples

/-- What is said of the package of the sample pipeline. -/
def packageInfo : PackageInfo :=
  { name := "ticktock", version := "1.0.0", repository := "local", kind := .pipeline
    description := "time | log" }

/-- What a release of the sample pipeline runs. -/
def manifest : Manifest := ⟨ticktockRequests.map Request.entry⟩

theorem package_eq_ok :
    Packager.package {} bound ticktockRequests ∅ = .ok (manifest.toPackage packageInfo) :=
  Packager.package_eq_ok_iff.2 ⟨"1.0.0", by decide, rfl⟩

end Samples

/-- The sample pipeline is installed, and then released once more with the same package, which is
there already. -/
theorem World.released_as_computed_twice : ∃ r w₁ r' w₂,
    ((World.lifecycle { slots := 1 }).install Samples.bound Samples.ticktockRequests ∅).Gives
        (World.fresh [⟨"default", "local", ""⟩] .deployed) (.ok r) w₁ ∧
      r.manifest = Samples.manifest ∧
      ((World.lifecycle { slots := 1 }).upgrade "ticktock" ∅
        { version := some "1.0.0", force := true }).Gives w₁ (.ok r') w₂ ∧
      r'.manifest = Samples.manifest ∧ r'.package = Samples.packageInfo ∧
      r'.version = r.version + 1 := by
  have h₀ := World.ready_fresh [⟨"default", "local", ""⟩] .deployed
  obtain ⟨r, w₁, cs, hinstall, h₁, hlive, -, -, huploads⟩ :=
    h₀.installed { slots := 1 } rfl rfl Samples.package_eq_ok fun _ _ h => by cases h
  obtain ⟨hfirst, -⟩ := released_as_computed _ _ _ h₀.failing h₀.ledger { slots := 1 }
  obtain ⟨_, hpacked, -, hr⟩ := hfirst _ _ _ r w₁ hinstall
  cases Samples.package_eq_ok.symm.trans hpacked
  obtain ⟨-, hinfo, hentries, -⟩ := hr fun _ _ h => by cases h
  have hm : r.manifest = Samples.manifest := congrArg Manifest.mk hentries
  -- nothing but the text of the same package has been uploaded
  have hsame : Unmistaken cs (r.manifest.toPackage { r.package with version := "1.0.0" }) := by
    intro text q ht _ _ _ _
    rcases huploads text ht with h | rfl
    · cases h
    · rw [hm, hinfo]
      rfl
  have hlabels : Lifecycle.targets "ticktock" r.manifest.labels
      { version := some "1.0.0", force := true } = .ok r.manifest.labels := by
    rw [hm]
    decide
  have hmerged : (r.manifest.merge (Lifecycle.overrides r.manifest.labels r.manifest.labels ∅
      { version := some "1.0.0", force := true })).repartition "ticktock" = .ok r.manifest := by
    rw [hm]
    decide
  have hversion : Lifecycle.upgradeVersion "ticktock" r.package.version ∅
      { version := some "1.0.0", force := true } = .ok "1.0.0" := by
    rw [hinfo]
    decide
  obtain ⟨r', w₂, -, hupgrade, -⟩ :=
    h₁.upgraded { slots := 1 } _ _ _ hlive hlabels hmerged (.inl rfl) hversion hsame
  obtain ⟨-, hsecond⟩ := released_as_computed _ _ _ h₁.failing h₁.ledger { slots := 1 }
  obtain ⟨_, _, _, _, hcurrent, hlabels', hmerged', hversion', -, -, hr'⟩ :=
    hsecond _ _ _ r' w₂ hupgrade
  cases hlive.symm.trans hcurrent
  cases hlabels.symm.trans hlabels'
  cases hmerged.symm.trans hmerged'
  cases hversion.symm.trans hversion'
  obtain ⟨-, hpackage, hmanifest, -, hnext, -⟩ := hr' hsame
  refine ⟨r, w₁, r', w₂, hinstall, hm, hupgrade, hmanifest.trans hm, ?_, hnext⟩
  rw [hpackage, hinfo]
  rfl

end StreamPipeline
