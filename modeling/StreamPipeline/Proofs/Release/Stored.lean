import StreamPipeline.Proofs.Release.Live

/-!
# Packages of which releases are made

A ledger is stocked when a release can be made of each of its packages. What a lifecycle uploads are
packages of packages of stages (`Package.Packed`): these are always taken (`exists_ensure`) and keep
the ledger stocked (`Stocked.ensure`). A package that has the digest of another one need not be the
same, but a release can be made of it as well. So a package that has been made ready is installed
unless a release is running (`Stocked.exists_install`), and replaces what is running
(`Stocked.exists_upgrade`).
-/

namespace StreamPipeline

/-- What it takes to replace a release, and with which package it is replaced. -/
theorem Lifecycle.upgraded_eq_ok_iff {r : Release} {p : Properties} {o : UpgradeOptions}
    {package : Package} {values : Overrides} :
    upgraded r p o = .ok (package, values) ↔ ∃ labels m version,
      targets r.name r.manifest.labels o = .ok labels ∧
      overrides r.manifest.labels labels p o = values ∧
      (r.manifest.merge values).repartition r.name = .ok m ∧
      (o.force = true ∨ m ≠ r.manifest) ∧
      upgradeVersion r.name r.package.version p o = .ok version ∧
      m.toPackage { r.package with version } = package := by
  unfold upgraded
  constructor
  · intro h
    obtain ⟨labels, hlabels, h⟩ := Except.bind_eq_ok_iff.1 h
    obtain ⟨m, hm, h⟩ := Except.bind_eq_ok_iff.1 h
    dsimp only at h
    split at h
    · cases h
    · rename_i hchanged
      obtain ⟨version, hversion, h⟩ := Except.bind_eq_ok_iff.1 h
      cases h
      refine ⟨labels, m, version, hlabels, rfl, hm, ?_, hversion, rfl⟩
      by_cases hforce : o.force = true
      · exact .inl hforce
      · exact .inr fun hsame => hchanged (by simp [hforce, hsame])
  · rintro ⟨labels, m, version, hlabels, rfl, hm, hchanged, hversion, rfl⟩
    refine Except.bind_eq_ok_iff.2 ⟨labels, hlabels, Except.bind_eq_ok_iff.2 ⟨m, hm, ?_⟩⟩
    dsimp only
    rw [if_neg (by rcases hchanged with hforce | hne <;> simp [*])]
    exact Except.bind_eq_ok_iff.2 ⟨version, hversion, rfl⟩

/-- What replaces a release are stages. -/
theorem Lifecycle.packed_of_upgraded {r : Release} {p : Properties} {o : UpgradeOptions}
    {package : Package} {values : Overrides} (h : upgraded r p o = .ok (package, values)) :
    package.Packed := by
  obtain ⟨labels, m, version, -, -, -, -, -, rfl⟩ := upgraded_eq_ok_iff.1 h
  exact ⟨_, _, _, _, m.toPackage_eq_packed _⟩

theorem Content.Upgradable.packed {k : Content} {name : String} {p : Properties}
    {o : UpgradeOptions} {package : Package} {values : Overrides} {l : Ledger}
    (h : k.Upgradable name p o package values l) : package.Packed := by
  obtain ⟨current, -, hu⟩ := h.built
  exact Lifecycle.packed_of_upgraded hu

namespace Ledger

variable {l k : Ledger} {p : Package}

/-! ### Uploads -/

/-- A package of stages can always be made ready. -/
theorem exists_ensure (l : Ledger) (hp : p.Packed) : ∃ k, l.ensure p = .ok ((), k) := by
  unfold ensure
  split
  · exact ⟨l, rfl⟩
  · obtain ⟨info, k, hu⟩ := exists_upload l hp
    exact ⟨k, Except.map_eq_ok_iff.2 ⟨_, hu, rfl⟩⟩

/-- What making a package ready does: it is there already by its digest, or it is uploaded. -/
theorem ensure_cases (h : l.ensure p = .ok ((), k)) :
    (k = l ∧ ∃ s, l.stored? p.info.name p.info.version = some s ∧ s.digest = p.digest) ∨
      ∃ info, l.upload p.text = .ok (info, k) := by
  unfold ensure at h
  split at h
  · rename_i hfound
    cases h
    refine .inl ⟨rfl, ?_⟩
    unfold findPackage at hfound
    cases hs : l.stored? p.info.name p.info.version with
    | none => simp [hs] at hfound
    | some s => exact ⟨s, rfl, by simpa [hs] using hfound⟩
  · obtain ⟨r, hr, he⟩ := Except.map_eq_ok_iff.1 h
    cases he
    exact .inr ⟨r.1, hr⟩

/-! ### Stock -/

/-- A release can be made of every package that has been uploaded. -/
def Stocked (l : Ledger) : Prop :=
  ∀ name version s, l.stored? name version = some s → ∃ m, Manifest.ofPackage s.package = .ok m

theorem Stocked.of_packages (h : l.Stocked) (he : k.packages = l.packages) : k.Stocked :=
  fun name version s hs => h name version s (by rwa [stored?, he] at hs)

/-- What is found after a deletion was there before it. -/
theorem stored?_of_deletePackage {name n version : String} {s : StoredPackage}
    (h : (l.deletePackage name).stored? n version = some s) : l.stored? n version = some s := by
  obtain ⟨versions, hn, hs⟩ := Option.bind_eq_some_iff.1 h
  exact Option.bind_eq_some_iff.2
    ⟨versions, ((StringMap.get?_erase_eq_some_iff _).1 hn).2, hs⟩

theorem Stocked.deletePackage (h : l.Stocked) (name : String) : (l.deletePackage name).Stocked :=
  fun n version s hs => h n version s (stored?_of_deletePackage hs)

theorem Stocked.ensure (h : l.Stocked) (hp : p.Packed) (hk : l.ensure p = .ok ((), k)) :
    k.Stocked := by
  rcases ensure_cases hk with ⟨rfl, -⟩ | ⟨info, hu⟩
  · exact h
  · intro name version s hs
    rw [stored?_upload hu hp] at hs
    split at hs
    · cases hs
      obtain ⟨info, v, repository, es, rfl⟩ := hp
      exact ⟨_, Manifest.ofPackage_packed info v repository es⟩
    · exact h name version s hs

theorem packages_retire (l : Ledger) (name d : String) :
    (l.retire name d).packages = l.packages := by
  unfold retire
  split
  · split <;> rfl
  · rfl

theorem Stocked.install (h : l.Stocked) {i : Installation} {r : Release}
    (hk : l.install i = .ok (r, k)) : k.Stocked := by
  obtain ⟨-, -, s, m, -, -, -, rfl⟩ := install_eq_ok_iff.1 hk
  exact h.of_packages rfl

theorem Stocked.upgrade (h : l.Stocked) {u : Upgrade} {r : Release}
    (hk : l.upgrade u = .ok (r, k)) : k.Stocked := by
  obtain ⟨previous, s, m, -, -, -, -, rfl⟩ := upgrade_eq_ok_iff.1 hk
  exact h.of_packages (packages_retire l _ _)

theorem Stocked.rollback (h : l.Stocked) {name : String} {version : Nat} {r : Release}
    (hk : l.rollback name version = .ok (r, k)) : k.Stocked := by
  obtain ⟨latest, target, -, -, -, rfl⟩ := rollback_eq_ok_iff.1 hk
  exact h.of_packages (packages_retire l _ _)

theorem Stocked.uninstall (h : l.Stocked) {name : String} {r : Release}
    (hk : l.uninstall name = .ok (r, k)) : k.Stocked := by
  obtain ⟨l', hd, rfl⟩ := uninstall_eq_ok_iff.1 hk
  obtain ⟨live, -, -, rfl⟩ := delete_eq_ok_iff.1 hd
  exact (h.of_packages (packages_retire l _ _)).deletePackage _

/-- A release can be made of a package that has been made ready. -/
theorem Stocked.exists_stored (h : l.Stocked) (hp : p.Packed) (hk : l.ensure p = .ok ((), k)) :
    ∃ s m, k.stored? p.info.name p.info.version = some s ∧
      Manifest.ofPackage s.package = .ok m := by
  have hs : ∃ s, k.stored? p.info.name p.info.version = some s := by
    rcases ensure_cases hk with ⟨rfl, s, hs, -⟩ | ⟨info, hu⟩
    · exact ⟨s, hs⟩
    · exact ⟨_, (stored?_upload hu hp _ _).trans (if_pos ⟨rfl, rfl⟩)⟩
  obtain ⟨s, hs⟩ := hs
  obtain ⟨m, hm⟩ := (h.ensure hp hk) _ _ s hs
  exact ⟨s, m, hs, hm⟩

/-- What has been made ready is installed, unless a release is running. -/
theorem Stocked.exists_install (h : l.Stocked) (hp : p.Packed) (hk : l.ensure p = .ok ((), k))
    {c : Configuration} {d : Definition} {q : Properties}
    (hplatform : l.platforms.any (·.name == q.platform?.getD c.platform) = true)
    (hdead : (k.live d.name).isOk = false) :
    ∃ r k', k.install (p.installation c d q) = .ok (r, k') := by
  obtain ⟨s, m, hs, hm⟩ := h.exists_stored hp hk
  exact ⟨_, _, install_eq_ok_iff.2
    ⟨by rw [ensure_keeps hk]; exact hplatform, hdead, s, m, hs, hm, rfl, rfl⟩⟩

/-- What has been made ready replaces a running release. -/
theorem Stocked.exists_upgrade (h : l.Stocked) (hp : p.Packed) (hk : l.ensure p = .ok ((), k))
    {name : String} (values : Overrides) (o : UpgradeOptions) {r : Release}
    (hlive : k.live name = .ok r) :
    ∃ r' k', k.upgrade (p.upgrade name values o) = .ok (r', k') := by
  obtain ⟨s, m, hs, hm⟩ := h.exists_stored hp hk
  exact ⟨_, _, upgrade_eq_ok_iff.2 ⟨r, s, m, hlive, hs, hm, rfl, rfl⟩⟩

end Ledger

end StreamPipeline
