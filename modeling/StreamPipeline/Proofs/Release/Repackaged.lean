import StreamPipeline.Proofs.Release.Computed

/-!
# Packages that are made of manifests

A package is made in two places: of requests when a pipeline is installed, and of a manifest when it
is upgraded. **`Manifest.repackaged`**: the two agree. The manifest of a package of requests has
their stages, and the package that is made of it under the same description is the same one, text
and digest; it need not be uploaded again. And the package of a manifest, under whatever
description, has that manifest.
-/

namespace StreamPipeline

/-- A package that was made ready need not be uploaded again. -/
theorem Ledger.ensure_again {l k : Ledger} {p : Package} (hp : p.Packed)
    (h : l.ensure p = .ok ((), k)) : k.ensure p = .ok ((), k) := by
  have hdigest := digest_of_ensure hp h rfl
  obtain ⟨upload, hfound, hdigest⟩ := Option.map_eq_some_iff.1 hdigest
  rw [ensure, hfound, Option.any_some, beq_iff_eq.2 hdigest, if_pos rfl]

/-- The package of a manifest has that manifest. -/
theorem Manifest.ofPackage_toPackage (m : Manifest) (info : PackageInfo) :
    ofPackage (m.toPackage info) = .ok m :=
  ofPackage_packed info info.version info.repository m.entries

/-- **The package of some requests is that of its manifest**, and the manifest of a package of a
manifest is that manifest.

* Where requests are packed, the package has a manifest with one entry for each of them, in order,
  which says what the request asks for. The package that is made of it under the description of the
  first one is the same, and so has the same digest: where the first one was made ready, it is there
  already.
* A manifest is had from any package that is made of it, whatever the package is said to be. -/
theorem Manifest.repackaged :
    (∀ k d requests p package, Packager.package k d requests p = .ok package →
      ∃ m, ofPackage package = .ok m ∧
        (m.entries = requests.map fun q =>
          { label := q.label, app := q.stage.app, role := q.role
            spec := { resource := q.coordinate.locator, version := q.coordinate.version
                      pinned := q.pinned, app := q.settings, deployer := q.deployer } }) ∧
        m.toPackage package.info = package ∧
        (m.toPackage package.info).digest = package.digest ∧
        ∀ l l', Ledger.ensure l package = .ok ((), l') →
          l'.ensure (m.toPackage package.info) = .ok ((), l')) ∧
    ∀ (m : Manifest) info, ofPackage (m.toPackage info) = .ok m := by
  refine ⟨fun k d requests p package h => ?_, ofPackage_toPackage⟩
  have hsame := Packager.toPackage_of_package h
  refine ⟨_, Packager.ofPackage_package h, rfl, hsame, congrArg Package.digest hsame, ?_⟩
  intro l l' hl
  rw [hsame]
  exact Ledger.ensure_again (Packager.packed_of_package h) hl

/-- The package of the sample pipeline is made ready once. -/
theorem Manifest.repackaged_ticktock : ∃ package m l,
    Packager.package {} Samples.bound Samples.ticktockRequests ∅ = .ok package ∧
      ofPackage package = .ok m ∧ m.labels = ["time", "log"] ∧
      Ledger.ensure {} package = .ok ((), l) ∧
      l.ensure (m.toPackage Samples.packageInfo) = .ok ((), l) := by
  obtain ⟨m, hm, hentries, -, -, hready⟩ := repackaged.1 _ _ _ _ _ Samples.package_eq_ok
  obtain ⟨l, hl⟩ := Ledger.exists_ensure {} (Packager.packed_of_package Samples.package_eq_ok)
  refine ⟨_, m, l, Samples.package_eq_ok, hm, ?_, hl, hready _ _ hl⟩
  rw [labels, hentries]
  rfl

end StreamPipeline
