import StreamPipeline.Proofs.Outcome
import StreamPipeline.Proofs.Yaml.Decode
import StreamPipeline.Release.Manifest

/-!
# Packages and configuration blocks are read back

A configuration block holds the spec that it was written from (`StageSpec.ofBlock?_block`), and a
text holds the package that it was written from unless packages are nested deeper than any reader
goes (`Package.ofText?_text`). So the release of a package that stages were put into runs these
stages (`ofPackage_packed`).
-/

namespace StreamPipeline

open Yaml (Tree Decoder Fields)

/-! ### Specs -/

namespace StageSpec

theorem finds_texts (m : StringMap String) : Decoder.texts.Finds 1 (.ofTexts m) m := by
  have h := Decoder.finds_map (d := .text) Prod.fst (f := fun e : String × String => .text e.2)
    (h := Prod.snd) m.toList fun e _ => (Decoder.finds_text e.2 : Decoder.text.Finds 0 _ e.2)
  rw [show (m.toList.map fun e => (e.1, e.2)) = m.toList from List.map_id _,
    StringMap.ofList_toList] at h
  exact h

theorem finds_tree (s : StageSpec) : StageSpec.decoder.Finds 2 s.tree s := by
  refine Decoder.finds_record fun scope hs => ?_
  have hdistinct : Fields.Distinct [
      ("resource", some (.text s.resource)), ("version", some (.text s.version)),
      ("versionOverride", s.pinned.map .text), ("applicationProperties", some (.ofTexts s.app)),
      ("deploymentProperties", some (.ofTexts s.deployer))] := by
    simp [Fields.Distinct]
  rw [Fields.required_eq (a := s.resource) hdistinct (by simp) (Decoder.finds_text _) hs,
    pure_bind, Fields.required_eq (a := s.version) hdistinct (by simp) (Decoder.finds_text _) hs,
    pure_bind, Fields.optional_eq (o := s.pinned) hdistinct (by simp)
      (fun a _ => Decoder.finds_text a) hs, pure_bind,
    Fields.withDefault_eq (x := some (.ofTexts s.app)) hdistinct (by simp) (finds_texts s.app) hs,
    pure_bind, Fields.withDefault_eq (x := some (.ofTexts s.deployer)) hdistinct (by simp)
      (finds_texts s.deployer) hs]
  rfl

/-- **A configuration block is read back.** -/
theorem ofBlock?_block (s : StageSpec) : ofBlock? s.block = some s := by
  have h : (Decoder.record fun r => r.required "spec" decoder).Finds 3 s.blockTree s := by
    refine Decoder.finds_record fun scope hs => ?_
    exact Fields.required_eq (List.nodup_cons.2 ⟨by simp, List.nodup_nil⟩) (by simp) s.finds_tree hs
  exact h.single_render (by decide) rfl

end StageSpec

/-! ### Packages -/

theorem PackageKind.ofWord?_word (k : PackageKind) : PackageKind.ofWord? k.word = some k := by
  cases k <;> decide

theorem Role.ofWord?_word (r : Role) : Role.ofWord? r.word = some r := by
  cases r <;> decide

theorem PackageInfo.finds_tree (i : PackageInfo) : PackageInfo.decoder.Finds 1 i.tree i := by
  refine Decoder.finds_record fun scope hs => ?_
  have hdistinct : Fields.Distinct [
      ("name", some (.text i.name)), ("version", some (.text i.version)),
      ("repository", some (.text i.repository)), ("kind", some (.text i.kind.word)),
      ("description", some (.text i.description)), ("app_name", i.app.map .text),
      ("role", i.role.map (.text ·.word))] := by
    simp [Fields.Distinct]
  rw [Fields.required_eq (a := i.name) hdistinct (by simp) (Decoder.finds_text _) hs,
    pure_bind, Fields.required_eq (a := i.version) hdistinct (by simp) (Decoder.finds_text _) hs,
    pure_bind, Fields.required_eq (a := i.repository) hdistinct (by simp) (Decoder.finds_text _) hs,
    pure_bind, Fields.required_eq (a := i.kind) hdistinct (by simp)
      (Decoder.finds_word (PackageKind.ofWord?_word i.kind)) hs,
    pure_bind, Fields.withDefault_eq (x := some (.text i.description)) hdistinct (by simp)
      (Decoder.finds_text _) hs,
    pure_bind, Fields.optional_eq (o := i.app) hdistinct (by simp)
      (fun a _ => Decoder.finds_text a) hs,
    pure_bind, Fields.optional_eq (o := i.role) hdistinct (by simp)
      (fun r _ => Decoder.finds_word (Role.ofWord?_word r)) hs]
  rfl

namespace Package

mutual

/-- How deep packages are nested. -/
def depth : Package → Nat
  | mk _ _ parts => depths parts + 1

/-- How deep some packages are nested. -/
def depths : List Package → Nat
  | [] => 0
  | p :: ps => max p.depth (depths ps)

end

theorem trees_eq_map (ps : List Package) : trees ps = ps.map tree := by
  induction ps with
  | nil => rfl
  | cons p ps ih => rw [trees, ih, List.map_cons]

mutual

theorem finds_tree : ∀ (p : Package) {n : Nat}, p.depth ≤ n →
    (decoder n).Finds (2 * p.depth) p.tree p
  | mk info config parts, n, hn => by
      rw [depth] at hn
      obtain ⟨n, rfl⟩ : ∃ k, n = k + 1 := ⟨n - 1, by omega⟩
      have hparts := finds_trees parts (n := n) (by omega)
      rw [depth, tree, decoder, show 2 * (depths parts + 1) = 2 * depths parts + 1 + 1 from rfl]
      refine Decoder.finds_record fun scope hs => ?_
      have hdistinct : Fields.Distinct [("metadata", some info.tree), ("config", config.map .text),
          ("dependencies", if parts.isEmpty then none else some (.list (trees parts)))] := by
        simp [Fields.Distinct]
      have hlist : Fields.Holds (.list (decoder n)) (2 * depths parts + 1) []
          (if parts.isEmpty then none else some (.list (trees parts))) parts := by
        cases parts with
        | nil => rfl
        | cons p ps =>
            rw [trees_eq_map]
            have h := Decoder.finds_list (f := tree) (h := id) (p :: ps) hparts
            rwa [List.map_id] at h
      rw [Fields.required_eq (a := info) hdistinct (by simp) (info.finds_tree.mono (by omega)) hs,
        pure_bind, Fields.optional_eq (o := config) hdistinct (by simp)
          (fun a _ => Decoder.finds_text a) hs,
        pure_bind, Fields.withDefault_eq hdistinct (by simp) hlist hs]
      rfl

theorem finds_trees : ∀ (ps : List Package) {n : Nat}, depths ps ≤ n →
    ∀ p ∈ ps, (decoder n).Finds (2 * depths ps) p.tree p
  | [], _, _ => fun _ h => nomatch h
  | q :: qs, n, hn => fun p hp => by
      rw [depths] at hn ⊢
      have hq := finds_tree q (n := n) (by omega)
      have hqs := finds_trees qs (n := n) (by omega)
      rcases List.mem_cons.1 hp with rfl | hp
      · exact hq.mono (by omega)
      · exact (hqs p hp).mono (by omega)

end

/-- **A package is read back from its text**, unless packages are nested deeper in it than any
reader goes. -/
theorem ofText?_text {p : Package} (h : p.depth ≤ 64) : ofText? p.text = some p := by
  refine (finds_tree p (n := Yaml.deepest) (Nat.le_trans h (by decide))).single_render ?_ ?_
  · exact Nat.le_trans (Nat.mul_le_mul_left 2 h) (by decide)
  · cases p
    rfl

end Package

/-! ### Stages -/

namespace Manifest

/-- A package of packages of stages. -/
def packed (info : PackageInfo) (version repository : String) (es : List Entry) : Package :=
  .mk info none (es.map fun e =>
    Package.ofStage e.label e.app e.role version repository e.spec)

/-- **The release of the packages of some stages runs these stages.** -/
theorem ofPackage_packed (info : PackageInfo) (version repository : String) (es : List Entry) :
    ofPackage (packed info version repository es) = .ok ⟨es⟩ := by
  have hspecs : (packed info version repository es).stageSpecs = .ok (es.map fun e =>
      ((Package.ofStage e.label e.app e.role version repository e.spec).info, e.spec)) := by
    refine List.mapM_map_eq_pure es fun e _ => ?_
    simp [Package.ofStage, Package.config, StageSpec.ofBlock?_block, pure, Except.pure]
  unfold ofPackage
  refine Except.bind_eq_ok_iff.2 ⟨_, hspecs, Except.bind_eq_ok_iff.2 ⟨es, ?_, rfl⟩⟩
  refine (List.mapM_map_eq_pure (h := id) es fun e _ => ?_).trans (congrArg _ (List.map_id es))
  rfl

/-- A package of packages of stages is read back. -/
theorem ofText?_packed (info : PackageInfo) (version repository : String) (es : List Entry) :
    Package.ofText? (packed info version repository es).text =
      some (packed info version repository es) := by
  refine Package.ofText?_text ?_
  have hstages : ∀ es : List Entry, Package.depths (es.map fun e =>
      Package.ofStage e.label e.app e.role version repository e.spec) ≤ 1 := by
    intro es
    induction es with
    | nil => exact Nat.zero_le 1
    | cons e es ih => exact Nat.max_le.2 ⟨Nat.le_refl 1, ih⟩
  exact Nat.le_trans (Nat.succ_le_succ (hstages es)) (by decide)

/-- The package of a manifest is one of packages of stages. -/
theorem toPackage_eq_packed (m : Manifest) (info : PackageInfo) :
    m.toPackage info = packed info info.version info.repository m.entries :=
  rfl

end Manifest

/-- The stage that a request asks for. -/
def Request.entry (r : Request) : Entry := ⟨r.label, r.stage.app, r.role, r.spec⟩

namespace Packager

variable {k : Packager} {d : Definition} {requests : List Request} {p : Properties}
  {package : Package}

/-- What a packager says of the package of a pipeline in a version. -/
def described (k : Packager) (d : Definition) (p : Properties) (version : String) : PackageInfo :=
  { name := p.packageName?.getD d.name, version, repository := p.repository?.getD k.repository
    kind := .pipeline, description := d.text }

/-- **What a packager packs is the package of the manifest of its requests**, if the version can be
read. -/
theorem package_eq_ok_iff : k.package d requests p = .ok package ↔ ∃ version,
    checkVersion d.name (p.packageVersion?.getD k.version) = .ok version ∧
      (Manifest.mk (requests.map Request.entry)).toPackage (k.described d p version) = package := by
  have hparts : ∀ version, (Manifest.mk (requests.map Request.entry)).toPackage
      (k.described d p version) = .mk (k.described d p version) none (requests.map fun r =>
        Package.ofStage r.label r.stage.app r.role version (p.repository?.getD k.repository)
          r.spec) := fun version => by
    rw [Manifest.toPackage, List.map_map]
    rfl
  unfold Packager.package
  simp only [hparts]
  exact Except.bind_eq_ok_iff.trans (exists_congr fun version =>
    and_congr_right' ⟨fun h => Except.ok.inj h, congrArg Except.ok⟩)

/-- What a packager packs is the package of the manifest of its requests. -/
theorem toPackage_of_package (h : k.package d requests p = .ok package) :
    (Manifest.mk (requests.map Request.entry)).toPackage package.info = package := by
  obtain ⟨version, -, rfl⟩ := package_eq_ok_iff.1 h
  rfl

/-- What a packager packs is a package of packages of stages. -/
theorem package_eq_ok (h : k.package d requests p = .ok package) :
    ∃ info version repository,
      package = Manifest.packed info version repository (requests.map Request.entry) :=
  ⟨_, _, _, (toPackage_of_package h).symm⟩

end Packager

/-- The package is one of packages of stages. -/
def Package.Packed (p : Package) : Prop :=
  ∃ info version repository es, p = Manifest.packed info version repository es

/-- A package of stages is read back. -/
theorem Package.Packed.ofText?_text {p : Package} (h : p.Packed) :
    Package.ofText? p.text = some p := by
  obtain ⟨info, version, repository, es, rfl⟩ := h
  exact Manifest.ofText?_packed info version repository es

/-- What a packager packs are stages. -/
theorem Packager.packed_of_package {k : Packager} {d : Definition} {requests : List Request}
    {p : Properties} {package : Package} (h : k.package d requests p = .ok package) :
    package.Packed := by
  obtain ⟨info, version, repository, h⟩ := package_eq_ok h
  exact ⟨info, version, repository, _, h⟩

end StreamPipeline
