import StreamPipeline.Proofs.Release.Package

/-!
# What is written down is read back

A reader enters at most `Yaml.deepest` collections one within the other, and a package takes two:
its own record, and the list of its parts or the record of what it is. So a package is read back
from its text unless packages are nested deeper than half of that, and otherwise it is refused
(`Package.ofText?_text_eq`). Texts differ wherever packages do, at any depth
(`Package.text_injective`). A manifest is read back unless it is empty (`Manifest.ofText?_text_eq`):
an empty one has no documents. **Together** these are `written_read`.
-/

namespace StreamPipeline

open Yaml (Tree Decoder Fields)

/-! ### Packages -/

theorem PackageInfo.refuses_tree (i : PackageInfo) : PackageInfo.decoder.Refuses 1 i.tree :=
  Decoder.refuses_record fun _ hs => absurd hs (Nat.not_lt_zero _)

namespace Package

theorem isCollection_tree (p : Package) : p.tree.isCollection = true := by
  cases p
  rfl

mutual

/-- A package needs two collections for each package on the way to the innermost one. -/
theorem refuses_tree : ∀ (n : Nat) (p : Package), (decoder n).Refuses (2 * p.depth) p.tree
  | 0, _ => fun _ _ => rfl
  | n + 1, mk info config parts => by
      rw [depth, tree, decoder, show 2 * (depths parts + 1) = 2 * depths parts + 1 + 1 from rfl]
      refine Decoder.refuses_record fun scope hs => ?_
      have hdistinct : Fields.Distinct [("metadata", some info.tree), ("config", config.map .text),
          ("dependencies", if parts.isEmpty then none else some (.list (trees parts)))] := by
        simp [Fields.Distinct]
      by_cases h0 : scope.depth = 0
      · -- there is no way into the description of the package
        rw [Fields.required_eq_failure hdistinct (by simp) info.refuses_tree (by omega)]
        rfl
      · have hne : parts ≠ [] := by
          rintro rfl
          rw [depths] at hs
          omega
        obtain ⟨p, hp, hrefuses⟩ := refuses_trees n parts hne
        have hlist := Decoder.refuses_list hp hrefuses
        rw [← trees_eq_map] at hlist
        have hdeps : ("dependencies", some (.list (trees parts))) ∈ [
            ("metadata", some info.tree), ("config", config.map .text),
            ("dependencies", if parts.isEmpty then none else some (.list (trees parts)))] := by
          simp [hne]
        rw [Fields.required_eq (a := info) hdistinct (by simp) info.finds_tree (by omega),
          pure_bind, Fields.optional_eq (o := config) hdistinct (by simp)
            (fun a _ => Decoder.finds_text a) (Nat.zero_le _),
          pure_bind, Fields.withDefault_eq_failure hdistinct hdeps hlist hs]
        rfl

theorem refuses_trees : ∀ (n : Nat) (ps : List Package), ps ≠ [] →
    ∃ p ∈ ps, (decoder n).Refuses (2 * depths ps) p.tree
  | _, [] => fun h => absurd rfl h
  | n, p :: ps => fun _ => by
      by_cases hle : depths ps ≤ p.depth
      · exact ⟨p, by simp, by rw [depths, Nat.max_eq_left hle]; exact refuses_tree n p⟩
      · have hne : ps ≠ [] := by
          rintro rfl
          exact hle (Nat.zero_le _)
        obtain ⟨q, hq, hrefuses⟩ := refuses_trees n ps hne
        refine ⟨q, by simp [hq], ?_⟩
        rw [depths, Nat.max_eq_right (by omega)]
        exact hrefuses

end

/-- **A package is read back from its text** exactly if packages are not nested deeper in it than
a reader goes. -/
theorem ofText?_text_eq (p : Package) :
    ofText? p.text = if p.depth ≤ 64 then some p else none := by
  split
  · exact ofText?_text ‹_›
  · rename_i h
    have hdeep : Yaml.deepest < 2 * p.depth := by
      rw [show Yaml.deepest = 128 from rfl]
      omega
    exact (refuses_tree _ p).single_render hdeep p.isCollection_tree

/-- **Packages differ in their texts**, however deep they are nested. -/
theorem text_injective : Function.Injective text := by
  intro p q h
  have hdocs := Yaml.documents?_render p.isCollection_tree
  rw [show p.tree.render = q.tree.render from h, Yaml.documents?_render q.isCollection_tree] at hdocs
  have hnode : (q.tree.node : Yaml.Node Nat) = p.tree.node := by
    simpa [Tree.document] using hdocs
  -- a reader that goes deep enough finds both packages in the same node
  let n := max p.depth q.depth
  have hp := finds_tree p (Nat.le_max_left p.depth q.depth) ⟨[], 2 * n⟩ (by simp only [n]; omega)
  have hq := finds_tree q (Nat.le_max_right p.depth q.depth) ⟨[], 2 * n⟩ (by simp only [n]; omega)
  rw [← hnode, hq] at hp
  exact (congrArg Prod.fst (Option.some.inj (congrFun hp 0))).symm

end Package

/-! ### Manifests -/

theorem Entry.finds_tree (e : Entry) : Entry.decoder.Finds 3 e.tree e := by
  refine Decoder.finds_record fun scope hs => ?_
  have hmeta : (Decoder.record fun m => do
      return (← m.required "name" .text, ← m.required "app" .text,
        ← m.required "role" (.word Role.ofWord?))).Finds 1 (.record [("name", some (.text e.label)),
          ("app", some (.text e.app)), ("role", some (.text e.role.word))])
        (e.label, e.app, e.role) := by
    refine Decoder.finds_record fun scope hs => ?_
    have hdistinct : Fields.Distinct [("name", some (.text e.label)),
        ("app", some (.text e.app)), ("role", some (.text e.role.word))] := by
      simp [Fields.Distinct]
    rw [Fields.required_eq (a := e.label) hdistinct (by simp) (Decoder.finds_text _) hs, pure_bind,
      Fields.required_eq (a := e.app) hdistinct (by simp) (Decoder.finds_text _) hs, pure_bind,
      Fields.required_eq (a := e.role) hdistinct (by simp)
        (Decoder.finds_word (Role.ofWord?_word e.role)) hs]
    rfl
  have hdistinct : Fields.Distinct [
      ("metadata", some (.record [("name", some (.text e.label)), ("app", some (.text e.app)),
        ("role", some (.text e.role.word))])),
      ("spec", some e.spec.tree)] := by
    simp [Fields.Distinct]
  rw [Fields.required_eq hdistinct (by simp) (hmeta.mono (by omega)) hs, pure_bind,
    Fields.required_eq hdistinct (by simp) e.spec.finds_tree hs]
  rfl

namespace Manifest

theorem text_eq_renderAll (m : Manifest) : m.text = Yaml.renderAll (m.entries.map Entry.tree) := by
  rw [Yaml.renderAll, List.map_map]
  rfl

/-- **A manifest is read back from its text** unless it is empty. -/
theorem ofText?_text_eq (m : Manifest) :
    ofText? m.text = if m.entries = [] then none else some m := by
  split
  · rename_i h
    rw [text, h]
    rfl
  · rename_i h
    have hall := Decoder.several_renderAll (f := Entry.tree) (g := id) h
      (fun e _ => e.finds_tree) (by decide) fun _ _ => rfl
    rw [ofText?, text_eq_renderAll, hall, List.map_id]
    rfl

end Manifest

/-! ### All that is written -/

/-- **What is written down is read back**: packages up to the depth to which a reader goes,
configuration blocks, and manifests of at least one entry, whatever their texts say. Packages have
different texts at any depth. -/
theorem written_read :
    (∀ p : Package, Package.ofText? p.text = if p.depth ≤ 64 then some p else none) ∧
    Function.Injective Package.text ∧
    (∀ s : StageSpec, StageSpec.ofBlock? s.block = some s) ∧
    (∀ m : Manifest, Manifest.ofText? m.text = if m.entries = [] then none else some m) :=
  ⟨Package.ofText?_text_eq, Package.text_injective, StageSpec.ofBlock?_block,
    Manifest.ofText?_text_eq⟩

/-- A package with a chain of packages within it. -/
def Package.chain (info : PackageInfo) : Nat → Package
  | 0 => .mk info none []
  | n + 1 => .mk info none [chain info n]

theorem Package.depth_chain (info : PackageInfo) (n : Nat) :
    (Package.chain info n).depth = n + 1 := by
  induction n with
  | zero => rfl
  | succ n ih => rw [chain, depth, depths, depths, ih, Nat.max_eq_left (Nat.zero_le _)]

/-- A package with 64 packages one within the other in it is not read back. -/
theorem chain_not_read :
    Package.ofText? (Package.chain ⟨"a", "1", "local", .app, "", none, none⟩ 64).text ≠
      some (Package.chain ⟨"a", "1", "local", .app, "", none, none⟩ 64) := by
  rw [Package.ofText?_text_eq, Package.depth_chain, if_neg (by decide)]
  exact Option.some_ne_none _ ∘ Eq.symm

end StreamPipeline
