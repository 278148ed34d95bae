import StreamPipeline.Proofs.Release.Stable

/-!
# What an update makes of a manifest

An update changes each entry by what is overridden about its stage (`Entry.updated`), takes back
what partitioning wrote, and puts the stages in its place that a pass over the bare ones has told
(`repartition_merge_eq_ok_iff`). But for what partitioning writes, an entry comes out with the
properties that it had, and over them those of the update (`get?_withStage`, `get?_updated`).
-/

namespace StreamPipeline

open StreamPipeline.Partition ResolvedStage

/-- What is overridden about a stage, nothing if nothing is said. -/
def Overrides.about (os : Overrides) (label : String) : Override := (os.get? label).getD {}

namespace Override

@[simp] theorem apply_app (o : Override) (s : StageSpec) :
    (o.apply s).app = s.app.overlay o.app := by
  unfold apply
  split <;> rfl

@[simp] theorem apply_deployer (o : Override) (s : StageSpec) :
    (o.apply s).deployer = s.deployer.overlay o.deployer := by
  unfold apply
  split <;> rfl

end Override

namespace Entry

/-- The entry with what is overridden about its stage. -/
def updated (os : Overrides) (e : Entry) : Entry :=
  { e with spec := (os.about e.label).apply e.spec }

end Entry

theorem Manifest.merge_eq (m : Manifest) (os : Overrides) :
    m.merge os = ⟨m.entries.map (Entry.updated os)⟩ := by
  refine congrArg Manifest.mk (List.map_congr_left fun e _ => ?_)
  unfold Entry.updated Overrides.about
  cases os.get? e.label with
  | none =>
      rw [Option.getD_none, Override.apply_of_isEmpty rfl]
  | some o => rfl

theorem Manifest.getElem?_merge (m : Manifest) (os : Overrides) (i : Nat) :
    (m.merge os).entries[i]? = m.entries[i]?.map (Entry.updated os) := by
  rw [merge_eq]
  exact List.getElem?_map ..

namespace Entry

variable {os : Overrides} {e : Entry} {t : ResolvedStage}

theorem get?_updated (os : Overrides) (e : Entry) (key : String) :
    (e.updated os).spec.app.get? key =
      ((os.about e.label).app.get? key).or (e.spec.app.get? key) := by
  unfold updated
  rw [Override.apply_app, StringMap.get?_overlay]

theorem deployer_updated (os : Overrides) (e : Entry) :
    (e.updated os).spec.deployer = e.spec.deployer.overlay (os.about e.label).deployer :=
  Override.apply_deployer ..

/-- What an entry is told after an update was said before or is said now. -/
theorem contains_updated (os : Overrides) (e : Entry) (key : String) :
    (e.updated os).spec.app.contains key =
      ((os.about e.label).app.contains key || e.spec.app.contains key) := by
  unfold StringMap.contains
  rw [get?_updated, Option.isSome_or]

theorem get?_deployer_bare (e : Entry) (key : String) : e.bare.deployer.get? key =
    if e.spec.app.contains inputPartitioned = true ∧ key = indexed then none
    else e.spec.deployer.get? key := by
  unfold bare
  dsimp only
  cases e.spec.app.contains inputPartitioned with
  | true => simp [StringMap.get?_erase]
  | false => simp

theorem bare_unmarked (e : Entry) : e.bare.stage.properties.get? inputPartitioned = none := by
  refine (StringMap.get?_filterKeys _ _ _).trans (if_neg ?_)
  decide

/-- The entry of a stage that was told something runs that stage. -/
theorem runs_withStage (ht : Told e.bare t) : (e.withStage t).Runs t :=
  ⟨(congrArg Stage.label ht.stage).symm, rfl, rfl⟩

theorem get?_withStage (ht : Told e.bare t) {key : String} (hkey : isInjected key = false) :
    (e.withStage t).spec.app.get? key = e.spec.app.get? key := by
  have hbare := e.get?_bare key
  rw [hkey, if_neg Bool.false_ne_true] at hbare
  show (t.stage.properties.overlay t.app).get? key = _
  rw [StringMap.get?_overlay, ht.app key hkey, ht.stage]
  exact hbare

end Entry

namespace Manifest

variable {os : Overrides}

/-- The entries of an update, where their stages were told something. -/
def updatedWith (os : Overrides) (entries : List Entry) (told : List ResolvedStage) : List Entry :=
  List.zipWith Entry.withStage (entries.map (Entry.updated os)) told

theorem repartition_merge_eq_ok_iff {m m₁ : Manifest} {name : String} :
    (m.merge os).repartition name = .ok m₁ ↔ ∃ told,
      propagated name ((m.entries.map (Entry.updated os)).map Entry.bare) = .ok told ∧
        m₁ = ⟨updatedWith os m.entries told⟩ := by
  rw [merge_eq, repartition_eq, Except.map_eq_ok_iff]
  exact exists_congr fun told => and_congr_right' eq_comm

/-- Where the bare stages of entries were told something, the entries that they are put into run
these stages, each in place of the one before it. -/
theorem forall₂_withStage {entries : List Entry} {told : List ResolvedStage}
    (htold : List.Forall₂ Told (entries.map Entry.bare) told) :
    List.Forall₂ Entry.Runs (List.zipWith Entry.withStage entries told) told ∧
      List.Forall₂ (fun e e₁ => ∃ t, Told e.bare t ∧ e₁ = e.withStage t) entries
        (List.zipWith Entry.withStage entries told) := by
  induction entries generalizing told with
  | nil =>
      cases htold
      exact ⟨.nil, .nil⟩
  | cons e entries ih =>
      cases htold with
      | @cons _ t _ told ht htold =>
          obtain ⟨hruns, hstages⟩ := ih htold
          exact ⟨.cons (Entry.runs_withStage ht) hruns, .cons ⟨t, ht, rfl⟩ hstages⟩

/-- An update keeps the labels of the stages. -/
theorem labels_repartition_merge {m m₁ : Manifest} {name : String}
    (h : (m.merge os).repartition name = .ok m₁) : m₁.labels = m.labels := by
  obtain ⟨told, hpass, rfl⟩ := repartition_merge_eq_ok_iff.1 h
  have hlength := length_propagated hpass
  rw [List.length_map, List.length_map] at hlength
  have hentries : ∀ {entries : List Entry} {told : List ResolvedStage},
      told.length = entries.length →
        (updatedWith os entries told).map (·.label) = entries.map (·.label) := by
    intro entries
    induction entries with
    | nil => exact fun _ => rfl
    | cons e entries ih =>
        intro told hlength
        obtain ⟨t, told, rfl⟩ := List.exists_cons_of_length_eq_add_one hlength
        exact congrArg (e.label :: ·) (ih (Nat.succ.inj hlength))
  exact hentries hlength

end Manifest

end StreamPipeline
