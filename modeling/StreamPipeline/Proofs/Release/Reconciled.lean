import StreamPipeline.Proofs.Definition
import StreamPipeline.Proofs.Release.Updated

/-!
# Definitions that follow a release

A manifest binds its stages as a definition does if their stages are alike (`Manifest.Binds`). What
is deployed for a definition does so, and an update keeps it (`binds_of_build`, `Binds.updated`),
where the properties leave it to the definition how its stages are bound.

A definition that is told the settings of such a manifest has just the stages that partitioning
finds in its entries (`Binds.stages_withSettings`). So the pass that is made over them later, when
nothing else is said, repeats the pass that worked the manifest out, although that one started from
other stages: **the requests for the definition ask for what the manifest runs**
(`Binds.exists_requests`).
-/

namespace StreamPipeline

open StreamPipeline.Partition ResolvedStage

/-! ### Properties that bind no stage -/

/-- Nothing that is said about stages with these labels binds them. -/
def Properties.LeavesBindings (p : Properties) (labels : List String) : Prop :=
  ∀ label ∈ labels, ∀ key, Binding.isBinding key = true → (p.forStage .app label).get? key = none

/-- Partitioning does not bind stages. -/
theorem Binding.isInjected_eq_false {key : String} (h : isBinding key = true) :
    isInjected key = false := by
  unfold isBinding at h
  simp only [Bool.or_eq_true, beq_iff_eq] at h
  rcases h with (rfl | rfl) | rfl <;> decide

instance Properties.decidableLeavesBindings (p : Properties) (labels : List String) :
    Decidable (p.LeavesBindings labels) :=
  decidable_of_iff (∀ label ∈ labels, ∀ key ∈ [Binding.input, Binding.output, Binding.group],
    (p.forStage .app label).get? key = none) <| by
      simp [LeavesBindings, Binding.isBinding, or_imp, forall_and, and_assoc]

/-- An upgrade tells an app what properties say about its stage, or nothing. -/
theorem Lifecycle.app_overrides (labels targets : List String) (p : Properties)
    (o : UpgradeOptions) (label : String) : ((overrides labels targets p o).about label).app =
      if label ∈ targets ∧ label ∈ labels then p.forStage .app label else ∅ := by
  have hsaid : ((Overrides.ofProperties p labels).about label).app =
      if label ∈ labels then p.forStage .app label else ∅ := by
    unfold Overrides.about
    rw [Overrides.get?_ofProperties]
    split
    · split
      · rename_i hempty
        simp only [Override.isEmpty, Bool.and_eq_true] at hempty
        exact (StringMap.isEmpty_iff.1 hempty.1.1.1).symm
      · rfl
    · rfl
  have hset : ∀ (cs : List (String × Coordinate)) (os : Overrides),
      ((cs.foldl (fun os e => os.setCoordinate e.1 e.2) os).about label).app =
        (os.about label).app := by
    intro cs
    induction cs with
    | nil => exact fun _ => rfl
    | cons e cs ih =>
        intro os
        rw [List.foldl_cons, ih]
        unfold Overrides.about Overrides.setCoordinate
        rw [StringMap.get?_insert]
        split
        · subst label
          rfl
        · rfl
  have hretained : (overrides labels targets p o).about label =
      if label ∈ targets then (o.coordinates.toList.foldl (fun os e => os.setCoordinate e.1 e.2)
        (Overrides.ofProperties p labels)).about label else {} := by
    unfold overrides Overrides.retain Overrides.about
    rw [StringMap.get?_filterKeys]
    by_cases hl : label ∈ targets
    · rw [if_pos (by simpa using hl), if_pos hl]
    · rw [if_neg (by simpa using hl), if_neg hl]
      rfl
  rw [hretained]
  by_cases hl : label ∈ targets
  · rw [if_pos hl, hset, hsaid]
    exact if_congr (and_iff_right hl).symm rfl rfl
  · rw [if_neg hl, if_neg fun h => hl h.1]

/-- An upgrade with properties that bind no stage binds no stage. -/
theorem Lifecycle.get?_app_overrides {p : Properties} {labels : List String}
    (h : p.LeavesBindings labels) (targets : List String) (o : UpgradeOptions) (label : String)
    {key : String} (hkey : Binding.isBinding key = true) :
    ((overrides labels targets p o).about label).app.get? key = none := by
  rw [app_overrides]
  split
  · exact h label (And.right ‹_›) key hkey
  · rfl

/-! ### Manifests that bind as a definition does -/

namespace Entry

/-- The stage that an entry runs, with all that configures it. -/
def stage (e : Entry) : Stage := ⟨e.label, e.app, e.spec.app⟩

/-- What partitioning finds in an entry that came out of a pass, when nothing else is said, is what
it found before, unless the platform is told a number of instances. -/
theorem reads_bare {e : Entry} {t : ResolvedStage} (ht : Told e.bare t)
    (hcount : t.deployer.get? Partition.count = none) :
    Reads e.bare { stage := (e.withStage t).bare.stage } ∧
      e.bare.stage.hasInput = (e.withStage t).bare.stage.hasInput := by
  have hget : ∀ key, e.bare.get? key = (e.withStage t).bare.get? key := by
    intro key
    rw [get?_bare, get?_bare]
    split
    · rfl
    · rename_i hkey
      rw [get?_withStage ht (by simpa using hkey)]
  refine ⟨⟨rfl, hget, ?_⟩, ?_⟩
  · rw [ht.deployer] at hcount
    split at hcount
    · rwa [StringMap.get?_insert_of_ne _ _ (by decide)] at hcount
    · exact hcount
  · rw [hasInput_bare, hasInput_bare, get?_withStage ht (by decide)]

end Entry

namespace Manifest

/-- The stages that the manifest runs are those of the definition, bound alike. -/
def Binds (d : Definition) (m : Manifest) : Prop :=
  List.Forall₂ Stage.Like d.stages (m.entries.map Entry.stage)

variable {d : Definition} {m : Manifest} {registry : Registry} {p : Properties}
  {requests : List Request}

namespace Binds

theorem labels_eq (h : Binds d m) : m.labels = d.labels := by
  refine map_eq_map_of_forall₂ ((List.forall₂_map_right_iff.1 h).flip.imp ?_)
  exact fun _ _ hlike => hlike.label

/-- An update that binds no stage leaves the bindings of all. -/
theorem updated (h : Binds d m) {os : Overrides} {name : String} {m₁ : Manifest}
    (hos : ∀ label key, Binding.isBinding key = true → (os.about label).app.get? key = none)
    (hm : (m.merge os).repartition name = .ok m₁) : Binds d m₁ := by
  obtain ⟨told, hpass, rfl⟩ := repartition_merge_eq_ok_iff.1 hm
  obtain ⟨-, hupdated⟩ := forall₂_withStage (told_of_propagated hpass)
  rw [List.forall₂_map_left_iff] at hupdated
  refine List.forall₂_map_right_iff.2 (forall₂_comp ?_ (List.forall₂_map_right_iff.1 h) hupdated)
  rintro s e _ hlike ⟨t, ht, rfl⟩
  refine hlike.trans ⟨rfl, rfl, fun key hkey => ?_⟩
  have hkept := Entry.get?_withStage ht (Binding.isInjected_eq_false hkey)
  rw [Entry.get?_updated, hos e.label key hkey, Option.none_or] at hkept
  exact hkept

end Binds

/-- The requests for a definition bind as it does. -/
theorem binds_of_build (hp : p.LeavesBindings d.labels)
    (h : Request.build registry d p = .ok requests) : Binds d ⟨requests.map Request.entry⟩ := by
  obtain ⟨roles, told, hroles, hpass, hmakes⟩ := Request.build_eq_ok_iff.1 h
  have hlength : roles.length = told.length := by
    rw [Stage.length_roles hroles, length_propagated hpass, Request.resolve_eq_map,
      List.length_map]
  have hkeeps : List.Forall₂ (fun s t => Keeps (Request.resolved p s) t) d.stages told := by
    have hpassed := forall₂_keeps_propagate d.name (Request.resolve d p)
    rw [propagated_eq_ok_iff.1 hpass] at hpassed
    exact List.forall₂_map_left_iff.1 hpassed
  have hasked : List.Forall₂ (fun t r => Request.Asks r t) told requests :=
    (hmakes.asks hlength).flip
  have hmade : List.Forall₂ (fun s r => ∃ t, Keeps (Request.resolved p s) t ∧ Request.Asks r t)
      d.stages requests :=
    forall₂_comp (fun s t r hkeeps hasks => ⟨t, hkeeps, hasks⟩) hkeeps hasked
  show List.Forall₂ Stage.Like d.stages ((requests.map Request.entry).map Entry.stage)
  rw [List.map_map, List.forall₂_map_right_iff]
  refine forall₂_imp_of_mem ?_ hmade
  rintro s hs r - ⟨t, hkeeps, hasks⟩
  have hstage : r.stage = s := hasks.stage.trans hkeeps.stage
  subst hstage
  refine ⟨rfl, rfl, fun key hkey => ?_⟩
  have hsaid := hp r.stage.label (List.mem_map_of_mem hs) key hkey
  have hkept := hkeeps.app key (Binding.isInjected_eq_false hkey)
  show (r.stage.properties.overlay r.app).get? key = _
  rw [StringMap.get?_overlay, hasks.app, hkept]
  show ((p.forStage .app r.stage.label).get? key).or _ = _
  rw [hsaid, Option.none_or]

/-! ### Definitions that are told the settings of a manifest -/

/-- What a manifest has a stage told, found under the label of the stage. -/
theorem get?_settings (h : m.labels.Nodup) {e : Entry} (he : e ∈ m.entries) :
    m.settings.get? e.label = some (e.spec.app.filterKeys (!isInjected ·)) := by
  unfold settings
  refine StringMap.get?_ofList_of_mem ?_ (List.mem_map.2 ⟨e, he, rfl⟩)
  rw [List.map_map]
  exact h

/-- The pass that worked a manifest out is repeated over its bare stages when nothing is said about
them, unless the platform was told a number of instances. -/
theorem exists_propagated_bare {name : String} {m₁ : Manifest}
    (h : m.repartition name = .ok m₁)
    (hcount : ∀ e ∈ m₁.entries, e.spec.deployer.get? Partition.count = none) :
    ∃ told, propagated name (m₁.entries.map fun e => { stage := e.bare.stage }) = .ok told ∧
      List.Forall₂ (fun e t => e.label = t.stage.label ∧
        e.spec.app = t.stage.properties.overlay t.app) m₁.entries told := by
  rw [repartition_eq] at h
  obtain ⟨told, hpass, rfl⟩ := Except.map_eq_ok_iff.1 h
  obtain ⟨hruns, hstages⟩ := forall₂_withStage (told_of_propagated hpass)
  have hreads : List.Forall₂ (fun a b => Reads a b ∧ a.stage.hasInput = b.stage.hasInput)
      (m.entries.map Entry.bare) ((List.zipWith Entry.withStage m.entries told).map
        fun e => { stage := e.bare.stage }) := by
    rw [List.forall₂_map_left_iff, List.forall₂_map_right_iff]
    refine forall₂_imp_of_mem ?_ hstages
    rintro e - _ he₁ ⟨t, ht, rfl⟩
    exact Entry.reads_bare ht (hcount _ he₁)
  obtain ⟨told', hpass', hreads'⟩ := kept_reads.exists_propagated hreads hpass
  refine ⟨told', hpass', forall₂_comp ?_ hruns hreads'⟩
  rintro e t t' hruns ⟨hreads, -⟩
  exact ⟨hruns.label.trans hreads.label, hruns.app.trans hreads.settings⟩

namespace Binds

variable {d' : Definition}

/-- A definition that is told the settings of a manifest has the stages that partitioning finds in
the entries. -/
theorem stages_withSettings (h : Binds d m) (hlabels : d.labels.Nodup)
    (hd' : List.Forall₂ Stage.Like d.stages d'.stages) :
    (d'.withSettings m.settings).stages = m.entries.map (·.bare.stage) := by
  have hlike : List.Forall₂ (fun s' e => ∃ s, Stage.Like s s' ∧ Stage.Like s e.stage)
      d'.stages m.entries :=
    forall₂_comp (fun s' s e hs' he => ⟨s, hs', he⟩) hd'.flip (List.forall₂_map_right_iff.1 h)
  refine map_eq_map_of_forall₂ (forall₂_imp_of_mem ?_ hlike)
  rintro s' - e he ⟨s, hs', hs⟩
  have hlabel : e.label = s'.label := hs.label.trans hs'.label.symm
  have happ : e.app = s'.app := hs.app.trans hs'.app.symm
  have hbinding : ∀ key, Binding.isBinding key = true →
      (e.spec.app.filterKeys (!isInjected ·)).get? key = s'.properties.get? key := by
    intro key hkey
    rw [StringMap.get?_filterKeys, Binding.isInjected_eq_false hkey, hs'.binding key hkey]
    exact hs.binding key hkey
  rw [← hlabel, get?_settings (h.labels_eq ▸ hlabels) he]
  refine (Stage.withSettings_eq hbinding).trans ?_
  rw [← hlabel, ← happ]
  rfl

/-- **The requests for a definition that follows a manifest ask for what the manifest runs.** -/
theorem exists_requests (h : Binds d m) (hlabels : d.labels.Nodup) {os : Overrides}
    (hos : ∀ label key, Binding.isBinding key = true → (os.about label).app.get? key = none)
    {m₁ : Manifest} (hm : (m.merge os).repartition d.name = .ok m₁)
    (hcount : ∀ e ∈ m₁.entries, e.spec.deployer.get? Partition.count = none)
    (hd' : List.Forall₂ Stage.Like d.stages d'.stages) (hname : d'.name = d.name)
    (hbuild : Request.build registry d p = .ok requests) :
    ∃ requests', Request.build registry (d'.withSettings m₁.settings) ∅ = .ok requests' ∧
      List.Forall₂ (fun q e => q.label = e.label ∧ q.settings = e.spec.app) requests'
        m₁.entries := by
  have hstages := (h.updated hos hm).stages_withSettings hlabels hd'
  have hlike : List.Forall₂ Stage.Like d.stages (d'.withSettings m₁.settings).stages :=
    forall₂_comp (fun _ _ _ => .trans) hd' (d'.like_withSettings _)
  obtain ⟨roles, stages, hroles, hpass, hmakes⟩ := Request.build_eq_ok_iff.1 hbuild
  -- the stages have the roles and the apps that they had at deployment
  have hroles' : (d'.withSettings m₁.settings).roles = .ok roles := by
    unfold Definition.roles
    rw [Stage.roles_of_like hlike]
    exact hname ▸ hroles
  obtain ⟨told, hpass', htold⟩ := exists_propagated_bare hm hcount
  have hresolved : Request.resolve (d'.withSettings m₁.settings) ∅ =
      m₁.entries.map fun e => { stage := e.bare.stage } := by
    rw [Request.resolve_eq_map, hstages, List.map_map]
    rfl
  rw [← hresolved] at hpass'
  have hstored : told.map (·.stage) = (d'.withSettings m₁.settings).stages :=
    (map_stage_propagated hpass').trans (Request.map_stage_resolve _ _)
  have hdefined : stages.map (·.stage) = d.stages :=
    (map_stage_propagated hpass).trans (Request.map_stage_resolve _ _)
  have happs : told.map (·.stage.app) = stages.map (·.stage.app) := by
    have hsame : (told.map (·.stage)).map Stage.app = (stages.map (·.stage)).map Stage.app := by
      rw [hstored, hdefined]
      exact map_eq_map_of_forall₂ (hlike.flip.imp fun _ _ h => h.app)
    rwa [List.map_map, List.map_map] at hsame
  obtain ⟨requests', hmakes'⟩ := hmakes.exists_makes happs ∅
  have hlength : roles.length = told.length := by
    rw [Stage.length_roles hroles', ← hstored, List.length_map]
  refine ⟨requests', Request.build_eq_ok_iff.2 ⟨roles, told, hroles', hname ▸ hpass', hmakes'⟩, ?_⟩
  refine forall₂_comp ?_ (hmakes'.asks hlength) htold.flip
  rintro q t e hasks ⟨hlabel, happ⟩
  refine ⟨(congrArg Stage.label hasks.stage).trans hlabel.symm, ?_⟩
  unfold Request.settings
  rw [hasks.stage, hasks.app, happ]

end Binds

end Manifest

end StreamPipeline
