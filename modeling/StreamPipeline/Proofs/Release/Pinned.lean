import StreamPipeline.Proofs.Release.Computed
import StreamPipeline.Proofs.Release.Manifests

/-!
# Pinned versions

A stage of a release may be pinned to a version. The pin is in effect where it is the version that
the stage runs (`StageSpec.InEffect`). Requests that are made for a pipeline have their pins in
effect, and so has what a release becomes when a stage is pinned anew. An override that puts another
artifact in place of a stage's leaves the stage's pin, whatever version it comes with.

**Pins are in effect unless an artifact of another version was put in place of a pinned one**
(`World.pins_in_effect`): on every run without such an upgrade the pins of all releases are in
effect, and such an upgrade always leaves a pin behind that is not.
-/

namespace StreamPipeline

open Lifecycle (Move)

/-- Where a version is pinned, it is the one that is run. -/
def StageSpec.InEffect (s : StageSpec) : Prop := ∀ v, s.pinned = some v → s.version = v

/-- All pins of a manifest are in effect. -/
def Manifest.InEffect (m : Manifest) : Prop := ∀ e ∈ m.entries, e.spec.InEffect

/-- An artifact of another version is to be put in place of a pinned one. -/
def Manifest.Overtaken (m : Manifest) (o : UpgradeOptions) : Prop :=
  ∃ e ∈ m.entries, ∃ c v, e.label ∈ o.labels.getD m.labels ∧
    o.coordinates.get? e.label = some c ∧ e.spec.pinned = some v ∧ c.version ≠ v

/-! ### Requests -/

/-- The stages of requests are pinned as properties say. -/
theorem Request.inEffect_of_build {registry : Registry} {d : Definition} {p : Properties}
    {requests : List Request} (h : build registry d p = .ok requests) :
    Manifest.InEffect ⟨requests.map entry⟩ := by
  obtain ⟨roles, stages, -, -, hmakes⟩ := build_eq_ok_iff.1 h
  intro e he
  obtain ⟨r, hr, rfl⟩ := List.mem_map.1 he
  obtain ⟨s, role, hmade⟩ := hmakes.exists_of_mem hr
  obtain ⟨c, -, rfl⟩ := ofStage_eq_ok_iff.1 hmade
  intro v (hv : p.pinned? s.stage.label = some v)
  show ((p.pinned? s.stage.label).elim c c.pin).version = v
  rw [hv]
  rfl

/-! ### Overrides -/

/-- A pin in effect stays so unless an artifact of another version takes the stage's place. -/
theorem Override.inEffect_apply_iff {s : StageSpec} (h : s.InEffect) (o : Override) :
    (o.apply s).InEffect ↔ ∀ c v, o.coordinate = some c → s.pinned = some v → c.version = v := by
  unfold apply
  cases o.coordinate with
  | some c =>
      -- the pin is kept, and the version is that of the artifact
      constructor
      · intro heffect c' v hc hv
        cases hc
        exact heffect v hv
      · exact fun hversion v hv => hversion c v rfl hv
  | none =>
      refine iff_of_true ?_ fun c v hc => by cases hc
      cases o.version with
      | some new => exact fun v hv => Option.some.inj hv
      | none => exact h

/-- The artifact that overrides have for a stage. -/
def Overrides.coordinate? (os : Overrides) (label : String) : Option Coordinate :=
  (os.get? label).bind (·.coordinate)

theorem Manifest.inEffect_merge_iff {m : Manifest} (h : m.InEffect) (os : Overrides) :
    (m.merge os).InEffect ↔ ∀ e ∈ m.entries, ∀ c v, os.coordinate? e.label = some c →
      e.spec.pinned = some v → c.version = v := by
  unfold InEffect merge Overrides.coordinate?
  rw [List.forall_mem_map]
  refine forall₂_congr fun e he => ?_
  cases os.get? e.label with
  | none => exact iff_of_true (h e he) fun c v hc => by cases hc
  | some o => exact o.inEffect_apply_iff (h e he)

/-- Working out consumers anew leaves the artifacts and the pins. -/
theorem Manifest.inEffect_repartition_iff {m m' : Manifest} {name : String}
    (h : m.repartition name = .ok m') : m'.InEffect ↔ m.InEffect := by
  rw [repartition_eq] at h
  obtain ⟨stages, hstages, rfl⟩ := Except.map_eq_ok_iff.1 h
  have hlength := ResolvedStage.length_propagated hstages
  rw [List.length_map] at hlength
  have hzip : ∀ (es : List Entry) (ss : List ResolvedStage), ss.length = es.length →
      ((∀ e ∈ List.zipWith Entry.withStage es ss, e.spec.InEffect) ↔
        ∀ e ∈ es, e.spec.InEffect) := by
    intro es
    induction es with
    | nil => simp
    | cons e es ih =>
        intro ss hss
        obtain ⟨s, ss, rfl⟩ := List.exists_cons_of_length_eq_add_one hss
        rw [List.zipWith_cons_cons, List.forall_mem_cons, List.forall_mem_cons,
          ih ss (Nat.succ.inj hss)]
        exact Iff.rfl
  exact hzip m.entries stages hlength

/-! ### What an upgrade changes -/

theorem Overrides.coordinate?_ofProperties (p : Properties) (labels : List String)
    (label : String) : (ofProperties p labels).coordinate? label = none := by
  unfold coordinate?
  rw [get?_ofProperties]
  split
  · split <;> rfl
  · rfl

theorem Overrides.coordinate?_setCoordinates (os : Overrides) (cs : List (String × Coordinate))
    (label : String) : (cs.foldl (fun os e => os.setCoordinate e.1 e.2) os).coordinate? label =
      (StringMap.lookupLast label cs).or (os.coordinate? label) := by
  induction cs generalizing os with
  | nil => simp [StringMap.lookupLast, StringMap.lookup]
  | cons e cs ih =>
      obtain ⟨l, c⟩ := e
      rw [List.foldl_cons, ih]
      have hset : (os.setCoordinate l c).coordinate? label =
          if label = l then some c else os.coordinate? label := by
        unfold coordinate? setCoordinate
        rw [StringMap.get?_insert]
        split <;> rfl
      simp only [hset, StringMap.lookupLast, List.reverse_cons, StringMap.lookup_append,
        StringMap.lookup, Option.or_assoc]
      split <;> simp

/-- An upgrade puts the artifacts in place that are asked for, at the stages that may change. -/
theorem Lifecycle.coordinate?_overrides (labels targets : List String) (p : Properties)
    (o : UpgradeOptions) (label : String) : (overrides labels targets p o).coordinate? label =
      if label ∈ targets then o.coordinates.get? label else none := by
  have hall := Overrides.coordinate?_setCoordinates (Overrides.ofProperties p labels)
    o.coordinates.toList label
  have hlast : StringMap.lookupLast label o.coordinates.toList = o.coordinates.get? label :=
    StringMap.lookupLast_of_sorted o.coordinates.sorted label
  rw [Overrides.coordinate?_ofProperties, Option.or_none, hlast] at hall
  unfold overrides Overrides.retain Overrides.coordinate?
  rw [StringMap.get?_filterKeys]
  by_cases hl : label ∈ targets
  · rw [if_pos (List.contains_iff_mem.2 hl), if_pos hl]
    exact hall
  · rw [if_neg (by simpa using hl), if_neg hl]
    rfl

theorem Lifecycle.targets_eq_ok {name : String} {labels targets : List String} {o : UpgradeOptions}
    (h : Lifecycle.targets name labels o = .ok targets) : targets = o.labels.getD labels := by
  unfold Lifecycle.targets at h
  dsimp only at h
  split at h
  · cases h
  · cases h
    rfl

/-- **What is worked out for an upgrade has its pins in effect** unless an artifact of another
version is put in place of a pinned one. -/
theorem Manifest.inEffect_upgrade_iff {m m' : Manifest} (h : m.InEffect) {name : String}
    {targets : List String} {p : Properties} {o : UpgradeOptions}
    (htargets : Lifecycle.targets name m.labels o = .ok targets)
    (hm : (m.merge (Lifecycle.overrides m.labels targets p o)).repartition name = .ok m') :
    m'.InEffect ↔ ¬ m.Overtaken o := by
  rw [inEffect_repartition_iff hm, inEffect_merge_iff h, Lifecycle.targets_eq_ok htargets]
  constructor
  · rintro hkept ⟨e, he, c, v, hl, hc, hv, hne⟩
    refine hne (hkept e he c v ?_ hv)
    rw [Lifecycle.coordinate?_overrides, if_pos hl, hc]
  · intro hnot e he c v hc hv
    rw [Lifecycle.coordinate?_overrides] at hc
    split at hc
    · rename_i hl
      by_contra hne
      exact hnot ⟨e, he, c, v, hl, hc, hv, hne⟩
    · cases hc

/-! ### Runs -/

/-- An installation of requests that were made for a pipeline, an upgrade that puts no artifact of
another version in place of a pinned one, or whatever else. -/
def Lifecycle.Move.KeepsPins (l : Ledger) : Move → Prop
  | install _ requests _ => ∃ registry d p, Request.build registry d p = .ok requests
  | upgrade name _ o => ∀ current, l.live name = .ok current → ¬ current.manifest.Overtaken o
  | rollback _ _ => True
  | uninstall _ => True

/-- **Pins are in effect unless an artifact of another version was put in place of a pinned one.**
On every run in which all that is installed was made for a pipeline and no upgrade does that

* each pinned stage of each release runs the version to which it is pinned, and
* whatever an upgrade works out next has its pins in effect exactly if it does not do that
  either. -/
theorem World.pins_in_effect (platforms : List Platform) (initial : State) {w : World}
    (t : Managed (fun l m => m.KeepsPins l) (fresh platforms initial) w) (name : String) :
    (∀ r ∈ w.ledger.history name, ∀ e ∈ r.manifest.entries, ∀ v,
      e.spec.pinned = some v → e.spec.version = v) ∧
    ∀ r ∈ w.ledger.history name, ∀ p o targets m,
      Lifecycle.targets name r.manifest.labels o = .ok targets →
      (r.manifest.merge
        (Lifecycle.overrides r.manifest.labels targets p o)).repartition name = .ok m →
      ((∀ e ∈ m.entries, ∀ v, e.spec.pinned = some v → e.spec.version = v) ↔
        ¬ r.manifest.Overtaken o) := by
  have hall : w.ledger.All Manifest.InEffect := by
    refine t.all_manifests fun l m x hl hallowed hx => ?_
    cases m with
    | install d requests p =>
        obtain ⟨registry, d', p', hbuild⟩ := hallowed
        exact hx ▸ Request.inEffect_of_build hbuild
    | upgrade name p o =>
        obtain ⟨current, targets, hlive, htargets, hm⟩ := hx
        obtain ⟨rs, hrs, -⟩ := Ledger.live_eq_ok_iff.1 hlive
        have hcurrent := hl.released name current (by simp [hrs])
        exact (Manifest.inEffect_upgrade_iff hcurrent htargets hm).2 (hallowed current hlive)
    | rollback name version => exact hx.elim
    | uninstall name => exact hx.elim
  exact ⟨fun r hr => hall.released name r hr, fun r hr p o targets m htargets hm =>
    Manifest.inEffect_upgrade_iff (hall.released name r hr) htargets hm⟩

/-! ### A pinned stage whose artifact is replaced -/

namespace Samples

/-- The requests of the sample pipeline where its sink is pinned. -/
def pinnedRequests : List Request :=
  [request ((Stage.ofApp "time").set Binding.output "ticktock.time") .source,
    { request ((Stage.ofApp "log").set Binding.input "ticktock.time") .sink with
      coordinate := coordinate "log" "1.1.0", pinned := some "1.1.0" }]

/-- What is said where the sink is pinned. -/
def pinnedSaid : Properties := .ofList [("version.log", "1.1.0")]

/-- What a release of the sample pipeline runs where its sink is pinned. -/
def pinnedManifest : Manifest := ⟨pinnedRequests.map Request.entry⟩

theorem build_pinned : Request.build registry bound pinnedSaid = .ok pinnedRequests := by
  decide

theorem package_pinned : Packager.package {} bound pinnedRequests pinnedSaid =
    .ok (pinnedManifest.toPackage packageInfo) :=
  Packager.package_eq_ok_iff.2 ⟨"1.0.0", by decide, rfl⟩

/-- A version of the sink from another place. -/
def mirror (version : String) : UpgradeOptions :=
  { coordinates := .ofList [("log", { coordinate "log" version with
      locator := "maven://mirror:log:" ++ version })] }

/-- What the release becomes when its sink is taken from there. -/
def mirrored (version : String) : Manifest :=
  ⟨pinnedManifest.entries.map fun e =>
    if e.label = "log" then
      { e with spec.resource := "maven://mirror:log:" ++ version, spec.version := version }
    else e⟩

/-- The pipeline is installed with its sink pinned, and then the sink is taken from elsewhere. -/
theorem exists_mirrored (version : String)
    (hm : (pinnedManifest.merge (Lifecycle.overrides pinnedManifest.labels pinnedManifest.labels ∅
      (mirror version))).repartition "ticktock" = .ok (mirrored version))
    (htargets : Lifecycle.targets "ticktock" pinnedManifest.labels (mirror version) =
      .ok pinnedManifest.labels)
    (hchanged : mirrored version ≠ pinnedManifest) : ∃ r w₁ r' w₂,
    ((Move.install bound pinnedRequests pinnedSaid).call { slots := 1 }).Gives
      (World.fresh [⟨"default", "local", ""⟩] .deployed) (.ok r) w₁ ∧
    ((Move.upgrade "ticktock" ∅ (mirror version)).call { slots := 1 }).Gives w₁ (.ok r') w₂ ∧
    w₁.ledger.live "ticktock" = .ok r ∧ r.manifest = pinnedManifest ∧
    w₂.ledger.live "ticktock" = .ok r' ∧ r'.manifest = mirrored version := by
  have hversion : Lifecycle.upgradeVersion "ticktock" packageInfo.version ∅ (mirror version) =
      .ok "1.0.1" := by
    show nextVersion "ticktock" "1.0.0" = .ok "1.0.1"
    decide
  obtain ⟨r, w₁, -, -, -, r', w₂, hinstall, -, hlive, hmanifest, -, -, hupgrade, hlive',
      hmanifest'⟩ :=
    World.exists_installed_upgraded [⟨"default", "local", ""⟩] .deployed { slots := 1 } rfl
      package_pinned htargets hm (.inr hchanged) hversion (by decide)
  exact ⟨r, w₁, r', w₂, hinstall, hupgrade, hlive, hmanifest, hlive', hmanifest'⟩

end Samples

/-- The sink is pinned, and then taken from elsewhere in that version: the pin is in effect. -/
theorem World.pins_in_effect_mirrored : ∃ w r,
    Managed (fun l m => m.KeepsPins l) (fresh [⟨"default", "local", ""⟩] .deployed) w ∧
      r ∈ w.ledger.history "ticktock" ∧ r.manifest = Samples.mirrored "1.1.0" ∧
      ∀ e ∈ r.manifest.entries, ∀ v, e.spec.pinned = some v → e.spec.version = v := by
  obtain ⟨r, w₁, r', w₂, hinstall, hupgrade, hlive, hm, hlive', hm'⟩ :=
    Samples.exists_mirrored "1.1.0" (by decide) (by decide)
      (by decide)
  have hkept : ¬ Samples.pinnedManifest.Overtaken (Samples.mirror "1.1.0") := by
    have hsame : ∀ e ∈ Samples.pinnedManifest.entries,
        ∀ c ∈ (Samples.mirror "1.1.0").coordinates.get? e.label,
          ∀ v ∈ e.spec.pinned, c.version = v := by
      decide
    rintro ⟨e, he, c, v, -, hc, hv, hne⟩
    exact hne (hsame e he c hc v hv)
  have t₁ : Managed (fun l m => m.KeepsPins l) (fresh [⟨"default", "local", ""⟩] .deployed) w₁ :=
    .moved .refl { slots := 1 } (.install _ _ _) _ ⟨_, _, _, Samples.build_pinned⟩ hinstall
  have t : Managed (fun l m => m.KeepsPins l) (fresh [⟨"default", "local", ""⟩] .deployed) w₂ := by
    refine .moved t₁ { slots := 1 } (.upgrade _ _ _) _ ?_ hupgrade
    intro current hcurrent
    cases hlive.symm.trans hcurrent
    rw [hm]
    exact hkept
  obtain ⟨rs, hrs, -⟩ := Ledger.live_eq_ok_iff.1 hlive'
  have hr' : r' ∈ w₂.ledger.history "ticktock" := by simp [hrs]
  obtain ⟨heffect, -⟩ := pins_in_effect _ _ t "ticktock"
  exact ⟨w₂, r', t, hr', hm', heffect r' hr'⟩

/-- The sink is pinned, and then taken from elsewhere in another version: what runs is no longer
the version to which it is pinned. -/
theorem World.not_pinned_of_mirrored : ∃ w r e,
    Managed (fun _ m => match m with
      | .install _ requests _ => ∃ registry d p, Request.build registry d p = .ok requests
      | _ => True) (fresh [⟨"default", "local", ""⟩] .deployed) w ∧
    r ∈ w.ledger.history "ticktock" ∧ e ∈ r.manifest.entries ∧
    e.spec.pinned = some "1.1.0" ∧ e.spec.version = "2.0.0" := by
  obtain ⟨r, w₁, r', w₂, hinstall, hupgrade, -, -, hlive', hm'⟩ :=
    Samples.exists_mirrored "2.0.0" (by decide) (by decide)
      (by decide)
  obtain ⟨rs, hrs, -⟩ := Ledger.live_eq_ok_iff.1 hlive'
  have hentry : ∃ e ∈ (Samples.mirrored "2.0.0").entries,
      e.spec.pinned = some "1.1.0" ∧ e.spec.version = "2.0.0" := by
    decide
  obtain ⟨e, he, hpinned, hversion⟩ := hentry
  refine ⟨w₂, r', e, ?_, by simp [hrs], hm' ▸ he, hpinned, hversion⟩
  refine .moved ?_ { slots := 1 } (.upgrade _ _ _) _ trivial hupgrade
  exact .moved .refl { slots := 1 } (.install _ _ _) _ ⟨_, _, _, Samples.build_pinned⟩ hinstall

end StreamPipeline
