import StreamPipeline.Proofs.Coordinate
import StreamPipeline.Proofs.Properties
import StreamPipeline.Registry
import StreamPipeline.Release.Manifest

/-!
# What overrides do to a spec

A locator that ends with its version can be pinned again and again. So an override of what
properties say, applied to the spec of an artifact, gives the spec of the same artifact under what
is said now (`apply_spec`); and overrides merged into a manifest apply to each entry what is said
about its stage (`merge_ofProperties`).
-/

namespace StreamPipeline

namespace Coordinate

/-- What a stage of an artifact is to run. -/
def spec (c : Coordinate) (pinned : Option String) (app deployer : Settings) : StageSpec :=
  { resource := (pinned.elim c c.pin).locator, version := (pinned.elim c c.pin).version
    pinned, app, deployer }

end Coordinate

/-- The locators of all registered artifacts end with their versions. -/
def Registry.Versioned (registry : Registry) : Prop :=
  ∀ app role c, registry.find? app role = some c → c.Versioned

namespace Registry

theorem Versioned.empty : Versioned {} := by
  intro app role c h
  cases role <;> cases h

theorem Versioned.register {registry : Registry} (h : registry.Versioned) (app : String)
    (role : Role) {c : Coordinate} (hc : c.Versioned) :
    (registry.register app role c).Versioned := by
  intro app' role' c' hfound
  have hcases : registry.find? app' role' = some c' ∨ c' = c := by
    unfold find? Registry.register at hfound
    cases role <;> cases role' <;>
      simp only [setApps, apps, StringMap.get?_insert] at hfound <;>
      first
        | exact .inl hfound
        | (split at hfound
           · exact .inr (Option.some.inj hfound).symm
           · exact .inl hfound)
  rcases hcases with hfound | rfl
  · exact h app' role' c' hfound
  · exact hc

end Registry

/-! ### Overrides -/

namespace Override

/-- What is said now about a stage goes before what was said. -/
theorem apply_spec {c : Coordinate} (h : c.Versioned) (p : Properties) (label : String)
    (pinned : Option String) (app deployer : Settings) :
    (ofProperties p label).apply (c.spec pinned app deployer) =
      c.spec ((p.pinned? label).or pinned) (app.overlay (p.forStage .app label))
        (deployer.overlay (p.forStage .deployer label)) := by
  unfold apply ofProperties
  cases p.pinned? label with
  | none => rfl
  | some new =>
      cases pinned with
      | none => rfl
      | some old =>
          have hpin := h.pinLocator_pin old new
          simpa [Coordinate.spec, Coordinate.pin] using hpin

theorem apply_of_isEmpty {o : Override} (h : o.isEmpty = true) (s : StageSpec) : o.apply s = s := by
  simp only [isEmpty, Bool.and_eq_true, StringMap.isEmpty_iff, Option.isNone_iff_eq_none] at h
  obtain ⟨⟨⟨happ, hdeployer⟩, hversion⟩, hcoordinate⟩ := h
  simp [apply, happ, hdeployer, hversion, hcoordinate]

end Override

theorem Overrides.get?_ofProperties (p : Properties) (labels : List String) (label : String) :
    (ofProperties p labels).get? label =
      if label ∈ labels then
        if (Override.ofProperties p label).isEmpty then none
        else some (Override.ofProperties p label)
      else none := by
  rw [← StringMap.get?_ofList_filterMap (fun l => if (Override.ofProperties p l).isEmpty then none
    else some (Override.ofProperties p l))]
  unfold ofProperties
  congr
  funext l
  dsimp only
  split <;> rfl

/-- What is said about the stages of a manifest, merged into it. -/
theorem Manifest.merge_ofProperties {m : Manifest} {labels : List String}
    (h : ∀ e ∈ m.entries, e.label ∈ labels) (p : Properties) :
    m.merge (Overrides.ofProperties p labels) = ⟨m.entries.map fun e =>
      { e with spec := (Override.ofProperties p e.label).apply e.spec }⟩ := by
  refine congrArg Manifest.mk (List.map_congr_left fun e he => ?_)
  rw [Overrides.get?_ofProperties, if_pos (h e he)]
  cases hempty : (Override.ofProperties p e.label).isEmpty with
  | false => rfl
  | true => rw [Override.apply_of_isEmpty hempty]; rfl

end StreamPipeline
