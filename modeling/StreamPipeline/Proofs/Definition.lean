import StreamPipeline.Definition.Typing
import StreamPipeline.Proofs.Outcome
import StreamPipeline.Proofs.Pointwise
import StreamPipeline.Proofs.StringMap

/-!
# Definitions and their bindings

Two stages are alike in a pipeline if they have the same label, run the same app and are bound
alike, whatever else configures them (`Stage.Like`). New settings leave stages alike
(`like_withSettings`), and stages that are alike one by one have the same roles (`roles_of_like`).

A definition is well formed if its name is one, it has stages, and their labels are distinct
(`Definition.WellFormed`); that is what the check asks for (`check_eq_ok_iff`).
-/

namespace StreamPipeline

namespace Stage

/-- The stages have the same label, run the same app, and are bound alike. -/
structure Like (a b : Stage) : Prop where
  label : b.label = a.label
  app : b.app = a.app
  binding : ∀ key, Binding.isBinding key = true → b.properties.get? key = a.properties.get? key

namespace Like

variable {a b c : Stage}

theorem refl (a : Stage) : Like a a := ⟨rfl, rfl, fun _ _ => rfl⟩

theorem trans (h : Like a b) (h' : Like b c) : Like a c :=
  ⟨h'.label.trans h.label, h'.app.trans h.app,
    fun key hkey => (h'.binding key hkey).trans (h.binding key hkey)⟩

theorem hasInput (h : Like a b) : b.hasInput = a.hasInput := by
  unfold Stage.hasInput input?
  rw [h.binding _ (by decide)]

theorem hasOutput (h : Like a b) : b.hasOutput = a.hasOutput := by
  unfold Stage.hasOutput output?
  rw [h.binding _ (by decide)]

theorem role (h : Like a b) (pipeline : String) (followers : Nat) (isFollower : Bool) :
    b.role pipeline followers isFollower = a.role pipeline followers isFollower := by
  unfold Stage.role
  rw [h.hasInput, h.hasOutput, h.label]

end Like

/-- Stages that are alike one by one have the same roles. -/
theorem roles_of_like {pipeline : String} {isFollower : Bool} {stages stages' : List Stage}
    (h : List.Forall₂ Like stages stages') :
    roles pipeline isFollower stages' = roles pipeline isFollower stages := by
  induction h generalizing isFollower with
  | nil => rfl
  | cons hs hr ih => rw [roles, roles, hs.role, hr.length_eq, ih]

theorem get?_withSettings (s : Stage) (settings : Settings) (key : String) :
    (s.withSettings settings).properties.get? key =
      if Binding.isBinding key then s.properties.get? key else settings.get? key := by
  unfold withSettings
  rw [StringMap.get?_overlay, StringMap.get?_filterKeys, StringMap.get?_filterKeys]
  cases Binding.isBinding key <;> simp

/-- New settings leave it at how a stage is bound. -/
theorem like_withSettings (s : Stage) (settings : Settings) : Like s (s.withSettings settings) :=
  ⟨rfl, rfl, fun key hkey => by rw [get?_withSettings, if_pos hkey]⟩

/-- Settings by which the stage is bound as it is take the place of all that configures it. -/
theorem withSettings_eq {s : Stage} {settings : Settings}
    (h : ∀ key, Binding.isBinding key = true → settings.get? key = s.properties.get? key) :
    s.withSettings settings = { s with properties := settings } := by
  have hproperties : (s.withSettings settings).properties = settings := by
    refine StringMap.ext_get? fun key => ?_
    rw [get?_withSettings]
    split
    · exact (h key ‹_›).symm
    · rfl
  exact congrArg (fun properties => { s with properties }) hproperties

end Stage

namespace Definition

variable {d : Definition}

theorem like_withSettings (d : Definition) (updates : StringMap Settings) :
    List.Forall₂ Stage.Like d.stages (d.withSettings updates).stages := by
  show List.Forall₂ Stage.Like d.stages (d.stages.map _)
  rw [List.forall₂_map_right_iff, List.forall₂_same]
  intro s _
  split
  · exact s.like_withSettings _
  · exact .refl s

theorem firstRepeated?_eq_none_iff {seen labels : List String} :
    firstRepeated? seen labels = none ↔ labels.Nodup ∧ ∀ l ∈ labels, l ∉ seen := by
  induction labels generalizing seen with
  | nil => simp [firstRepeated?]
  | cons l r ih =>
      unfold firstRepeated?
      by_cases hl : l ∈ seen
      · simp [hl]
      · rw [if_neg (by simpa using hl), ih, List.nodup_cons]
        constructor
        · rintro ⟨hr, hnew⟩
          refine ⟨⟨fun hmem => hnew l hmem (by simp), hr⟩, fun m hm => ?_⟩
          rcases List.mem_cons.1 hm with rfl | hm
          · exact hl
          · exact fun hseen => hnew m hm (by simp [hseen])
        · rintro ⟨⟨hnew, hr⟩, hseen⟩
          refine ⟨hr, fun m hm hmem => ?_⟩
          rcases List.mem_cons.1 hmem with rfl | hmem
          · exact hnew hm
          · exact hseen m (by simp [hm]) hmem

/-- The name begins with a letter, behind which stand letters, digits, dashes and lines below, and is
not too long. -/
structure IsWellNamed (name : String) : Prop where
  short : name.utf8ByteSize ≤ longestName
  form : ∃ c r, name.toList = c :: r ∧ c.isAlpha = true ∧
    ∀ x ∈ r, x.isAlphanum = true ∨ x = '_' ∨ x = '-'

theorem isName_iff {name : String} : isName name = true ↔ IsWellNamed name := by
  constructor
  · intro h
    obtain ⟨hshort, hform⟩ := Bool.and_eq_true_iff.1 h
    split at hform
    · cases hform
    · rename_i c r hname
      obtain ⟨hc, hr⟩ := Bool.and_eq_true_iff.1 hform
      refine ⟨of_decide_eq_true hshort, c, r, hname, hc, fun x hx => ?_⟩
      simpa [isNameChar, or_assoc] using List.all_eq_true.1 hr x hx
  · rintro ⟨hshort, c, r, hname, hc, hr⟩
    refine Bool.and_eq_true_iff.2 ⟨decide_eq_true hshort, ?_⟩
    rw [hname]
    refine Bool.and_eq_true_iff.2 ⟨hc, List.all_eq_true.2 fun x hx => ?_⟩
    simpa [isNameChar, or_assoc] using hr x hx

/-- A definition as it has to be: well named, with stages, and with distinct labels. -/
structure WellFormed (d : Definition) : Prop where
  name : IsWellNamed d.name
  stages : d.stages ≠ []
  labels : d.labels.Nodup

theorem checkShape_eq_ok_iff {name : String} {stages : List Stage} :
    checkShape name stages = .ok () ↔ IsWellNamed name ∧ stages ≠ [] := by
  unfold checkShape
  rw [← isName_iff, ← List.isEmpty_eq_false_iff]
  cases isName name <;> cases stages.isEmpty <;> simp

theorem checkShape_eq_error {name : String} {stages : List Stage} {f : Failure}
    (h : checkShape name stages = .error f) : ∃ flaw, f = .invalid name flaw := by
  unfold checkShape at h
  split at h
  · exact ⟨_, (Except.error.inj h).symm⟩
  · split at h
    · exact ⟨_, (Except.error.inj h).symm⟩
    · cases h

/-- The check lets through what is well formed, as it is. -/
theorem check_eq_ok_iff {d' : Definition} : d.check = .ok d' ↔ d.WellFormed ∧ d' = d := by
  unfold check
  rw [Except.bind_eq_ok_iff]
  constructor
  · rintro ⟨⟨⟩, hshape, h⟩
    obtain ⟨hname, hstages⟩ := checkShape_eq_ok_iff.1 hshape
    split at h
    · cases h
    · rename_i hlabels
      exact ⟨⟨hname, hstages, (firstRepeated?_eq_none_iff.1 hlabels).1⟩, (Except.ok.inj h).symm⟩
  · rintro ⟨⟨hname, hstages, hlabels⟩, rfl⟩
    refine ⟨(), checkShape_eq_ok_iff.2 ⟨hname, hstages⟩, ?_⟩
    have hnone : firstRepeated? [] (d'.stages.map (·.label)) = none :=
      firstRepeated?_eq_none_iff.2 ⟨hlabels, fun _ _ hseen => nomatch hseen⟩
    rw [hnone]

/-- What the check refuses, it refuses under the name of the pipeline. -/
theorem check_eq_error {f : Failure} (h : d.check = .error f) :
    ∃ flaw, f = .invalid d.name flaw := by
  rcases Except.bind_eq_error_iff.1 h with h | ⟨⟨⟩, -, h⟩
  · exact checkShape_eq_error h
  · split at h
    · exact ⟨_, (Except.error.inj h).symm⟩
    · cases h

/-- New settings leave a definition well formed. -/
theorem WellFormed.withSettings (h : d.WellFormed) (updates : StringMap Settings) :
    (d.withSettings updates).WellFormed := by
  have hlike := like_withSettings d updates
  have hlabels : d.labels = (d.withSettings updates).labels :=
    map_eq_map_of_forall₂ (hlike.imp fun _ _ h => h.label.symm)
  refine ⟨h.name, fun hstages => h.stages ?_, hlabels ▸ h.labels⟩
  exact List.length_eq_zero_iff.1 (hlike.length_eq.trans (List.length_eq_zero_iff.2 hstages))

end Definition

end StreamPipeline
