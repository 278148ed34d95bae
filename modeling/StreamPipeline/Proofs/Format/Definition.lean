import StreamPipeline.Proofs.Draft
import StreamPipeline.Proofs.Json.Decode
import StreamPipeline.Samples

/-!
# Definitions stay well formed

A definition is read back from its value and from its text (`Definition.ofJson_json`,
`Definition.ofText_json`), as any that is well formed is read and no other (`Definition.ofJson_eq`).
What can be had of definitions is what is built from a draft or read (`Definition.Made`).
**`stays_well_formed`**: it is well formed, and new settings for its stages, whatever they are,
leave it so; they change neither the name nor the labels, apps and bindings of the stages, and what
comes out of them is read back from what is written of it.
-/

namespace StreamPipeline

open Json

/-! ### Stages -/

theorem Stage.decoder_eq (s : Stage) {fields : List (String × Json)}
    (hp : fields.Perm [("label", string s.label), ("app_name", string s.app),
      ("properties", ofTexts s.properties)]) :
    Stage.decoder (.object fields) = some s := by
  obtain ⟨r, hr, hget⟩ := Decoder.exists_fields ["label", "app_name", "properties"] _ hp
    (by simp) (by simp)
  simp only [List.forall_mem_cons] at hget
  obtain ⟨hlabel, happ, hproperties, -⟩ := hget
  refine hr.trans ?_
  simp [Fields.required, Fields.withDefault, hlabel, happ, hproperties, Decoder.text,
    Decoder.texts_ofTexts]

/-- A stage is read back from its value and from its text. -/
theorem Stage.reads_json (s : Stage) :
    Stage.decoder s.json = some s ∧ ∃ v, Reads s.json v ∧ Stage.decoder v = some s := by
  have hread := reads_object (.cons ((reads_string s.label).field "label")
    (.cons ((reads_string s.app).field "app_name")
    (.cons ((reads_ofTexts s.properties).field "properties") .nil)))
  exact ⟨s.decoder_eq (.refl _), _, hread, s.decoder_eq (List.mergeSort_perm ..)⟩

/-! ### Definitions -/

namespace Definition

variable {d : Definition}

theorem rawDecoder_eq (d : Definition) {fields : List (String × Json)} {stages : List Json}
    (hp : fields.Perm [("name", string d.name), ("dsl_text", string d.text),
      ("stages", array stages)])
    (hstages : stages.mapM Stage.decoder = some d.stages) : rawDecoder (.object fields) = some d := by
  obtain ⟨r, hr, hget⟩ := Decoder.exists_fields ["name", "dsl_text", "stages"] _ hp
    (by simp) (by simp)
  simp only [List.forall_mem_cons] at hget
  obtain ⟨hname, htext, hget, -⟩ := hget
  refine hr.trans ?_
  simp [Fields.required, Fields.withDefault, hname, htext, hget, Decoder.text, Decoder.list, hstages]

/-- A definition is read back from its value, whatever it says. -/
theorem rawDecoder_json (d : Definition) : rawDecoder d.json = some d := by
  refine d.rawDecoder_eq (.refl _) ?_
  have h := List.mapM_map_eq_pure (m := Option) (h := id) d.stages fun s _ => s.reads_json.1
  rwa [List.map_id] at h

/-- A definition is read back from its text, whatever it says. -/
theorem exists_reads_json (d : Definition) : ∃ v, Reads d.json v ∧ rawDecoder v = some d := by
  choose v hreads hdecodes using fun s : Stage => s.reads_json.2
  have hstages : List.Forall₂ Reads (d.stages.map Stage.json) (d.stages.map v) := by
    rw [List.forall₂_map_left_iff, List.forall₂_map_right_iff, List.forall₂_same]
    exact fun s _ => hreads s
  have hread := reads_object (.cons ((reads_string d.name).field "name")
    (.cons ((reads_string d.text).field "dsl_text")
    (.cons ((reads_array hstages).field "stages") .nil)))
  refine ⟨_, hread, d.rawDecoder_eq (List.mergeSort_perm ..) ?_⟩
  have h := List.mapM_map_eq_pure (m := Option) (h := id) d.stages fun s _ => hdecodes s
  rwa [List.map_id] at h

/-- What is well formed is read as it is. -/
theorem WellFormed.ofJson_eq {v : Json} (h : d.WellFormed) (hv : rawDecoder v = some d) :
    ofJson v = .ok d := by
  simp [ofJson, hv, check_eq_ok_iff.2 ⟨h, rfl⟩]

/-- Only what is well formed is read. -/
theorem wellFormed_of_ofJson {v : Json} (h : ofJson v = .ok d) : d.WellFormed := by
  unfold ofJson at h
  split at h
  · cases h
  · split at h
    · cases h
    · obtain ⟨hraw, rfl⟩ := check_eq_ok_iff.1 h
      exact hraw

/-- What has the right shape and is not well formed is refused under the name that it gives. -/
theorem ofJson_eq_error {v : Json} (h : ¬ d.WellFormed) (hv : rawDecoder v = some d) :
    ∃ flaw, ofJson v = .error (.malformed (.definition d.name flaw)) := by
  cases hcheck : d.check with
  | ok d' => exact absurd (check_eq_ok_iff.1 hcheck).1 h
  | error f =>
      obtain ⟨flaw, rfl⟩ := check_eq_error hcheck
      exact ⟨flaw, by simp [ofJson, hv, hcheck]⟩

/-- What can be had of definitions: what is built from a draft, and what is read. -/
inductive Made : Definition → Prop
  | built {draft : Draft} {d : Definition} (h : draft.build = .ok d) : Made d
  | read {v : Json} {d : Definition} (h : ofJson v = .ok d) : Made d

theorem Made.wellFormed (h : Made d) : d.WellFormed := by
  cases h with
  | built h => exact Draft.wellFormed_of_build h
  | read h => exact wellFormed_of_ofJson h

/-- The definition with settings replaced again and again. -/
def withAllSettings (d : Definition) (updates : List (StringMap Settings)) : Definition :=
  updates.foldl withSettings d

theorem WellFormed.withAllSettings (h : d.WellFormed) (updates : List (StringMap Settings)) :
    (d.withAllSettings updates).WellFormed := by
  induction updates generalizing d with
  | nil => exact h
  | cons u updates ih => exact ih (h.withSettings u)

theorem name_withAllSettings (d : Definition) (updates : List (StringMap Settings)) :
    (d.withAllSettings updates).name = d.name := by
  induction updates generalizing d with
  | nil => rfl
  | cons u updates ih => exact ih (d.withSettings u)

theorem like_withAllSettings (d : Definition) (updates : List (StringMap Settings)) :
    List.Forall₂ Stage.Like d.stages (d.withAllSettings updates).stages := by
  induction updates generalizing d with
  | nil => exact List.forall₂_same.2 fun s _ => .refl s
  | cons u updates ih =>
      exact forall₂_comp (fun _ _ _ => .trans) (d.like_withSettings u) (ih (d.withSettings u))

/-- **Definitions stay well formed**: what is built or read is well formed after any settings have
taken the place of those that it had, with its name, and with stages that have the labels, apps and
bindings that they had; it is read back from its value and from its text. A value that has the shape
of a definition is read just if the definition is well formed, and as this definition. -/
theorem stays_well_formed :
    (∀ d, Made d → ∀ updates : List (StringMap Settings), ∀ d', d' = d.withAllSettings updates →
      d'.WellFormed ∧ d'.name = d.name ∧ List.Forall₂ Stage.Like d.stages d'.stages ∧
      ofJson d'.json = .ok d' ∧ ∃ v, Json.ofText? d'.json.render = some v ∧ ofJson v = .ok d') ∧
    ∀ v d, rawDecoder v = some d →
      (d.WellFormed ∧ ofJson v = .ok d) ∨
      (¬ d.WellFormed ∧ ∃ flaw, ofJson v = .error (.malformed (.definition d.name flaw))) := by
  constructor
  · rintro d hd updates d' rfl
    have hwell := hd.wellFormed.withAllSettings updates
    obtain ⟨v, hreads, hv⟩ := (d.withAllSettings updates).exists_reads_json
    exact ⟨hwell, d.name_withAllSettings updates, d.like_withAllSettings updates,
      hwell.ofJson_eq (rawDecoder_json _), v, hreads.ofText?_render, hwell.ofJson_eq hv⟩
  · intro v d hv
    by_cases hd : d.WellFormed
    · exact .inl ⟨hd, hd.ofJson_eq hv⟩
    · exact .inr ⟨hd, ofJson_eq_error hd hv⟩

/-- A pipeline with two stages of one label. -/
def twice : Definition := ⟨"twice", "time | time", [.ofApp "time", .ofApp "time"]⟩

/-- Settings that would bind the first stage elsewhere. -/
def elsewhere : StringMap Settings :=
  .ofList [("time", .ofList [("interval", "5"), (Binding.output, "elsewhere")])]

theorem stays_well_formed_ticktock :
    ∃ d, Samples.ticktock = .ok d ∧
      ((d.withAllSettings [elsewhere, ∅]).WellFormed ∧
        (d.withAllSettings [elsewhere, ∅]).name = d.name ∧
        List.Forall₂ Stage.Like d.stages (d.withAllSettings [elsewhere, ∅]).stages ∧
        ofJson (d.withAllSettings [elsewhere, ∅]).json = .ok (d.withAllSettings [elsewhere, ∅]) ∧
        ∃ v, Json.ofText? (d.withAllSettings [elsewhere, ∅]).json.render = some v ∧
          ofJson v = .ok (d.withAllSettings [elsewhere, ∅])) ∧
      rawDecoder twice.json = some twice ∧ ¬ twice.WellFormed ∧
      ∃ flaw, ofJson twice.json = .error (.malformed (.definition twice.name flaw)) := by
  have hlabels : ¬ twice.labels.Nodup := by decide
  obtain ⟨d, hd⟩ : ∃ d, Samples.ticktock = .ok d := Except.isOk_iff.1 (by decide +kernel)
  exact ⟨d, hd, stays_well_formed.1 d (.built hd) [elsewhere, ∅] _ rfl, rawDecoder_json twice,
    (stays_well_formed.2 twice.json twice (rawDecoder_json twice)).resolve_left
      fun h => hlabels h.1.labels⟩

end Definition

end StreamPipeline
