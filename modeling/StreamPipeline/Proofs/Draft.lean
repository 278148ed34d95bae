import Mathlib.Data.List.Perm.Subperm
import StreamPipeline.Definition.Draft
import StreamPipeline.Proofs.Definition
import StreamPipeline.Text.Decimal

/-!
# Definitions that are built

A label that is given to a stage is one that no stage before it has: of as many numbers as there are
labels, and one more, one is free (`freeLabel_notMem`). So the labels of what a draft asks for are
distinct (`nodup_of_assignLabels`), and since connecting the stages leaves their labels alone, a
definition that is built is well formed (`wellFormed_of_build`), though nobody checks it.
-/

namespace StreamPipeline

theorem Stage.label_setIfNew (s : Stage) (key value : String) :
    (s.setIfNew key value).label = s.label := rfl

theorem Stage.label_set (s : Stage) (key value : String) : (s.set key value).label = s.label := rfl

namespace Draft

variable {pipeline app : String} {used : List String} {stages stages' : List Stage}

/-! ### Labels -/

theorem numbered_inj (app : String) : Function.Injective (numbered app) :=
  fun _ _ h => Text.dash_repr_inj h

/-- Where the search ends at a label that is taken, it has seen none that is free. -/
theorem mem_of_freeNumber_mem {fuel n : Nat}
    (h : numbered app (freeNumber used app fuel n) ∈ used) :
    ∀ k ≤ fuel, numbered app (n + k) ∈ used := by
  induction fuel generalizing n with
  | zero =>
      intro k hk
      obtain rfl := Nat.le_zero.1 hk
      exact h
  | succ fuel ih =>
      unfold freeNumber at h
      split at h
      · rename_i hn
        intro k hk
        cases k with
        | zero => exact List.contains_iff_mem.1 hn
        | succ k =>
            rw [Nat.add_succ, ← Nat.succ_add]
            exact ih h k (by omega)
      · rename_i hn
        exact absurd (List.contains_iff_mem.2 h) hn

/-- The label for another stage is free: the numbers that are tried are one more than the labels
that can be taken. -/
theorem freeLabel_notMem (used : List String) (app : String) : freeLabel used app ∉ used := by
  intro h
  let tried := (List.range (used.length + 1)).map fun k => numbered app (2 + k)
  have hdistinct : tried.Nodup :=
    List.nodup_range.map fun _ _ h => Nat.add_left_cancel (numbered_inj app h)
  have htaken : tried ⊆ used := by
    intro l hl
    obtain ⟨k, hk, rfl⟩ := List.mem_map.1 hl
    exact mem_of_freeNumber_mem h k (Nat.lt_succ_iff.1 (List.mem_range.1 hk))
  have hlength := (hdistinct.subperm htaken).length_le
  simp only [tried, List.length_map, List.length_range] at hlength
  omega

/-- The first of some stages gets a label that is free, and with it the others get theirs. -/
theorem assignLabels_cons_eq_ok {s : Stage}
    (h : assignLabels pipeline used (s :: stages) = .ok stages') :
    ∃ label r, label ∉ used ∧ assignLabels pipeline (label :: used) stages = .ok r ∧
      stages' = { s with label } :: r := by
  unfold assignLabels at h
  split at h
  · split at h
    · cases h
    · obtain ⟨r, hr, h⟩ := Except.bind_eq_ok_iff.1 h
      exact ⟨_, r, freeLabel_notMem used s.app, hr, (Except.ok.inj h).symm⟩
  · rename_i hs
    obtain ⟨r, hr, h⟩ := Except.bind_eq_ok_iff.1 h
    exact ⟨s.label, r, fun hmem => hs (List.contains_iff_mem.2 hmem), hr, (Except.ok.inj h).symm⟩

/-- The labels that are given are distinct, and none of them was given before. -/
theorem nodup_of_assignLabels (h : assignLabels pipeline used stages = .ok stages') :
    (stages'.map (·.label)).Nodup ∧ ∀ l ∈ stages'.map (·.label), l ∉ used := by
  induction stages generalizing used stages' with
  | nil =>
      cases h
      simp
  | cons s stages ih =>
      obtain ⟨label, r, hlabel, hr, rfl⟩ := assignLabels_cons_eq_ok h
      obtain ⟨hnodup, hnew⟩ := ih hr
      refine ⟨List.nodup_cons.2 ⟨fun hmem => hnew _ hmem (by simp), hnodup⟩, fun l hl => ?_⟩
      rcases List.mem_cons.1 hl with rfl | hl
      · exact hlabel
      · exact fun hused => hnew l hl (List.mem_cons_of_mem _ hused)

/-- Nothing but its label is new about a stage. -/
theorem exists_assigned {s : Stage} {i : Nat}
    (h : assignLabels pipeline used stages = .ok stages') (hs : stages[i]? = some s) :
    ∃ label, stages'[i]? = some { s with label } := by
  induction stages generalizing used stages' i with
  | nil => cases hs
  | cons t stages ih =>
      obtain ⟨label, r, -, hr, rfl⟩ := assignLabels_cons_eq_ok h
      cases i with
      | zero =>
          obtain rfl := Option.some.inj hs
          exact ⟨label, rfl⟩
      | succ i =>
          simp only [List.getElem?_cons_succ] at hs ⊢
          exact ih hr hs

theorem length_assignLabels (h : assignLabels pipeline used stages = .ok stages') :
    stages'.length = stages.length := by
  induction stages generalizing used stages' with
  | nil =>
      cases h
      rfl
  | cons s stages ih =>
      obtain ⟨label, r, -, hr, rfl⟩ := assignLabels_cons_eq_ok h
      exact congrArg (· + 1) (ih hr)

/-! ### Bindings -/

theorem label_consuming (pipeline : String) (dest : Option String) (s : Stage) :
    (consuming pipeline dest s).label = s.label := by
  cases dest <;> rfl

theorem labels_wire (pipeline : String) (dest : Option String) (stages : List Stage) :
    (wire pipeline dest stages).map (·.label) = stages.map (·.label) := by
  induction stages generalizing dest with
  | nil => rfl
  | cons s r ih =>
      cases r with
      | nil => simp [wire, label_consuming]
      | cons t r => simp [wire, ih, Stage.label_setIfNew, label_consuming]

theorem labels_consumeFrom (pipeline : String) (source : Option String) (stages : List Stage) :
    (consumeFrom pipeline source stages).map (·.label) = stages.map (·.label) := by
  cases stages <;> cases source <;> simp [consumeFrom, Stage.label_setIfNew, Stage.label_set]

theorem labels_publishTo (target : Option String) (stages : List Stage) :
    (publishTo target stages).map (·.label) = stages.map (·.label) := by
  induction stages with
  | nil => rfl
  | cons s r ih =>
      cases r with
      | nil => cases target <;> simp [publishTo, Stage.label_set]
      | cons t r => simp [publishTo, ih]

/-! ### Definitions that are built -/

/-- The stages of a definition, made of labelled ones. -/
def joined (draft : Draft) (labelled : List Stage) : List Stage :=
  publishTo draft.target (consumeFrom draft.name draft.source (wire draft.name none labelled))

/-- Of the stages the labels count, and connecting them leaves these alone. -/
theorem labels_joined (draft : Draft) (labelled : List Stage) :
    (draft.joined labelled).map (·.label) = labelled.map (·.label) := by
  unfold joined
  rw [labels_publishTo, labels_consumeFrom, labels_wire]

theorem length_joined (draft : Draft) (labelled : List Stage) :
    (draft.joined labelled).length = labelled.length := by
  simpa using congrArg List.length (labels_joined draft labelled)

variable {draft : Draft} {d : Definition}

/-- A definition that is built has a shape that was checked, and the draft's stages with labels of
their own, each connected to the next and its ends bound last. -/
theorem exists_of_build (h : draft.build = .ok d) :
    Definition.checkShape draft.name draft.stages = .ok () ∧
      ∃ labelled, assignLabels draft.name [] draft.stages = .ok labelled ∧
        d = { name := draft.name, text := draft.text, stages := draft.joined labelled } := by
  obtain ⟨⟨⟩, hshape, h⟩ := Except.bind_eq_ok_iff.1 h
  obtain ⟨labelled, hlabelled, h⟩ := Except.bind_eq_ok_iff.1 h
  exact ⟨hshape, labelled, hlabelled, (Except.ok.inj h).symm⟩

/-- A definition that is built is well formed. -/
theorem wellFormed_of_build (h : draft.build = .ok d) : d.WellFormed := by
  obtain ⟨hshape, labelled, hlabelled, rfl⟩ := exists_of_build h
  obtain ⟨hname, hne⟩ := Definition.checkShape_eq_ok_iff.1 hshape
  refine ⟨hname, fun hnil => hne (List.length_eq_zero_iff.1 ?_), ?_⟩
  · rw [← length_assignLabels hlabelled, ← length_joined draft]
    exact congrArg List.length hnil
  · show ((draft.joined labelled).map (·.label)).Nodup
    rw [labels_joined]
    exact (nodup_of_assignLabels hlabelled).1

end Draft

end StreamPipeline
