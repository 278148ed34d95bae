import StreamPipeline.Proofs.StringMap
import StreamPipeline.Properties

/-!
# What properties say about a stage

A look-up in what keys of a family say is a look-up of the whole key (`get?_under`). So what
properties laid over others say about a stage is what they say laid over what the others say
(`forStage_overlay`), unless they speak of every stage: what is said about every stage never wins
over what is said about one.

Where labels have no dots, a key that speaks of one stage by its label says nothing about another
one (`forStage_congr`).
-/

namespace StreamPipeline

namespace Properties

/-! ### Look-ups -/

theorem restAfter?_eq_some_iff {start s rest : String} :
    restAfter? start s = some rest ↔ rest ≠ "" ∧ s = start ++ rest := by
  have htext : s = start ++ rest ↔ s.toList = start.toList ++ rest.toList := by
    rw [← String.toList_append, String.toList_inj]
  unfold restAfter?
  simp only [htext]
  constructor
  · intro h
    split at h
    · rename_i hstart
      obtain ⟨hplaced, hlength⟩ := Bool.and_eq_true_iff.1 hstart
      obtain ⟨t, ht⟩ := List.isPrefixOf_iff_prefix.1 hplaced
      rw [← ht] at h hlength ⊢
      cases h
      refine ⟨fun he => ?_, by simp⟩
      have hnil : (start.toList ++ t).drop start.toList.length = [] :=
        String.ofList_eq_empty_iff.1 he
      simp only [List.drop_left] at hnil
      simp [hnil] at hlength
    · cases h
  · rintro ⟨hne, h⟩
    have hlength : 0 < rest.toList.length :=
      List.length_pos_iff.2 fun he => hne (String.toList_eq_nil_iff.1 he)
    rw [if_pos (by simpa [h] using hlength)]
    simp [h]

theorem get?_under (p : Properties) (start key : String) :
    (p.under start).get? key = if key = "" then none else p.get? (start ++ key) := by
  rw [under, StringMap.get?_ofList, StringMap.lookupLast, ← List.filterMap_reverse]
  split
  · refine StringMap.lookup_filterMap_none (fun s hs => ?_) _
    exact (restAfter?_eq_some_iff.1 hs).1 ‹_›
  · refine (StringMap.lookup_filterMap (j := start ++ key) (fun s => ?_) _).trans ?_
    · rw [restAfter?_eq_some_iff, and_iff_right ‹_›]
    · exact StringMap.lookupLast_of_sorted p.sorted _

theorem under_overlay (p u : Properties) (start : String) :
    under (p.overlay u) start = (p.under start).overlay (u.under start) := by
  refine StringMap.ext_get? fun key => ?_
  simp only [get?_under, StringMap.get?_overlay]
  split <;> rfl

/-- Nothing is said where no key starts so. -/
theorem under_eq_empty {p : Properties} {start : String}
    (h : ∀ key, start.toList <+: key.toList → p.get? key = none) : p.under start = ∅ := by
  refine StringMap.ext_get? fun key => ?_
  rw [get?_under]
  split
  · rfl
  · exact h _ ⟨key.toList, (String.toList_append ..).symm⟩

/-! ### Stages -/

/-- What a family says about a stage by its label, or else about every stage. -/
theorem get?_forStage (p : Properties) (f : Family) (label : String) {key : String} (h : key ≠ "") :
    (p.forStage f label).get? key =
      (p.get? (f.start label ++ key)).or (p.get? (f.start everyStage ++ key)) := by
  rw [forStage, StringMap.get?_overlay, get?_under, get?_under, if_neg h, if_neg h]

/-- What is said over what was said before about a stage. -/
theorem forStage_overlay (p : Properties) {u : Properties} {f : Family}
    (h : u.under (f.start everyStage) = ∅) (label : String) :
    forStage (p.overlay u) f label = (p.forStage f label).overlay (u.forStage f label) := by
  unfold forStage
  rw [under_overlay, under_overlay, h, StringMap.overlay_empty, StringMap.empty_overlay,
    StringMap.overlay_assoc]

/-- A pin that is not blank goes before an earlier one. -/
theorem pinned?_overlay (p : Properties) {u : Properties} {label : String}
    (h : ∀ v, u.get? (versionKey label) = some v → Text.trim v ≠ "") :
    pinned? (p.overlay u) label = (u.pinned? label).or (p.pinned? label) := by
  unfold pinned?
  rw [StringMap.get?_overlay]
  cases hv : u.get? (versionKey label) with
  | none => rfl
  | some v =>
      have hshown : (!(Text.trim v).isEmpty) = true := by simpa using h v hv
      simp [Option.filter, hshown]

/-- What nobody says about the release as a whole is not said by both together. -/
theorem packageVersion?_overlay {p u : Properties} (h : u.packageVersion? = none) :
    packageVersion? (p.overlay u) = p.packageVersion? := by
  unfold packageVersion? at h ⊢
  rw [StringMap.get?_overlay, h, Option.none_or]

/-! ### Stages that are not spoken of -/

/-- Texts without a dot are told apart by what stands in front of the first dot. -/
theorem eq_of_dot_isPrefix {a b x y : List Char} (ha : '.' ∉ a) (hb : '.' ∉ b)
    (h : a ++ '.' :: x <+: b ++ '.' :: y) : a = b ∧ x <+: y := by
  induction a generalizing b with
  | nil =>
      cases b with
      | nil => exact ⟨rfl, (List.cons_prefix_cons.1 h).2⟩
      | cons c b =>
          obtain ⟨rfl, -⟩ := List.cons_prefix_cons.1 h
          exact absurd (List.mem_cons_self ..) hb
  | cons c a ih =>
      rw [List.mem_cons, not_or] at ha
      cases b with
      | nil => exact absurd (List.cons_prefix_cons.1 h).1.symm ha.1
      | cons d b =>
          rw [List.mem_cons, not_or] at hb
          obtain ⟨rfl, hrest⟩ := List.cons_prefix_cons.1 h
          obtain ⟨rfl, hbehind⟩ := ih ha.2 hb.2 hrest
          exact ⟨rfl, hbehind⟩

/-- The word in front of the first dot in the keys of a family. -/
def Family.word : Family → String
  | .app => "app"
  | .deployer => "deployer"

theorem Family.toList_start (f : Family) (label : String) :
    (f.start label).toList = f.word.toList ++ '.' :: (label.toList ++ ['.']) := by
  cases f <;> simp [start, text, word]

theorem Family.dot_notMem_word (f : Family) : '.' ∉ f.word.toList := by
  cases f <;> decide

theorem toList_versionKey (label : String) :
    (versionKey label).toList = "version".toList ++ '.' :: label.toList := by
  simp [versionKey]

theorem names_eq_false_iff {label key : String} : names label key = false ↔
    (∀ f : Family, ¬ (f.start label).toList <+: key.toList) ∧ key ≠ versionKey label := by
  have hfamilies : (∀ f : Family, ¬ (f.start label).toList <+: key.toList) ↔
      ¬ (Family.app.start label).toList <+: key.toList ∧
        ¬ (Family.deployer.start label).toList <+: key.toList :=
    ⟨fun h => ⟨h .app, h .deployer⟩, fun h f => by cases f; exacts [h.1, h.2]⟩
  rw [hfamilies]
  simp [names, ← List.isPrefixOf_iff_prefix, and_assoc]

/-- What a family says about one stage is not said about another one. -/
theorem names_start {l m : String} (hl : '.' ∉ l.toList) (hm : '.' ∉ m.toList) (hne : m ≠ l)
    (f : Family) (key : String) : names l (f.start m ++ key) = false := by
  have hkey : (f.start m ++ key).toList =
      f.word.toList ++ '.' :: (m.toList ++ '.' :: key.toList) := by
    simp [f.toList_start]
  refine names_eq_false_iff.2 ⟨fun g h => ?_, fun h => ?_⟩
  · rw [hkey, g.toList_start] at h
    have hlabels := (eq_of_dot_isPrefix g.dot_notMem_word f.dot_notMem_word h).2
    exact hne (String.toList_inj.1 (eq_of_dot_isPrefix hl hm hlabels).1.symm)
  · have hsame : f.word.toList ++ '.' :: (m.toList ++ '.' :: key.toList) =
        "version".toList ++ '.' :: l.toList := by
      rw [← hkey, h, toList_versionKey]
    have hword := (eq_of_dot_isPrefix f.dot_notMem_word (by decide)
      (hsame.subst (motive := (_ <+: ·)) List.prefix_rfl)).1
    revert hword
    cases f <;> decide

/-- The pin of one stage pins no other one. -/
theorem names_versionKey {l m : String} (hne : m ≠ l) : names l (versionKey m) = false := by
  refine names_eq_false_iff.2 ⟨fun f h => ?_, fun h => hne ((String.append_right_inj _).1 h)⟩
  rw [f.toList_start, toList_versionKey] at h
  have hword := (eq_of_dot_isPrefix f.dot_notMem_word (by decide) h).1
  revert hword
  cases f <;> decide

variable {p q : Properties} {l m : String}

/-- Where only what speaks of one stage by its label differs, the same is said about another one. -/
theorem forStage_congr (h : ∀ key, names l key = false → p.get? key = q.get? key)
    (hl : '.' ∉ l.toList ∧ l ≠ everyStage) (hm : '.' ∉ m.toList) (hne : m ≠ l) (f : Family) :
    p.forStage f m = q.forStage f m := by
  refine StringMap.ext_get? fun key => ?_
  by_cases hkey : key = ""
  · simp [forStage, StringMap.get?_overlay, get?_under, hkey]
  · rw [get?_forStage p f m hkey, get?_forStage q f m hkey, h _ (names_start hl.1 hm hne f key),
      h _ (names_start hl.1 (by decide) (Ne.symm hl.2) f key)]

theorem pinned?_congr (h : ∀ key, names l key = false → p.get? key = q.get? key) (hne : m ≠ l) :
    p.pinned? m = q.pinned? m := by
  unfold pinned?
  rw [h _ (names_versionKey hne)]

end Properties

end StreamPipeline
