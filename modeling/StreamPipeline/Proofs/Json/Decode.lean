import StreamPipeline.Format.Definition
import StreamPipeline.Proofs.Outcome
import StreamPipeline.Proofs.StringMap
import StreamPipeline.Proofs.Json.Written

/-!
# Reading values out of objects

A record is read by the names of its fields: in whatever order these stand, they are read, and each
is found (`Decoder.exists_fields`). A map of texts is read back from its value (`texts_ofTexts`), which is read back
from its own text (`reads_ofTexts`).
-/

namespace StreamPipeline.Json

variable {α : Type} {fields fields' : List (String × Json)}

theorem lookup_of_nodup {k : String} {v : Json} (h : (fields.map (·.1)).Nodup)
    (hmem : (k, v) ∈ fields) : fields.lookup k = some v := by
  obtain ⟨before, behind, rfl⟩ := List.append_of_mem hmem
  refine List.lookup_eq_some_iff.2 ⟨before, behind, rfl, fun e he => ?_⟩
  rw [List.map_append, List.map_cons, List.nodup_append] at h
  exact bne_iff_ne.2 fun hk => h.2.2 _ (List.mem_map_of_mem he) _ (by simp) hk.symm

/-- Fields that are all of a record and distinct are read in whatever order they stand, and each of
them is found. -/
theorem Decoder.exists_fields (names : List String) (read : Fields → Option α)
    (hp : fields.Perm fields') (h : (fields'.map (·.1)).Nodup)
    (hnames : ∀ e ∈ fields', e.1 ∈ names) :
    ∃ r : Fields, Decoder.record names read (.object fields) = read r ∧
      ∀ e ∈ fields', r.get? e.1 = some e.2 := by
  have hnodup : (fields.map (·.1)).Nodup := (hp.map _).nodup_iff.2 h
  have hknown : fields.filter (names.contains ·.1) = fields :=
    List.filter_eq_self.2 fun e he => List.contains_iff_mem.2 (hnames e (hp.mem_iff.1 he))
  refine ⟨⟨fields, false⟩, ?_, fun e he => lookup_of_nodup hnodup (hp.mem_iff.2 he)⟩
  unfold Decoder.record
  simp only [hknown]
  exact if_pos hnodup

theorem Decoder.texts_ofTexts (m : StringMap String) : Decoder.texts (ofTexts m) = some m := by
  have hentries := List.mapM_map_eq_pure (m := Option) (f := fun e => (e.1, Json.string e.2))
    (g := fun e : String × Json => (Decoder.text e.2).map (e.1, ·)) (h := id) m.toList fun _ _ => rfl
  rw [List.map_id] at hentries
  simp [Decoder.texts, Decoder.map, ofTexts, hentries, StringMap.ofList_toList]

/-- The entries of a map stand in the order in which they are written. -/
theorem reads_ofTexts (m : StringMap String) : Reads (ofTexts m) (ofTexts m) := by
  have hsorted : byName (m.toList.map fun e => (e.1, Json.string e.2)) =
      m.toList.map fun e => (e.1, .string e.2) := by
    refine List.mergeSort_of_pairwise (List.pairwise_map.2 (m.sorted.imp fun h => ?_))
    exact decide_eq_true (Std.le_of_lt h)
  have h : List.Forall₂ ReadsField
      (m.toList.map fun e => (e.1, Json.string e.2)) (m.toList.map fun e => (e.1, .string e.2)) := by
    rw [List.forall₂_map_left_iff, List.forall₂_map_right_iff, List.forall₂_same]
    exact fun e _ => (reads_string e.2).field e.1
  have hreads := reads_object h
  rwa [hsorted] at hreads

end StreamPipeline.Json
