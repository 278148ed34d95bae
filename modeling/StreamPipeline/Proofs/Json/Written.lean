import Mathlib.Data.List.Forall2
import StreamPipeline.Json.Printer
import StreamPipeline.Json.Reader
import StreamPipeline.Proofs.Outcome

/-!
# Reading what was written

A text between its quotes is read back (`text_writtenText`). `Json.Reads v w` says that the reader
makes `w` of the text of `v`, whatever stands behind it. There is one rule for each kind of value:
an array is read item by item (`reads_array`), an object by name, for so its fields are written
(`reads_object`).
-/

namespace StreamPipeline.Json

/-! ### Texts -/

/-- The four digits of a character that has no other form. -/
theorem hex4_padded : ∀ n < 0x20,
    hex4 (List.replicate (4 - (Nat.toDigits 16 n).length) '0' ++ Nat.toDigits 16 n) = some (n, []) := by
  decide

theorem hex4_append {cs : List Char} {n : Nat} (h : hex4 cs = some (n, [])) (r : List Char) :
    hex4 (cs ++ r) = some (n, r) := by
  unfold hex4 at h
  split at h
  · simp only [Option.bind_eq_bind, Option.bind_eq_some_iff, Option.pure_def, Option.some.injEq,
      Prod.mk.injEq] at h
    obtain ⟨a, ha, b, hb, c, hc, d, hd, rfl, rfl⟩ := h
    simp [hex4, ha, hb, hc, hd]
  · cases h

/-- A character is written behind a backslash, by its number, or as it is. -/
theorem writtenChar_cases (c : Char) :
    (∃ d, writtenChar c = ['\\', d] ∧ shortEscape? d = some c) ∨
    (∃ digits, writtenChar c = '\\' :: 'u' :: digits ∧ c.toNat < 0x20 ∧
      hex4 digits = some (c.toNat, [])) ∨
    (writtenChar c = [c] ∧ c ≠ '"' ∧ c ≠ '\\' ∧ ¬ c.toNat < 0x20) := by
  by_cases hshort : c ∈ ['"', '\\', '\n', '\r', '\t']
  · refine .inl ?_
    simp only [List.mem_cons, List.not_mem_nil, or_false] at hshort
    rcases hshort with rfl | rfl | rfl | rfl | rfl
    · exact ⟨'"', by decide, by decide⟩
    · exact ⟨'\\', by decide, by decide⟩
    · exact ⟨'n', by decide, by decide⟩
    · exact ⟨'r', by decide, by decide⟩
    · exact ⟨'t', by decide, by decide⟩
  · refine .inr ?_
    simp only [List.mem_cons, List.not_mem_nil, or_false, not_or] at hshort
    obtain ⟨hquote, hslash, hn, hr, ht⟩ := hshort
    by_cases hlow : c.toNat < 0x20
    · exact .inl ⟨_, by simp [writtenChar, *], hlow, hex4_padded _ hlow⟩
    · exact .inr ⟨by simp [writtenChar, *], hquote, hslash, hlow⟩

/-- A character is read back. -/
theorem textBody_writtenChar (c : Char) (fuel : Nat) (acc r : List Char) :
    textBody (fuel + 1) (some acc) (writtenChar c ++ r) = textBody fuel (some (c :: acc)) r := by
  rcases writtenChar_cases c with ⟨d, hc, hshort⟩ | ⟨digits, hc, hlow, hdigits⟩ |
    ⟨hc, hquote, hslash, hlow⟩
  · have hd : d ≠ 'u' := by
      rintro rfl
      cases hshort
    rw [hc]
    simp [textBody, hshort]
  · have hvalid : c.toNat < 0xD800 := by omega
    rw [hc]
    simp [textBody, hex4_append hdigits, hvalid, Char.ofNat_toNat]
  · rw [hc]
    simp [textBody, hquote, hslash, hlow]

/-- A text is read back up to its closing quote. -/
theorem textBody_written (cs acc r : List Char) {fuel : Nat} (hfuel : cs.length < fuel) :
    textBody fuel (some acc) (cs.flatMap writtenChar ++ '"' :: r) =
      some (some (cs.reverse ++ acc), r) := by
  induction cs generalizing acc fuel with
  | nil =>
      obtain ⟨fuel, rfl⟩ := Nat.exists_eq_add_one.2 hfuel
      simp [textBody]
  | cons c cs ih =>
      obtain ⟨fuel, rfl⟩ := Nat.exists_eq_add_one.2 (Nat.zero_lt_of_lt hfuel)
      rw [List.flatMap_cons, List.append_assoc, textBody_writtenChar, ih _ (Nat.lt_of_succ_lt_succ hfuel)]
      simp

theorem length_le_writtenChars (cs : List Char) : cs.length ≤ (cs.flatMap writtenChar).length := by
  induction cs with
  | nil => simp
  | cons c cs ih =>
      have hpos : 0 < (writtenChar c).length := by
        rcases writtenChar_cases c with ⟨d, hc, -⟩ | ⟨digits, hc, -⟩ | ⟨hc, -⟩ <;> simp [hc]
      simp only [List.flatMap_cons, List.length_append, List.length_cons]
      omega

theorem toList_writtenText (s : String) :
    (writtenText s).toList = '"' :: (s.toList.flatMap writtenChar ++ ['"']) :=
  String.toList_ofList ..

/-- A text is read back from behind its opening quote. -/
theorem text_written (s : String) (r : List Char) :
    text (s.toList.flatMap writtenChar ++ '"' :: r) = some (some s, r) := by
  have hfuel : s.toList.length < (s.toList.flatMap writtenChar ++ '"' :: r).length + 1 := by
    have := length_le_writtenChars s.toList
    simp only [List.length_append]
    omega
  unfold text
  rw [textBody_written _ _ _ hfuel]
  simp

/-! ### Values -/

/-- The reader makes `w` of the text of `v`, whatever stands behind it. -/
structure Reads (v w : Json) : Prop where
  opens : ∃ c r, v.render.toList = c :: r ∧ isSpace c = false ∧ c ≠ ']'
  value : ∀ (fuel : Nat) (r : List Char), v.render.length ≤ fuel →
    Json.value fuel (v.render.toList ++ r) = some (w, r)

theorem skipSpace_cons {c : Char} (h : isSpace c = false) (r : List Char) :
    skipSpace (c :: r) = c :: r := by
  simp [skipSpace, h]

/-- A whole text is read as its value is. -/
theorem Reads.ofText?_render {v w : Json} (h : Reads v w) : ofText? v.render = some w := by
  have hvalue := h.value (v.render.toList.length + 1) [] (by rw [String.length_toList]; omega)
  rw [List.append_nil] at hvalue
  unfold ofText?
  simp only [hvalue]
  rfl

theorem reads_string (s : String) : Reads (.string s) (.string s) := by
  have hchars : (Json.string s).render.toList = '"' :: (s.toList.flatMap writtenChar ++ ['"']) := by
    rw [render, toList_writtenText]
  refine ⟨⟨_, _, hchars, by decide, by decide⟩, fun fuel r hfuel => ?_⟩
  rw [← String.length_toList, hchars] at hfuel
  obtain ⟨fuel, rfl⟩ := Nat.exists_eq_add_one.2 (Nat.lt_of_lt_of_le (Nat.zero_lt_succ _) hfuel)
  rw [hchars]
  simp [Json.value, skipSpace_cons, text_written, isSpace]

theorem renderItems_eq_map (vs : List Json) : renderItems vs = vs.map render := by
  induction vs with
  | nil => rw [renderItems, List.map_nil]
  | cons v vs ih => rw [renderItems, ih, List.map_cons]

/-- Items that are read one by one are read up to the closing bracket. -/
theorem items_written {vs ws : List Json} (h : List.Forall₂ Reads vs ws) (hne : vs ≠ [])
    (fuel : Nat) (r : List Char)
    (hfuel : ([','].intercalate (vs.map (·.render.toList))).length < fuel) :
    items fuel ([','].intercalate (vs.map (·.render.toList)) ++ ']' :: r) = some (ws, r) := by
  induction h generalizing fuel with
  | nil => exact absurd rfl hne
  | @cons v w vs ws hv hvs ih =>
      obtain ⟨fuel, rfl⟩ := Nat.exists_eq_add_one.2 (Nat.zero_lt_of_lt hfuel)
      cases vs with
      | nil =>
          cases hvs
          rw [List.map_singleton, List.intercalate_singleton] at hfuel ⊢
          have hvalue := hv.value fuel (']' :: r) (Nat.lt_succ_iff.1 hfuel)
          simp [items, hvalue, skipSpace_cons, isSpace]
      | cons v' vs =>
          simp only [List.map_cons, List.intercalate_cons_cons, List.length_append,
            List.length_singleton, List.append_assoc] at hfuel ih ⊢
          have hvalue := fun r => hv.value fuel r (by rw [← String.length_toList]; omega)
          have hrest := ih (List.cons_ne_nil _ _) fuel (by omega)
          simp [items, hvalue, skipSpace_cons, isSpace, hrest]

/-- An array is read item by item. -/
theorem reads_array {vs ws : List Json} (h : List.Forall₂ Reads vs ws) :
    Reads (.array vs) (.array ws) := by
  have hchars : (Json.array vs).render.toList =
      '[' :: ([','].intercalate (vs.map (·.render.toList)) ++ [']']) := by
    simp [render, renderItems_eq_map, String.toList_intercalate, Function.comp_def]
  refine ⟨⟨_, _, hchars, by decide, by decide⟩, fun fuel r hfuel => ?_⟩
  rw [← String.length_toList, hchars] at hfuel
  obtain ⟨fuel, rfl⟩ := Nat.exists_eq_add_one.2 (Nat.lt_of_lt_of_le (Nat.zero_lt_succ _) hfuel)
  rw [hchars]
  cases h with
  | nil => simp [Json.value, skipSpace_cons, isSpace]
  | @cons v w vs ws hv hvs =>
      have hitems := items_written (.cons hv hvs) (List.cons_ne_nil _ _) fuel r (by
        simp only [List.length_cons, List.length_append, List.length_nil] at hfuel
        omega)
      obtain ⟨c, cs, hc, hspace, hbracket⟩ := hv.opens
      rw [List.map_cons, hc, List.intercalate_cons_cons_left] at hitems ⊢
      simp only [List.cons_append, List.append_assoc, List.nil_append] at hitems ⊢
      have hskip := fun r => skipSpace_cons hspace r
      simp [Json.value, skipSpace_cons (show isSpace '[' = false by decide), hskip, hbracket, hitems]

/-! ### Objects -/

/-- The text of a field. -/
def fieldText (e : String × Json) : List Char :=
  (writtenText e.1).toList ++ ':' :: e.2.render.toList

theorem fieldText_eq (e : String × Json) :
    fieldText e = '"' :: (e.1.toList.flatMap writtenChar ++ '"' :: ':' :: e.2.render.toList) := by
  simp [fieldText, toList_writtenText]

/-- The fields in the order in which they are written. -/
def byName (fields : List (String × Json)) : List (String × Json) :=
  fields.mergeSort (·.1 ≤ ·.1)

theorem renderFields_eq_map (fields : List (String × Json)) :
    renderFields fields =
      fields.map fun e => (e.1, writtenText e.1 ++ ":" ++ e.2.render) := by
  induction fields with
  | nil => rw [renderFields, List.map_nil]
  | cons e fields ih => rw [renderFields, ih, List.map_cons]

theorem toList_render_object (fields : List (String × Json)) :
    (Json.object fields).render.toList =
      '\x7b' :: ([','].intercalate ((byName fields).map fieldText) ++ ['\x7d']) := by
  let named (e : String × Json) : String × String := (e.1, writtenText e.1 ++ ":" ++ e.2.render)
  have hsorted : (renderFields fields).mergeSort (·.1 ≤ ·.1) = (byName fields).map named := by
    rw [renderFields_eq_map]
    exact (List.map_mergeSort (f := named) fun _ _ _ _ => rfl).symm
  have htext : fieldText = fun e => (writtenText e.1).toList ++ ':' :: e.2.render.toList := rfl
  rw [render, hsorted, htext]
  simp [named, String.toList_intercalate, Function.comp_def]

theorem objectOf_named (fields : List (String × Json)) :
    objectOf (fields.map fun e => (some e.1, e.2)) = .object fields := by
  have h := List.mapM_map_eq_pure (m := Option) (f := fun e => (some e.1, e.2)) (h := id)
    (g := fun (e : Option String × Json) => e.1.map (·, e.2)) fields fun _ _ => rfl
  rw [List.map_id] at h
  simp [objectOf, h]

/-- The value of a field is read, and the field keeps its name. -/
structure ReadsField (e e' : String × Json) : Prop where
  name : e'.1 = e.1
  value : Reads e.2 e'.2

theorem Reads.field {v w : Json} (h : Reads v w) (k : String) : ReadsField (k, v) (k, w) := ⟨rfl, h⟩

/-- Fields that are read one by one are read up to the closing brace. -/
theorem members_written {fields fields' : List (String × Json)}
    (h : List.Forall₂ ReadsField fields fields') (hne : fields ≠ []) (fuel : Nat) (r : List Char)
    (hfuel : ([','].intercalate (fields.map fieldText)).length < fuel) :
    members fuel ([','].intercalate (fields.map fieldText) ++ '\x7d' :: r) =
      some (fields'.map fun e => (some e.1, e.2), r) := by
  induction h generalizing fuel with
  | nil => exact absurd rfl hne
  | @cons e e' fields fields' he hrest ih =>
      obtain ⟨fuel, rfl⟩ := Nat.exists_eq_add_one.2 (Nat.zero_lt_of_lt hfuel)
      obtain ⟨hname, hvalue⟩ := he
      cases fields with
      | nil =>
          cases hrest
          rw [List.map_singleton, List.intercalate_singleton] at hfuel ⊢
          have hlength : e.2.render.length ≤ fuel := by
            rw [← String.length_toList]
            simp only [fieldText, List.length_append, List.length_cons] at hfuel
            omega
          rw [fieldText_eq]
          simp [members, skipSpace_cons, isSpace, text_written, hvalue.value fuel _ hlength, hname]
      | cons f fields =>
          simp only [List.map_cons, List.intercalate_cons_cons, List.length_append,
            List.length_singleton, List.append_assoc] at hfuel ih ⊢
          have hlength : e.2.render.length ≤ fuel := by
            rw [← String.length_toList]
            simp only [fieldText, List.length_append, List.length_cons] at hfuel
            omega
          have hrest := ih (List.cons_ne_nil _ _) fuel (by omega)
          rw [fieldText_eq e]
          simp [members, skipSpace_cons, isSpace, text_written, hvalue.value fuel _ hlength, hrest,
            hname]

/-- Fields that correspond one by one still do so in the order in which they are written. -/
theorem forall₂_byName {fields fields' : List (String × Json)}
    (h : List.Forall₂ ReadsField fields fields') :
    List.Forall₂ ReadsField (byName fields) (byName fields') := by
  obtain ⟨hlength, hpairs⟩ := List.forall₂_iff_zip.1 h
  let pairs := fields.zip fields'
  let sorted := pairs.mergeSort fun p q => p.1.1 ≤ q.1.1
  have hfst : byName fields = sorted.map Prod.fst := by
    rw [List.map_mergeSort (s := fun a b : String × Json => decide (a.1 ≤ b.1)) fun _ _ _ _ => rfl,
      List.map_fst_zip (Nat.le_of_eq hlength)]
    rfl
  have hsnd : byName fields' = sorted.map Prod.snd := by
    rw [List.map_mergeSort (s := fun a b : String × Json => decide (a.1 ≤ b.1)) fun p hp q hq => ?_,
      List.map_snd_zip (Nat.le_of_eq hlength.symm)]
    · rfl
    · rw [(hpairs (show (p.1, p.2) ∈ _ from hp)).name, (hpairs (show (q.1, q.2) ∈ _ from hq)).name]
  rw [hfst, hsnd, List.forall₂_map_left_iff, List.forall₂_map_right_iff, List.forall₂_same]
  intro p hp
  exact hpairs (show (p.1, p.2) ∈ _ from (List.mergeSort_perm ..).mem_iff.1 hp)

/-- An object is read field by field, in the order in which its fields are written. -/
theorem reads_object {fields fields' : List (String × Json)}
    (h : List.Forall₂ ReadsField fields fields') :
    Reads (.object fields) (.object (byName fields')) := by
  have hchars := toList_render_object fields
  refine ⟨⟨_, _, hchars, by decide, by decide⟩, fun fuel r hfuel => ?_⟩
  rw [← String.length_toList, hchars] at hfuel
  obtain ⟨fuel, rfl⟩ := Nat.exists_eq_add_one.2 (Nat.lt_of_lt_of_le (Nat.zero_lt_succ _) hfuel)
  rw [hchars]
  have hsorted := forall₂_byName h
  generalize byName fields = sorted, byName fields' = sorted' at hsorted hfuel
  cases hsorted with
  | nil => simp [Json.value, skipSpace_cons, isSpace]
  | @cons e e' sorted sorted' he hrest =>
      have hmembers := members_written (.cons he hrest) (List.cons_ne_nil _ _) fuel r (by
        simp only [List.length_cons, List.length_append, List.length_nil] at hfuel
        omega)
      have hobject : objectOf ((some e'.1, e'.2) :: sorted'.map fun e => (some e.1, e.2)) =
          .object (e' :: sorted') := objectOf_named (e' :: sorted')
      rw [List.map_cons, fieldText_eq, List.intercalate_cons_cons_left] at hmembers ⊢
      simp only [List.cons_append, List.append_assoc, List.nil_append] at hmembers ⊢
      simp [Json.value, skipSpace_cons, isSpace, hmembers, hobject]

end StreamPipeline.Json
