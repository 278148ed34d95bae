import StreamPipeline.Proofs.Yaml.Plain

/-!
# Quoted scalars are read back

Between single quotes stands a text whose breaks have no space around them; between double quotes
stands any text, on one line. Both are read to the closing quote.
-/

namespace StreamPipeline.Yaml

/-! ### Single quotes -/

/-- The gap that a reader is in behind a break, or else within a line. -/
def Gap.Fits (g : Gap) (afterBreak : Bool) : Prop :=
  if afterBreak then ∃ first bs, g = .breaks first bs ∧ first ≠ '\n' else g.IsInner

/-- The indentation behind a break does not count. -/
theorem singleRest_spaces (acc : List Char) (first : Char) (bs : List Char) (n : Nat)
    {r : List Char} (m : Mark) :
    singleRest acc (.breaks first bs) (cells m (spaces n ++ r)) =
      singleRest acc (.breaks first bs) (cells (m.along (spaces n)) r) := by
  induction n generalizing m with
  | zero => rfl
  | succ n ih =>
      have hs : spaces (n + 1) = ' ' :: spaces n := rfl
      rw [hs, List.cons_append, cells_cons isPrintable_space, singleRest.eq_def]
      exact ih (m.after ' ')

/-- The closing quote. -/
theorem singleRest_close (acc : List Char) (gap : Gap) {m : Mark} (hm : 0 < m.column)
    {tail : List Char} (htail : Printable tail) (hquote : ∀ c ∈ tail.head?, c ≠ '\'') :
    singleRest acc gap (cells m ('\'' :: tail)) =
      some (gap.folded ++ acc, cells (m.after '\'') tail) := by
  rw [cells_cons (by decide), singleRest.eq_def]
  simp only [show isBlank '\'' = false from rfl, show isBreak '\'' = false from by decide,
    Bool.false_eq_true, if_false, atDocumentMarker_of_column (c := ⟨'\'', m⟩) hm]
  cases tail with
  | nil => simp [finish]
  | cons c tail =>
      have hc : c ≠ '\'' := hquote c rfl
      rw [cells_cons (Printable.cons_iff.1 htail).1]
      simp [hc, finish]

/-- A character other than a break, behind the indentation. -/
theorem singleRest_char (acc : List Char) {gap : Gap} {c : Char} (hc : isPrintable c = true)
    (hb : isBreak c = false) (hs : c ≠ ' ') {m : Mark} (hm : 0 < m.column) {r : List Char} :
    singleRest acc gap (cells m ((if c == '\'' then ['\'', '\''] else [c]) ++ r)) =
      singleRest (c :: (gap.folded ++ acc)) .none
        (cells (m.along (if c == '\'' then ['\'', '\''] else [c])) r) := by
  by_cases hq : c = '\''
  · subst hq
    simp only [beq_self_eq_true, if_true, List.cons_append, List.nil_append]
    rw [cells_cons (by decide), cells_cons (by decide), singleRest.eq_def]
    simp [show isBlank '\'' = false from rfl, show isBreak '\'' = false from by decide,
      atDocumentMarker_of_column (c := ⟨'\'', m⟩) hm, finish]
  · simp only [beq_iff_eq, hq, if_false, List.cons_append, List.nil_append]
    rw [cells_cons hc, singleRest.eq_def]
    simp [isBlank_of_isPrintable hc, hs, hb, (ne_of_isPrintable hc).1, hq,
      atDocumentMarker_of_column (c := ⟨c, m⟩) hm]

/-- A break lengthens the gap. -/
theorem singleRest_break (acc : List Char) (gap : Gap) {c : Char} (hc : isPrintable c = true)
    (hb : isBreak c = true) (m : Mark) (r : List Char) :
    singleRest acc gap (cells m (c :: r)) =
      singleRest acc (gap.addBreak c) (cells (m.after c) r) := by
  have hs : c ≠ ' ' := by
    rintro rfl
    simp at hb
  rw [cells_cons hc, singleRest.eq_def]
  simp [isBlank_of_isPrintable hc, hs, hb]

/-- A gap is longer by each break that is not a line feed. -/
theorem Gap.Fits.addBreak {g : Gap} {afterBreak : Bool} (h : g.Fits afterBreak) {c : Char}
    (hc : c ≠ '\n') (hnone : afterBreak = false → g = .none) :
    (g.addBreak c).folded = c :: g.folded ∧ (g.addBreak c).Fits true := by
  cases afterBreak with
  | false =>
      rw [hnone rfl]
      exact ⟨by simp [Gap.addBreak, Gap.folded, hc], c, [], rfl, hc⟩
  | true =>
      obtain ⟨first, bs, rfl, hfirst⟩ := h
      exact ⟨by simp [Gap.addBreak, Gap.folded, hfirst], first, c :: bs, rfl, hfirst⟩

/-- What stands between single quotes is read back. -/
theorem singleRest_body {n : Nat} (hn : 0 < n) {tail : List Char} (htail : Printable tail)
    (hquote : ∀ c ∈ tail.head?, c ≠ '\'') (cs : List Char) (afterBreak : Bool)
    (acc : List Char) (gap : Gap) (m : Mark) (hcs : Printable cs) (hnl : '\n' ∉ cs)
    (hbefore : spaceBeforeBreak cs = false) (hafter : spaceAfterBreak cs = false)
    (hgap : gap.Fits afterBreak) (hm : afterBreak = false → 0 < m.column)
    (hblanks : ∀ c ∈ cs.head?, if afterBreak then c ≠ ' ' else isBreak c = true → gap = .none) :
    singleRest acc gap (cells m (singleBody n afterBreak cs ++ '\'' :: tail)) =
      some (cs.reverse ++ (gap.folded ++ acc),
        cells (m.along (singleBody n afterBreak cs ++ ['\''])) tail) := by
  induction cs generalizing afterBreak acc gap m with
  | nil =>
      cases afterBreak with
      | false =>
          rw [singleBody, if_neg Bool.false_ne_true]
          exact singleRest_close acc gap (hm rfl) htail hquote
      | true =>
          obtain ⟨first, bs, rfl, -⟩ := hgap
          rw [singleBody, if_pos rfl, singleRest_spaces,
            singleRest_close _ _ (by simp [along_spaces]; omega) htail hquote,
            Mark.along_append]
          rfl
  | cons c cs ih =>
      obtain ⟨hc, hrest⟩ := Printable.cons_iff.1 hcs
      have hcn : c ≠ '\n' := fun h => hnl (by simp [h])
      obtain ⟨hnoBreak, hbefore'⟩ := hasPair_cons.1 hbefore
      obtain ⟨hnoSpace, hafter'⟩ := hasPair_cons.1 hafter
      have ih := fun afterBreak acc gap m =>
        ih afterBreak acc gap m hrest (fun h => hnl (.tail _ h)) hbefore' hafter'
      cases hb : isBreak c with
      | true =>
          -- none of the breaks that are read is a line feed, so each is kept
          have hbody : singleBody n afterBreak (c :: cs) = c :: singleBody n true cs := by
            simp [singleBody, hb, hcn]
          obtain ⟨hfolded, hfits⟩ := hgap.addBreak hcn fun hline => by
            subst hline
            exact hblanks c rfl hb
          rw [hbody, List.cons_append, singleRest_break acc gap hc hb,
            ih true acc _ _ hfits (by simp), hfolded]
          · simp
          · intro d hd
            simpa [hb] using hnoSpace d hd
      | false =>
      by_cases hs : c = ' '
      · -- a space within a line
        subst hs
        cases afterBreak with
        | true => exact absurd rfl (hblanks ' ' rfl)
        | false =>
            obtain ⟨hfolded, hinner⟩ := Gap.folded_addBlank (g := gap) hgap ' '
            have hread : ∀ r, singleRest acc gap (cells m (' ' :: r)) =
                singleRest acc (gap.addBlank ' ') (cells (m.after ' ') r) := fun r => by
              rw [cells_cons hc, singleRest.eq_def]
              rfl
            have hbody : singleBody n false (' ' :: cs) = ' ' :: singleBody n false cs := by
              simp [singleBody]
            rw [hbody, List.cons_append, hread, ih false acc _ _ hinner, hfolded]
            · simp
            · exact fun _ => Nat.succ_pos m.column
            · intro d hd hbd
              simpa [hbd] using hnoBreak d hd
      · -- any other character, behind the indentation where a line starts
        have hrun : ∀ m : Mark, 0 < m.column →
            singleRest acc gap (cells m ((if c == '\'' then ['\'', '\''] else [c])
              ++ (singleBody n false cs ++ '\'' :: tail))) =
            some (cs.reverse ++ c :: (gap.folded ++ acc),
              cells (m.along ((if c == '\'' then ['\'', '\''] else [c])
                ++ (singleBody n false cs ++ ['\'']))) tail) := fun m hm => by
          rw [singleRest_char acc hc hb hs hm, ih false _ .none _ rfl]
          · simp only [Mark.along_append]
            rfl
          · intro _
            split <;> simp [Mark.after, Mark.next, show isBreak '\'' = false from by decide, hb]
          · exact fun _ _ _ => rfl
        cases afterBreak with
        | false =>
            have h := hrun m (hm rfl)
            simpa [singleBody, hb, List.append_assoc] using h
        | true =>
            obtain ⟨first, bs, rfl, -⟩ := hgap
            have h := hrun (m.along (spaces n)) (by simp [along_spaces]; omega)
            simp only [singleBody, hb, Bool.false_eq_true, if_false, if_true, List.append_assoc]
            rw [singleRest_spaces, h, ← Mark.along_append]
            simp

theorem quotedScalar_single {cs : List Char} (h : singleAllowed cs = true) (hnl : '\n' ∉ cs)
    {n : Nat} (hn : 0 < n) {m : Mark} (hm : 0 < m.column) {tail : List Char}
    (htail : Printable tail) (hquote : ∀ c ∈ tail.head?, c ≠ '\'') :
    quotedScalar false (cells m (singleBody n false cs ++ '\'' :: tail)) =
      some (String.ofList cs, cells (m.along (singleBody n false cs ++ ['\''])) tail) := by
  simp only [singleAllowed, Bool.and_eq_true, Bool.not_eq_true', List.all_eq_true] at h
  obtain ⟨⟨hp, hbefore⟩, hafter⟩ := h
  rw [quotedScalar, if_neg Bool.false_ne_true, singleRest_body hn htail hquote cs false [] .none m
    hp hnl hbefore hafter rfl (fun _ => hm) (fun _ _ _ => rfl)]
  simp [Gap.folded]

/-! ### Double quotes -/

/-- Whether the escape of a character is one line of text that is read back. -/
def unescapes (c : Char) : Bool :=
  (escape c).all (fun d => isPrintable d && !isBreak d) &&
    match escape c with
    | '\\' :: e :: digits =>
      match escapeWidth? e with
      | some width => digits.length == width && (hexValue? digits).bind charOfNumber? == some c
      | none => digits.isEmpty && shortEscape? e == some c
    | _ => false

/-- The characters beyond the first 160 that are escaped. -/
def escapedBeyond : List Nat := [0x2028, 0x2029, 0xFEFF, 0xFFFE, 0xFFFF]

/-- What is escaped is one of a few characters. -/
theorem escaped_cases {c : Char}
    (h : (c == '"' || c == '\\' || isBreak c || !isPrintable c) = true) :
    c.toNat < 160 ∨ c.toNat ∈ escapedBeyond := by
  by_cases hlow : c.toNat < 160
  · exact .inl hlow
  · refine .inr ?_
    have hsmall : ∀ d ∈ ['"', '\\', '\n', '\r'], d.toNat < 160 := by simp
    have hne : ∀ d ∈ ['"', '\\', '\n', '\r'], c ≠ d := fun d hd h => hlow (h ▸ hsmall d hd)
    have hvalid : c.toNat < 0xD800 ∨ 0xDFFF < c.toNat ∧ c.toNat < 0x110000 := c.valid
    simp only [List.mem_cons, List.not_mem_nil, or_false, forall_eq_or_imp, forall_eq] at hne
    simp only [isBreak, isPrintable, beq_iff_eq, hne, Bool.or_eq_true, Bool.not_eq_true',
      Bool.or_eq_false_iff, Bool.and_eq_false_iff, decide_eq_false_iff_not, false_or,
      beq_eq_false_iff_ne, bne_eq_false_iff_eq] at h
    simp only [escapedBeyond, List.mem_cons, List.not_mem_nil, or_false]
    omega

/-- Each of these characters is read back. -/
theorem unescapes_of_escaped {c : Char}
    (h : (c == '"' || c == '\\' || isBreak c || !isPrintable c) = true) : unescapes c = true := by
  have low : ∀ n < 160, unescapes (Char.ofNat n) = true := by decide +kernel
  have high : ∀ n ∈ escapedBeyond, unescapes (Char.ofNat n) = true := by decide +kernel
  rw [← Char.ofNat_toNat c]
  exact (escaped_cases h).elim (low _) (high _)

/-- Cells that belong to an escape are passed over. -/
theorem doubleRest_skip (acc : List Char) (gap : Gap) {ds : List Char} (hds : Printable ds)
    {r : List Char} (m : Mark) :
    doubleRest acc gap ds.length (cells m (ds ++ r)) =
      doubleRest acc gap 0 (cells (m.along ds) r) := by
  induction ds generalizing m with
  | nil => rfl
  | cons d ds ih =>
      obtain ⟨hd, hrest⟩ := Printable.cons_iff.1 hds
      rw [List.cons_append, cells_cons hd, doubleRest.eq_def]
      exact ih hrest (m.after d)

theorem map_char_take_cells {ds : List Char} (hds : Printable ds) {r : List Char} (m : Mark) :
    ((cells m (ds ++ r)).take ds.length).map Cell.char = ds := by
  induction ds generalizing m with
  | nil => rfl
  | cons d ds ih =>
      obtain ⟨hd, hrest⟩ := Printable.cons_iff.1 hds
      rw [List.cons_append, cells_cons hd]
      simp [ih hrest]

/-- An escape is a backslash, a letter, and the digits that the letter announces. -/
theorem of_unescapes {c : Char} (h : unescapes c = true) : ∃ e digits,
    escape c = '\\' :: e :: digits ∧ isBreak e = false ∧ Printable ('\\' :: e :: digits) ∧
      match escapeWidth? e with
      | some width => digits.length = width ∧ (hexValue? digits).bind charOfNumber? = some c
      | none => digits.length = 0 ∧ shortEscape? e = some c := by
  unfold unescapes at h
  obtain ⟨hall, h⟩ := Bool.and_eq_true_iff.1 h
  split at h
  · rename_i e digits heq
    rw [heq] at hall
    refine ⟨e, digits, heq, ?_, fun d hd => ?_, ?_⟩
    · exact (by simpa using List.all_eq_true.1 hall e (by simp) : _ ∧ _).2
    · exact (by simpa using List.all_eq_true.1 hall d hd : _ ∧ _).1
    · split at h <;> simpa using h
  · cases h

theorem doubleRest_escape (acc : List Char) (gap : Gap) {c : Char} (h : unescapes c = true)
    {m : Mark} (hm : 0 < m.column) {r : List Char} :
    doubleRest acc gap 0 (cells m (escape c ++ r)) =
      doubleRest (c :: (gap.folded ++ acc)) .none 0 (cells (m.along (escape c)) r) := by
  obtain ⟨e, digits, heq, heb, hp, hread⟩ := of_unescapes h
  rw [heq]
  have hpe : Printable (e :: digits) := (Printable.cons_iff.1 hp).2
  have hdigits : Printable digits := (Printable.cons_iff.1 hpe).2
  rw [List.cons_append, cells_cons (Printable.cons_iff.1 hp).1, doubleRest.eq_def]
  have hhead : headChar (cells (m.after '\\') (e :: digits ++ r)) = e := by
    rw [List.cons_append, cells_cons (Printable.cons_iff.1 hpe).1]
    rfl
  have hslash : isBlank '\\' = false ∧ isBreak '\\' = false ∧ ('\\' == finish) = false ∧
      ('\\' == '"') = false := by decide
  simp only [gt_iff_lt, Nat.lt_irrefl, if_false, hslash, Bool.false_eq_true, Bool.or_self, hhead,
    heb, atDocumentMarker_of_column (c := ⟨'\\', m⟩) hm, beq_self_eq_true, if_true]
  rw [List.cons_append]
  -- the letter says how many digits follow; it is skipped together with them
  cases hw : escapeWidth? e with
  | some width =>
      rw [hw] at hread
      obtain ⟨hlen, hvalue⟩ := hread
      have htake : (((cells (m.after '\\') (e :: (digits ++ r))).drop 1).take width).map Cell.char
          = digits := by
        rw [drop_one_cells (Printable.cons_iff.1 hpe).1, ← hlen]
        exact map_char_take_cells hdigits _
      simp only [htake, hvalue]
      have hskip := doubleRest_skip (c :: (gap.folded ++ acc)) .none hpe (r := r) (m.after '\\')
      rw [List.length_cons, hlen] at hskip
      exact hskip
  | none =>
      rw [hw] at hread
      obtain ⟨hlen, hshort⟩ := hread
      have hskip := doubleRest_skip (c :: (gap.folded ++ acc)) .none hpe (r := r) (m.after '\\')
      rw [List.length_cons, hlen] at hskip
      simp only [hshort]
      exact hskip

/-- What stands for a character between double quotes is printable and within a line. -/
theorem doubleChar_line (c : Char) :
    Printable (doubleChar c) ∧ ∀ d ∈ doubleChar c, isBreak d = false := by
  unfold doubleChar
  split
  · rename_i h
    have hall := (Bool.and_eq_true_iff.1 (unescapes_of_escaped h)).1
    have hall := fun d hd => (by simpa using List.all_eq_true.1 hall d hd : _ ∧ _)
    exact ⟨fun d hd => (hall d hd).1, fun d hd => (hall d hd).2⟩
  · rename_i h
    simp only [Bool.or_eq_true, not_or, Bool.not_eq_true, Bool.not_eq_false'] at h
    simp [h]

theorem flatMap_doubleChar_line (cs : List Char) :
    Printable (cs.flatMap doubleChar) ∧ ∀ d ∈ cs.flatMap doubleChar, isBreak d = false := by
  refine ⟨fun d hd => ?_, fun d hd => ?_⟩
  · obtain ⟨c, -, hd⟩ := List.mem_flatMap.1 hd
    exact (doubleChar_line c).1 d hd
  · obtain ⟨c, -, hd⟩ := List.mem_flatMap.1 hd
    exact (doubleChar_line c).2 d hd

theorem doubleRest_char (acc : List Char) {gap : Gap} (hgap : gap.IsInner) (c : Char) {m : Mark}
    (hm : 0 < m.column) {r : List Char} : ∃ acc' gap', gap'.IsInner ∧
      gap'.folded ++ acc' = c :: (gap.folded ++ acc) ∧
      doubleRest acc gap 0 (cells m (doubleChar c ++ r)) =
        doubleRest acc' gap' 0 (cells (m.along (doubleChar c)) r) := by
  unfold doubleChar
  split
  · rename_i h
    exact ⟨_, .none, rfl, rfl, doubleRest_escape acc gap (unescapes_of_escaped h) hm⟩
  · rename_i h
    simp only [Bool.or_eq_true, beq_iff_eq, not_or, Bool.not_eq_true, Bool.not_eq_false'] at h
    obtain ⟨⟨⟨hq, hs⟩, hb⟩, hc⟩ := h
    rw [List.cons_append, cells_cons hc, doubleRest.eq_def]
    by_cases hspace : c = ' '
    · subst hspace
      obtain ⟨hfolded, hinner⟩ := Gap.folded_addBlank hgap ' '
      exact ⟨acc, _, hinner, by simp [hfolded], rfl⟩
    · refine ⟨_, .none, rfl, rfl, ?_⟩
      simp [isBlank_of_isPrintable hc, hspace, hb, (ne_of_isPrintable hc).1, hq, hs,
        atDocumentMarker_of_column (c := ⟨c, m⟩) hm]

/-- What stands between double quotes is read back. -/
theorem doubleRest_body {tail : List Char} (cs acc : List Char) (gap : Gap) (m : Mark)
    (hgap : gap.IsInner) (hm : 0 < m.column) :
    doubleRest acc gap 0 (cells m (cs.flatMap doubleChar ++ '"' :: tail)) =
      some (cs.reverse ++ (gap.folded ++ acc),
        cells (m.along (cs.flatMap doubleChar ++ ['"'])) tail) := by
  induction cs generalizing acc gap m with
  | nil =>
      rw [List.flatMap_nil, List.nil_append, cells_cons (by decide), doubleRest.eq_def]
      simp [isBlank, isBreak, finish, atDocumentMarker_of_column (c := ⟨'"', m⟩) hm]
  | cons c cs ih =>
      obtain ⟨acc', gap', hgap', hacc, hread⟩ := doubleRest_char acc hgap c hm
        (r := cs.flatMap doubleChar ++ '"' :: tail)
      rw [List.flatMap_cons, List.append_assoc, hread, ih acc' gap' _ hgap', hacc]
      · simp [Mark.along_append]
      · rw [Mark.along_of_line (doubleChar_line c).2]
        exact Nat.lt_of_lt_of_le hm (Nat.le_add_right _ _)

theorem quotedScalar_double (cs : List Char) {m : Mark} (hm : 0 < m.column)
    {tail : List Char} :
    quotedScalar true (cells m (cs.flatMap doubleChar ++ '"' :: tail)) =
      some (String.ofList cs, cells (m.along (cs.flatMap doubleChar ++ ['"'])) tail) := by
  rw [quotedScalar, if_pos rfl, doubleRest_body cs [] .none m rfl hm]
  simp [Gap.folded]

end StreamPipeline.Yaml
