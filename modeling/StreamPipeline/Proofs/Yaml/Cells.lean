import StreamPipeline.Yaml.Cell

/-!
# The places of written text

All that is written is printable, and of printable text the cells are its characters one by one:
`Mark.after` is the place behind a character, `Mark.along` the place behind several.
-/

namespace StreamPipeline.Yaml

/-- The place behind a character. -/
def Mark.after (m : Mark) (c : Char) : Mark := if isBreak c then m.newLine 1 else m.next

/-- The place behind some characters. -/
def Mark.along (m : Mark) (cs : List Char) : Mark := cs.foldl Mark.after m

/-- A text of characters that are written as themselves. -/
def Printable (cs : List Char) : Prop := ∀ c ∈ cs, isPrintable c = true

/-! ### Printable characters -/

section

variable {c : Char}

theorem ne_of_isPrintable (h : isPrintable c = true) :
    c ≠ finish ∧ c ≠ '\t' ∧ c ≠ '\r' ∧ c.toNat ≠ 0x85 ∧ isByteOrderMark c = false := by
  refine ⟨?_, ?_, ?_, ?_, ?_⟩
  · rintro rfl; revert h; decide
  · rintro rfl; revert h; decide
  · rintro rfl; revert h; decide
  · intro hc; simp [isPrintable, hc] at h
  · cases hb : isByteOrderMark c with
    | false => rfl
    | true =>
        have hc : c.toNat = 0xFEFF := by simpa [isByteOrderMark] using hb
        simp [isPrintable, hc] at h

theorem isBlank_of_isPrintable (h : isPrintable c = true) : isBlank c = (c == ' ') := by
  simp [isBlank, (ne_of_isPrintable h).2.1]

theorem isGap_of_isPrintable (h : isPrintable c = true) :
    isGap c = (c == ' ' || isBreak c) := by
  simp [isGap, isBlank_of_isPrintable h, (ne_of_isPrintable h).1]

@[simp] theorem isBreak_space : isBreak ' ' = false := by decide

@[simp] theorem isBreak_newLine : isBreak '\n' = true := by decide

@[simp] theorem isPrintable_space : isPrintable ' ' = true := by decide

@[simp] theorem isPrintable_newLine : isPrintable '\n' = true := by decide

end

namespace Printable

variable {c : Char} {cs ds : List Char}

@[simp] theorem nil : Printable [] := fun _ h => nomatch h

@[simp] theorem cons_iff : Printable (c :: cs) ↔ isPrintable c = true ∧ Printable cs := by
  simp [Printable]

@[simp] theorem append_iff : Printable (cs ++ ds) ↔ Printable cs ∧ Printable ds := by
  simp [Printable, or_imp, forall_and]

theorem of_all (h : cs.all isPrintable = true) : Printable cs := by
  simpa [Printable] using h

end Printable

/-! ### Places -/

namespace Mark

@[simp] theorem along_nil (m : Mark) : m.along [] = m := rfl

@[simp] theorem along_cons (m : Mark) (c : Char) (cs : List Char) :
    m.along (c :: cs) = (m.after c).along cs :=
  rfl

theorem along_append (m : Mark) (cs ds : List Char) : m.along (cs ++ ds) = (m.along cs).along ds :=
  List.foldl_append

theorem after_of_not_isBreak {m : Mark} {c : Char} (h : isBreak c = false) : m.after c = m.next :=
  by simp [after, h]

/-- Within a line, columns and numbers of characters grow alike. -/
theorem along_of_line {m : Mark} {cs : List Char} (h : ∀ c ∈ cs, isBreak c = false) :
    m.along cs = ⟨m.line, m.column + cs.length, m.index + cs.length⟩ := by
  induction cs generalizing m with
  | nil => rfl
  | cons c cs ih =>
      have hc := h c (by simp)
      rw [along_cons, after_of_not_isBreak hc, ih fun d hd => h d (by simp [hd])]
      simp [next, Nat.add_comm, Nat.add_left_comm]

theorem line_le_after (m : Mark) (c : Char) : m.line ≤ (m.after c).line := by
  unfold after
  split <;> simp [newLine, next]

theorem line_le_along (m : Mark) (cs : List Char) : m.line ≤ (m.along cs).line := by
  induction cs generalizing m with
  | nil => exact Nat.le_refl _
  | cons c cs ih => exact Nat.le_trans (m.line_le_after c) (ih (m.after c))

end Mark

/-! ### Cells -/

theorem cells_cons {c : Char} (h : isPrintable c = true) (m : Mark) (r : List Char) :
    cells m (c :: r) = ⟨c, m⟩ :: cells (m.after c) r := by
  obtain ⟨-, -, hr, h85, -⟩ := ne_of_isPrintable h
  unfold Mark.after
  rw [cells.eq_def]
  split
  · rename_i heq; cases heq
  · rename_i heq; cases heq; exact absurd rfl hr
  · rename_i heq
    cases heq
    rw [if_neg (by simp [hr, h85])]
    split <;> rfl

@[simp] theorem cells_nil (m : Mark) : cells m [] = [⟨finish, m⟩] := rfl

theorem headMark_cells {cs : List Char} (h : Printable cs) (m : Mark) :
    headMark (cells m cs) = m := by
  cases cs with
  | nil => rfl
  | cons c r => rw [cells_cons (Printable.cons_iff.1 h).1]; rfl

theorem headChar_cells {cs : List Char} (h : Printable cs) (m : Mark) :
    headChar (cells m cs) = cs.headD finish := by
  cases cs with
  | nil => rfl
  | cons c r => rw [cells_cons (Printable.cons_iff.1 h).1]; rfl

theorem charAt_cells {cs : List Char} (h : Printable cs) (n : Nat) (m : Mark) :
    charAt n (cells m cs) = cs.getD n finish := by
  induction cs generalizing n m with
  | nil => cases n <;> simp [charAt, headChar]
  | cons c r ih =>
      obtain ⟨hc, hr⟩ := Printable.cons_iff.1 h
      rw [cells_cons hc]
      cases n with
      | zero => rfl
      | succ n => simpa [charAt] using ih hr n (m.after c)

theorem drop_one_cells {c : Char} {r : List Char} (h : isPrintable c = true) (m : Mark) :
    (cells m (c :: r)).drop 1 = cells (m.after c) r := by
  rw [cells_cons h]
  rfl

/-- No marker of a document stands beyond the first column. -/
theorem atDocumentMarker_of_column {c : Cell} {r : List Cell} (h : 0 < c.mark.column) :
    atDocumentMarker (c :: r) = false := by
  have h0 : (c.mark.column == 0) = false := by simpa using Nat.ne_of_gt h
  simp [atDocumentMarker, atMarker, headMark, h0]

end StreamPipeline.Yaml
