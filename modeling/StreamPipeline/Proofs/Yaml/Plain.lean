import StreamPipeline.Proofs.Yaml.Cells
import StreamPipeline.Yaml.Scalar

/-!
# Plain scalars are read back

A text that may stand without quotes is read to its end by `plainScalar`, up to the colon behind a
key, or over the break behind it to the first word of a line that starts in front of the margin.
-/

namespace StreamPipeline.Yaml

/-! ### Spaces -/

theorem printable_spaces (n : Nat) : Printable (spaces n) := fun c hc => by
  rw [spaces, List.mem_replicate] at hc
  rw [hc.2]
  decide

theorem along_spaces (m : Mark) (n : Nat) :
    m.along (spaces n) = ⟨m.line, m.column + n, m.index + n⟩ := by
  rw [Mark.along_of_line fun c hc => ?_]
  · simp [spaces]
  · rw [spaces, List.mem_replicate] at hc
    rw [hc.2, isBreak_space]

/-! ### Words and the gaps between them -/

/-- The gap holds blanks within a line, or nothing. -/
def Gap.IsInner (g : Gap) : Prop := g.isBroken = false

theorem Gap.folded_addBlank {g : Gap} (h : g.IsInner) (c : Char) :
    (g.addBlank c).folded = c :: g.folded ∧ (g.addBlank c).IsInner := by
  cases g <;> simp_all [Gap.IsInner, Gap.isBroken, Gap.addBlank, Gap.folded]

/-- What follows a gap within a line neither starts a comment nor ends the scalar. -/
theorem not_gapEnds {g : Gap} (c : Cell) (r : List Cell) (margin : Nat)
    (h : g ≠ .none → margin ≤ c.mark.column ∧ 0 < c.mark.column ∧ c.char ≠ '#') :
    (g != .none && ((!false && decide (c.mark.column < margin)) || atDocumentMarker (c :: r)
      || c.char == '#')) = false := by
  by_cases hg : g = .none
  · simp [hg]
  · obtain ⟨hm, h0, hs⟩ := h hg
    simp [atDocumentMarker_of_column h0, hs, Nat.not_lt.2 hm]

theorem hasPair_cons {p q : Char → Bool} {c : Char} {cs : List Char} :
    hasPair p q (c :: cs) = false ↔
      (∀ d ∈ cs.head?, (p c && q d) = false) ∧ hasPair p q cs = false := by
  cases cs with
  | nil => simp [hasPair]
  | cons d cs => simp [hasPair]

/-- A character ends no scalar, nor does a colon in front of one that shows. -/
theorem not_endsPlain {c : Char} {cs tail : List Char} {m : Mark}
    (hrest : Printable (cs ++ tail))
    (hcolon : hasPair (· == ':') isGap (c :: (cs ++ [finish])) = false) :
    endsPlain false (⟨c, m⟩ :: cells (m.after c) (cs ++ tail)) = false := by
  by_cases hc : c = ':'
  · subst hc
    obtain ⟨hnext, -⟩ := hasPair_cons.1 hcolon
    cases cs with
    | nil => simp [isGap] at hnext
    | cons d cs =>
        have hd : isGap d = false := by simpa using hnext
        have hhead := headChar_cells hrest (m.after ':')
        simp [endsPlain, headChar, charAt, List.drop] at hhead ⊢
        rw [hhead, hd]
  · simp [endsPlain, headChar, hc]

/-- A part of a plain text within a line is read as it stands. -/
theorem plainRest_line {margin : Nat} {tail : List Char} (htail : Printable tail)
    (cs acc : List Char) (gap : Gap) (m : Mark) (hcs : Printable cs)
    (hline : ∀ c ∈ cs, isBreak c = false)
    (hcolon : hasPair (· == ':') isGap (cs ++ [finish]) = false)
    (hsharp : hasPair isGap (· == '#') cs = false) (hlast : cs.getLast? ≠ some ' ')
    (hgap : gap.IsInner) (hempty : cs = [] → gap = .none) (hmargin : margin ≤ m.column + 1)
    (hinner : gap ≠ .none → margin ≤ m.column ∧ 0 < m.column ∧ cs.head? ≠ some '#') :
    plainRest false margin acc gap (cells m (cs ++ tail)) =
      plainRest false margin (cs.reverse ++ (gap.folded ++ acc)) .none
        (cells (m.along cs) tail) := by
  induction cs generalizing acc gap m with
  | nil => simp [hempty rfl, Gap.folded]
  | cons c cs ih =>
      obtain ⟨hc, hrest⟩ := Printable.cons_iff.1 hcs
      have hbreak := hline c (by simp)
      have hnext : (m.after c).column = m.column + 1 := by
        simp [Mark.after_of_not_isBreak hbreak, Mark.next]
      have hlast' : cs.getLast? ≠ some ' ' := by
        cases cs with
        | nil => simp
        | cons d cs => simpa [List.getLast?_cons_cons] using hlast
      obtain ⟨hafter, hsharp'⟩ := hasPair_cons.1 hsharp
      have step := fun acc gap hgap hempty hinner =>
        ih acc gap (m.after c) hrest (fun d hd => hline d (by simp [hd]))
          (hasPair_cons.1 hcolon).2 hsharp' hlast' hgap hempty (by omega) hinner
      rw [List.cons_append, cells_cons hc, plainRest.eq_def]
      simp only [isBlank_of_isPrintable hc, hbreak]
      by_cases hspace : c = ' '
      · -- a space lengthens the gap; the text does not end here
        subst hspace
        obtain ⟨hfolded, hinner'⟩ := Gap.folded_addBlank hgap ' '
        have hne : cs ≠ [] := fun h => hlast (by simp [h])
        simp only [beq_self_eq_true, if_true]
        rw [if_neg (by simp [show gap.isBroken = false from hgap]),
          step acc _ hinner' (fun h => absurd h hne) (fun _ => ⟨by omega, by omega, ?_⟩), hfolded]
        · simp
        · intro hd
          simpa [isGap, isBlank] using hafter '#' hd
      · -- any other character ends the gap and starts or goes on with a word
        have hends := not_endsPlain (m := m) (Printable.append_iff.2 ⟨hrest, htail⟩) hcolon
        simp only [beq_iff_eq, hspace, if_false, Bool.false_eq_true]
        rw [if_neg (by
            simp only [Bool.or_eq_true, not_or, Bool.not_eq_true]
            refine ⟨by simpa using (ne_of_isPrintable hc).1,
              not_gapEnds ⟨c, m⟩ _ margin fun hg => ?_⟩
            obtain ⟨h₁, h₂, h₃⟩ := hinner hg
            exact ⟨h₁, h₂, by simpa using h₃⟩),
          if_neg (by simp [refusesPlain]), if_neg (by simp [hends]),
          step _ .none rfl (fun _ => rfl) (fun h => absurd rfl h)]
        simp [Gap.folded]

/-! ### What follows a scalar -/

/-- A text that starts, if at all, with a character that shows. -/
def Solid (r : List Char) : Prop :=
  Printable r ∧ ∀ c ∈ r.head?, c ≠ ' ' ∧ isBreak c = false ∧ c ≠ '#'

/-- The gap behind a scalar reaches to the first word in front of the margin, or to the end. -/
theorem plainRest_gap {margin : Nat} (acc : List Char) (first : Char) (bs : List Char) (k : Nat)
    {r : List Char} (hr : Solid r) (m : Mark) (hmargin : r = [] ∨ m.column + k < margin) :
    plainRest false margin acc (.breaks first bs) (cells m (spaces k ++ r)) =
      some (acc, .breaks first bs, cells (m.along (spaces k)) r) := by
  induction k generalizing m with
  | succ k ih =>
      have hs : spaces (k + 1) = ' ' :: spaces k := rfl
      rw [hs, List.cons_append, cells_cons isPrintable_space, plainRest.eq_def]
      simp only [show isBlank ' ' = true from rfl, if_true]
      rw [if_neg (by simp [Gap.isBroken])]
      refine ih (m.after ' ') (hmargin.imp_right fun h => ?_)
      simp [Mark.after, Mark.next]
      omega
  | zero =>
      simp only [spaces, List.replicate, List.nil_append, Mark.along_nil]
      cases r with
      | nil => simp [plainRest, isBlank, isBreak, finish]
      | cons c r =>
          obtain ⟨hc, hb, -⟩ := hr.2 c rfl
          have hp := (Printable.cons_iff.1 hr.1).1
          have hlt : m.column < margin := by simpa using hmargin
          rw [cells_cons hp, plainRest.eq_def]
          simp only [isBlank_of_isPrintable hp, beq_iff_eq, hc, if_false, hb, Bool.false_eq_true]
          rw [if_pos (by simp [hlt])]

/-! ### Whole scalars -/

/-- What it takes for a text to stand without quotes. -/
theorem of_plainAllowed {cs : List Char} (h : plainAllowed cs = true) :
    startsPlain cs = true ∧ hasPair (· == ':') isGap (cs ++ [finish]) = false ∧
      hasPair isGap (· == '#') cs = false ∧ (∀ c ∈ cs, isBreak c = false) ∧ Printable cs ∧
      (∀ c ∈ cs.head?, c ≠ ' ') ∧ cs.getLast? ≠ some ' ' := by
  simp only [plainAllowed, holdsPlain, Bool.and_eq_true, Bool.not_eq_true', List.any_eq_false,
    List.all_eq_true, Bool.not_eq_true] at h
  obtain ⟨⟨⟨⟨⟨hstarts, hcolon, hsharp⟩, hline⟩, hprintable⟩, hhead⟩, hlast⟩ := h
  refine ⟨hstarts, hcolon, hsharp, hline, hprintable, fun c hc => ?_, fun hc => ?_⟩
  · rintro rfl
    simp [Option.mem_def.1 hc] at hhead
  · simp [hc] at hlast

variable {cs : List Char} {margin : Nat} {m : Mark}

theorem plainScalar_append (h : plainAllowed cs = true) {tail : List Char}
    (htail : Printable tail) (hmargin : margin ≤ m.column + 1) :
    plainScalar false margin (cells m (cs ++ tail)) =
      (plainRest false margin cs.reverse .none (cells (m.along cs) tail)).map fun (acc, gap, r) =>
        (String.ofList acc.reverse, gap.isBroken, r) := by
  obtain ⟨-, hcolon, hsharp, hline, hprintable, -, hlast⟩ := of_plainAllowed h
  rw [plainScalar, plainRest_line htail cs [] .none m hprintable hline hcolon hsharp hlast rfl
    (fun _ => rfl) hmargin (fun h => absurd rfl h)]
  simp [Gap.folded]

/-- A plain key ends before its colon. -/
theorem plainScalar_key (h : plainAllowed cs = true) {tail : List Char} (htail : Printable tail)
    (hgap : isGap (tail.headD finish) = true) (hmargin : margin ≤ m.column + 1) :
    plainScalar false margin (cells m (cs ++ ':' :: tail)) =
      some (String.ofList cs, false, cells (m.along cs) (':' :: tail)) := by
  have hp : Printable (':' :: tail) := Printable.cons_iff.2 ⟨by decide, htail⟩
  rw [plainScalar_append h hp hmargin, cells_cons (by decide), plainRest.eq_def]
  have hends : endsPlain false (⟨':', m.along cs⟩ :: cells ((m.along cs).after ':') tail) =
      true := by
    show (_ && isGap (headChar (cells _ tail)) || _) = true
    rw [headChar_cells htail, hgap]
    rfl
  simp [isBlank, isBreak, finish, refusesPlain, hends, Gap.isBroken]

/-- A plain value ends with its line. -/
theorem plainScalar_line (h : plainAllowed cs = true) {k : Nat} {r : List Char} (hr : Solid r)
    (hmargin : margin ≤ m.column + 1) (hbefore : r = [] ∨ k < margin) :
    plainScalar false margin (cells m (cs ++ '\n' :: (spaces k ++ r))) =
      some (String.ofList cs, true, cells (m.along (cs ++ '\n' :: spaces k)) r) := by
  have hp : Printable ('\n' :: (spaces k ++ r)) := by simp [printable_spaces, hr.1]
  rw [plainScalar_append h hp hmargin, cells_cons (by decide), plainRest.eq_def]
  simp only [show isBlank '\n' = false from rfl, isBreak_newLine, if_true, Gap.addBreak]
  have hnew : ((m.along cs).after '\n').column = 0 := rfl
  rw [if_neg Bool.false_ne_true, plainRest_gap _ _ _ _ hr _ (by simpa [hnew] using hbefore)]
  simp [Gap.isBroken, Mark.along_append]

end StreamPipeline.Yaml
