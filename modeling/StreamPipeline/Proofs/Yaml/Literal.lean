import StreamPipeline.Proofs.Yaml.Plain

/-!
# Literal blocks are read back

A literal block shows a text line by line. Its header says how far the lines are indented where the
text itself starts with a space or a break, and how many of the breaks at its end belong to it.
-/

namespace StreamPipeline.Yaml

/-! ### The header -/

/-- The sign of a way of chomping in a header. -/
def Chomping.text : Chomping → List Char
  | .strip => ['-']
  | .clip => []
  | .keep => ['+']

/-- The digit of the indentation, if it is given. -/
def hintText (hint : Bool) : List Char := if hint then ['2'] else []

theorem blockHeader_text (chomp : Chomping) (hint : Bool) (m : Mark) (r : List Char) :
    blockHeader (cells m (hintText hint ++ (chomp.text ++ '\n' :: r))) =
      some (chomp, if hint then some 2 else none,
        cells (m.along (hintText hint ++ (chomp.text ++ ['\n']))) r) := by
  have hn : isPrintable '\n' = true := by decide
  have h2 : isPrintable '2' = true := by decide
  have hp : isPrintable '+' = true := by decide
  have hm : isPrintable '-' = true := by decide
  cases chomp <;> cases hint <;>
    simp [hintText, Chomping.text, cells_cons, hn, h2, hp, hm, blockHeader, chomping?,
      indentation?, charAt, headChar, dropCells, spanCells, endsLine, isBlank]

/-! ### The lines -/

/-- Where nothing has been read of a line, the indentation of the line is passed over. -/
theorem blockRest_spaces {n : Nat} {s : BlockState} (hs : s.inLine = false) (k : Nat) {m : Mark}
    (hk : m.column + k ≤ n) {r : List Char} :
    blockRest false n s (cells m (spaces k ++ r)) =
      blockRest false n s (cells (m.along (spaces k)) r) := by
  induction k generalizing m with
  | zero => rfl
  | succ k ih =>
      have hsp : spaces (k + 1) = ' ' :: spaces k := rfl
      rw [hsp, List.cons_append, cells_cons isPrintable_space, blockRest.eq_def]
      have hlt : m.column < n := by omega
      simp only [hs, Bool.false_eq_true, if_false, show isBlank ' ' = true from rfl, hlt,
        decide_true, Bool.and_self, if_true, beq_self_eq_true]
      exact ih (by simp [Mark.after, Mark.next]; omega)

/-- The text that has been read, newest first. -/
def BlockState.told (s : BlockState) : List Char :=
  if s.inLine then s.acc else s.trail ++ (s.lead.toList ++ s.acc)

/-- Reading the first character of a line. -/
theorem blockRest_start {n : Nat} {s : BlockState} (hs : s.inLine = false) {c : Char}
    (hc : isPrintable c = true) (hb : isBreak c = false) {m : Mark} (hm : m.column = n) :
    ∃ s' : BlockState, s'.inLine = true ∧ s'.told = c :: s.told ∧ ∀ r,
      blockRest false n s (cells m (c :: r)) = blockRest false n s' (cells (m.after c) r) := by
  refine ⟨{ s with acc := c :: s.join false c, trail := [], inLine := true,
                   indented := isBlank c }, rfl, ?_, fun r => ?_⟩
  · simp [BlockState.told, BlockState.join, hs]
  · rw [cells_cons hc, blockRest.eq_def]
    simp [hs, hb, hm, (ne_of_isPrintable hc).1]

/-- Reading on within a line. -/
theorem blockRest_inLine {n : Nat} {s : BlockState} (hs : s.inLine = true) {c : Char}
    (hc : isPrintable c = true) (hb : isBreak c = false) (m : Mark) :
    ∃ s' : BlockState, s'.inLine = true ∧ s'.told = c :: s.told ∧ ∀ r,
      blockRest false n s (cells m (c :: r)) = blockRest false n s' (cells (m.after c) r) := by
  refine ⟨{ s with acc := c :: s.acc }, hs, ?_, fun r => ?_⟩
  · simp [BlockState.told, hs]
  · rw [cells_cons hc, blockRest.eq_def]
    simp [hs, hb, (ne_of_isPrintable hc).1]

/-- Reading a break, after which the breaks at the end can be told from the text before them if
there is just this one. -/
theorem blockRest_break {n : Nat} (s : BlockState) {c : Char} (hc : isPrintable c = true)
    (hb : isBreak c = true) (m : Mark) : ∃ s' : BlockState,
      s'.inLine = false ∧ s'.told = c :: s.told ∧
      (s.inLine = true → s'.trail = [] ∧ s'.acc = s.acc) ∧ ∀ r,
      blockRest false n s (cells m (c :: r)) = blockRest false n s' (cells (m.after c) r) := by
  have hs : isBlank c = false := by
    rw [isBlank_of_isPrintable hc]
    cases h : c == ' ' with
    | false => rfl
    | true => simp [beq_iff_eq.1 h] at hb
  cases hl : s.inLine with
  | true =>
      refine ⟨{ s with lead := some c, trail := [], inLine := false }, rfl, ?_,
        fun _ => ⟨rfl, rfl⟩, fun r => ?_⟩
      · simp [BlockState.told, hl]
      · rw [cells_cons hc, blockRest.eq_def]
        simp [hl, hb]
  | false =>
      refine ⟨{ s with trail := c :: s.trail }, hl, ?_, (fun h => nomatch h), fun r => ?_⟩
      · simp [BlockState.told, hl]
      · rw [cells_cons hc, blockRest.eq_def]
        simp [hl, hb, hs]

/-- The lines of a text are read as they stand. -/
theorem blockRest_body {n : Nat} (cs : List Char) (s : BlockState) (m : Mark)
    (hcs : Printable cs) (hm : s.inLine = false → m.column = 0) :
    ∃ s' : BlockState, s'.told = cs.reverse ++ s.told ∧
      (s'.inLine = if cs.isEmpty then s.inLine else !endsBroken cs) ∧ ∀ r,
      blockRest false n s (cells m (literalBody n (!s.inLine) cs ++ r)) =
        blockRest false n s' (cells (m.along (literalBody n (!s.inLine) cs)) r) := by
  induction cs generalizing s m with
  | nil => exact ⟨s, rfl, rfl, fun r => by simp [literalBody]⟩
  | cons c cs ih =>
      obtain ⟨hc, hrest⟩ := Printable.cons_iff.1 hcs
      -- it is enough to read one character, with the indentation in front of it
      suffices h : ∃ (front : List Char) (s₁ : BlockState),
          literalBody n (!s.inLine) (c :: cs) = front ++ literalBody n (!s₁.inLine) cs ∧
          s₁.told = c :: s.told ∧ s₁.inLine = !isBreak c ∧
          (s₁.inLine = false → (m.along front).column = 0) ∧
          ∀ r, blockRest false n s (cells m (front ++ r)) =
            blockRest false n s₁ (cells (m.along front) r) by
        obtain ⟨front, s₁, hfront, htold, hline, hcol, hread⟩ := h
        obtain ⟨s', htold', hline', hread'⟩ := ih s₁ (m.along front) hrest hcol
        refine ⟨s', by simp [htold', htold], ?_, fun r => ?_⟩
        · cases cs <;> simp_all [endsBroken, List.getLast?_cons_cons]
        · rw [hfront, List.append_assoc, hread, hread', Mark.along_append]
      cases hb : isBreak c with
      | true =>
          obtain ⟨s₁, hline, htold, -, hread⟩ := blockRest_break (n := n) s hc hb m
          exact ⟨[c], s₁, by simp [literalBody, hb, hline], htold, hline,
            fun _ => by simp [Mark.after, hb, Mark.newLine], hread⟩
      | false =>
          cases hs : s.inLine with
          | true =>
              obtain ⟨s₁, hline, htold, hread⟩ := blockRest_inLine (n := n) hs hc hb m
              exact ⟨[c], s₁, by simp [literalBody, hb, hline], htold, hline,
                (fun h => absurd (hline.symm.trans h) Bool.false_ne_true.symm), hread⟩
          | false =>
              have hcol : (m.along (spaces n)).column = n := by simp [along_spaces, hm hs]
              obtain ⟨s₁, hline, htold, hread⟩ := blockRest_start (n := n) hs hc hb hcol
              refine ⟨spaces n ++ [c], s₁, by simp [literalBody, hb, hline], htold, hline,
                (fun h => absurd (hline.symm.trans h) Bool.false_ne_true.symm), fun r => ?_⟩
              rw [List.append_assoc, blockRest_spaces hs n (by simp [hm hs]), Mark.along_append]
              exact hread r

/-- A break at the end of a text ends its last line. -/
theorem literalBody_concat (n : Nat) {b : Char} (hb : isBreak b = true) (cs : List Char)
    (atStart : Bool) : literalBody n atStart (cs ++ [b]) = literalBody n atStart cs ++ [b] := by
  induction cs generalizing atStart with
  | nil => simp [literalBody, hb]
  | cons c cs ih => cases hc : isBreak c <;> simp [literalBody, hc, ih]

/-! ### The end -/

/-- The way in which the breaks at the end of a text are chomped. -/
def chompingOf (cs : List Char) : Chomping :=
  if !endsBroken cs then .strip
  else if cs.length == 1 || endsBroken cs.dropLast then .keep
  else .clip

/-- The lines of a literal block, up to the start of the line behind it. -/
def literalLines (n : Nat) (cs : List Char) : List Char :=
  literalBody n true cs ++ (if endsBroken cs then [] else ['\n'])

theorem column_along_break (m : Mark) (cs : List Char) {b : Char} (hb : isBreak b = true) :
    (m.along (cs ++ [b])).column = 0 := by
  simp [Mark.along_append, Mark.after, hb, Mark.newLine]

/-- A text that ends with a break is a text with a break behind it. -/
theorem endsBroken_split {cs : List Char} (h : endsBroken cs = true) :
    ∃ init b, cs = init ++ [b] ∧ isBreak b = true := by
  have hne : cs ≠ [] := by rintro rfl; cases h
  refine ⟨cs.dropLast, cs.getLast hne, (List.dropLast_concat_getLast hne).symm, ?_⟩
  simpa [endsBroken, List.getLast?_eq_some_getLast hne] using h

theorem column_along_literalLines (n : Nat) (cs : List Char) (m : Mark) :
    (m.along (literalLines n cs)).column = 0 := by
  unfold literalLines
  cases h : endsBroken cs with
  | false => exact column_along_break _ _ (by decide)
  | true =>
      obtain ⟨init, b, rfl, hb⟩ := endsBroken_split h
      rw [literalBody_concat n hb, if_pos rfl, List.append_nil]
      exact column_along_break _ _ hb

/-- The lines of a literal block give its text, chomped as its header says. -/
theorem blockRest_lines {n : Nat} {cs : List Char} (hcs : Printable cs) (hne : cs ≠ []) {m : Mark}
    (hm : m.column = 0) : ∃ s : BlockState, s.inLine = false ∧
      s.finish (chompingOf cs) = cs.reverse ∧ ∀ r,
      blockRest false n {} (cells m (literalLines n cs ++ r)) =
        blockRest false n s (cells (m.along (literalLines n cs)) r) := by
  unfold literalLines chompingOf
  cases h : endsBroken cs with
  | false =>
      -- the last line ends with a break that does not belong to the text
      obtain ⟨s₁, htold, hline, hread⟩ := blockRest_body (n := n) cs {} m hcs (fun _ => hm)
      have hline : s₁.inLine = true := by simpa [h, List.isEmpty_iff, hne] using hline
      obtain ⟨s₂, hline₂, -, hlast, hread₂⟩ :=
        blockRest_break (n := n) s₁ (c := '\n') (by decide) (by decide)
          (m.along (literalBody n true cs))
      refine ⟨s₂, hline₂, ?_, fun r => ?_⟩
      · simpa [BlockState.finish, (hlast hline).2, BlockState.told, hline] using htold
      · simp only [Bool.false_eq_true, if_false, List.append_assoc, Mark.along_append]
        exact (hread _).trans (hread₂ r)
  | true =>
      simp only [Bool.not_true, Bool.false_eq_true, if_false, if_true, List.append_nil]
      cases hkeep : cs.length == 1 || endsBroken cs.dropLast with
      | true =>
          obtain ⟨s₁, htold, hline, hread⟩ := blockRest_body (n := n) cs {} m hcs (fun _ => hm)
          have hline : s₁.inLine = false := by simpa [h, List.isEmpty_iff, hne] using hline
          refine ⟨s₁, hline, ?_, hread⟩
          simpa [BlockState.finish, BlockState.told, hline] using htold
      | false =>
          -- the one break at the end stands behind a line
          obtain ⟨init, b, rfl, hb⟩ := endsBroken_split h
          simp only [List.length_append, List.length_cons, List.length_nil, List.dropLast_concat,
            Bool.or_eq_false_iff] at hkeep
          have hinit : init ≠ [] := by rintro rfl; simp at hkeep
          obtain ⟨hp, hb'⟩ := Printable.append_iff.1 hcs
          obtain ⟨s₁, htold, hline, hread⟩ := blockRest_body (n := n) init {} m hp (fun _ => hm)
          have hline : s₁.inLine = true := by
            simpa [hkeep.2, List.isEmpty_iff, hinit] using hline
          obtain ⟨s₂, hline₂, htold₂, hlast, hread₂⟩ := blockRest_break (n := n) s₁
            (Printable.cons_iff.1 hb').1 hb (m.along (literalBody n true init))
          refine ⟨s₂, hline₂, ?_, fun r => ?_⟩
          · rw [htold] at htold₂
            simpa [BlockState.finish, BlockState.told, hline₂, (hlast hline).1] using htold₂
          · rw [literalBody_concat n hb, List.append_assoc, Mark.along_append]
            exact (hread _).trans (hread₂ r)

/-- Behind its last line, a literal block ends at the first word that is not indented so far. -/
theorem blockRest_end {n : Nat} {s : BlockState} (hs : s.inLine = false) {k : Nat} {r : List Char}
    (hr : Solid r) (hk : k < n) {m : Mark} (hm : m.column = 0) :
    blockRest false n s (cells m (spaces k ++ r)) = some (s, cells (m.along (spaces k)) r) := by
  rw [blockRest_spaces hs k (by omega)]
  have hcol : (m.along (spaces k)).column = k := by simp [along_spaces, hm]
  generalize m.along (spaces k) = m' at hcol ⊢
  have hlt : k ≠ n := by omega
  cases r with
  | nil => simp [blockRest, hs, isBlank, isBreak, finish]
  | cons c r =>
      obtain ⟨hc, hb, -⟩ := hr.2 c rfl
      have hp := (Printable.cons_iff.1 hr.1).1
      rw [cells_cons hp, blockRest.eq_def]
      simp [hs, isBlank_of_isPrintable hp, hc, hb, hcol, hlt]

/-- The indentation of a text that starts neither with a space nor with a break can be seen. -/
theorem leadingBreaks_spaces {n : Nat} {c : Char} (hc : isPrintable c = true) (hs : c ≠ ' ')
    (hb : isBreak c = false) {m : Mark} (r : List Char) :
    leadingBreaks [] 0 (cells m (spaces n ++ c :: r)) =
      some ([], m.column + n, cells (m.along (spaces n)) (c :: r)) := by
  induction n generalizing m with
  | zero =>
      simp only [spaces, List.replicate, List.nil_append, Mark.along_nil]
      rw [cells_cons hc]
      simp [leadingBreaks, hs, hb, (ne_of_isPrintable hc).2.1]
  | succ n ih =>
      have hsp : spaces (n + 1) = ' ' :: spaces n := rfl
      rw [hsp, List.cons_append, cells_cons isPrintable_space]
      simp only [leadingBreaks, beq_self_eq_true, if_true, ih, Mark.along_cons]
      simp [Mark.after, Mark.next]
      omega

/-- Whether the header of a literal block has to say how far it is indented. -/
def hintOf (cs : List Char) : Bool := cs.head?.any fun c => c == ' ' || isBreak c

theorem literalHeader_eq (cs : List Char) :
    literalHeader cs = '|' :: (hintText (hintOf cs) ++ (chompingOf cs).text) := by
  unfold literalHeader hintText hintOf chompingOf
  cases endsBroken cs with
  | false => rfl
  | true => cases cs.length == 1 || endsBroken cs.dropLast <;> rfl

/-- A literal block, up to the start of the line behind it. -/
def literalText (n : Nat) (cs : List Char) : List Char :=
  literalHeader cs ++ '\n' :: literalLines n cs

/-- **A literal block is read back**, up to the first word behind it. -/
theorem blockScalar_literal {cs : List Char} (hcs : Printable cs) (hne : cs ≠ []) {j k : Nat}
    {r : List Char} (hr : Solid r) (hk : k < j + 2) (m : Mark) :
    blockScalar false (some j) ((cells m (literalText (j + 2) cs ++ (spaces k ++ r))).drop 1) =
      some (String.ofList cs, cells (m.along (literalText (j + 2) cs ++ spaces k)) r) := by
  have hheader : (cells m (literalText (j + 2) cs ++ (spaces k ++ r))).drop 1 =
      cells (m.after '|') (hintText (hintOf cs) ++ ((chompingOf cs).text ++
        '\n' :: (literalLines (j + 2) cs ++ (spaces k ++ r)))) := by
    rw [literalText, literalHeader_eq]
    simp only [List.cons_append, List.append_assoc]
    exact drop_one_cells (by decide) m
  generalize hm₁ : (m.after '|').along
    (hintText (hintOf cs) ++ ((chompingOf cs).text ++ ['\n'])) = m₁ at *
  have hcol : m₁.column = 0 := by
    rw [← hm₁, ← List.append_assoc]
    exact column_along_break _ _ (by decide)
  have hend : m.along (literalText (j + 2) cs ++ spaces k) =
      (m₁.along (literalLines (j + 2) cs)).along (spaces k) := by
    rw [← hm₁, literalText, literalHeader_eq]
    simp [Mark.along_append]
  -- with a known margin, the lines behind the header are read to their end
  obtain ⟨s, hline, hfinish, hread⟩ := blockRest_lines (n := j + 2) hcs hne hcol
  have hlines := (hread (spaces k ++ r)).trans
    (blockRest_end hline hr hk (column_along_literalLines _ cs m₁))
  rw [hheader, blockScalar, blockHeader_text, hm₁, hend]
  cases hhint : hintOf cs with
  | true =>
      simp [hlines, hfinish]
  | false =>
      -- the first line starts with a word, which shows the margin
      obtain ⟨c, cs, rfl⟩ := List.exists_cons_of_ne_nil hne
      obtain ⟨hs, hb⟩ : c ≠ ' ' ∧ isBreak c = false := by simpa [hintOf] using hhint
      obtain ⟨lines, hl⟩ : ∃ lines, literalLines (j + 2) (c :: cs) ++ (spaces k ++ r) =
          spaces (j + 2) ++ c :: lines := by simp [literalLines, literalBody, hb]
      have hlead := leadingBreaks_spaces (n := j + 2) (Printable.cons_iff.1 hcs).1 hs hb
        (m := m₁) lines
      rw [hl, blockRest_spaces rfl (j + 2) (by omega)] at hlines
      have hmargin : max (m₁.column + (j + 2)) (j + 1) = j + 2 := by omega
      rw [hl]
      simp [hlead, hmargin, hlines, hfinish]

end StreamPipeline.Yaml
