import StreamPipeline.Proofs.Yaml.Lexer

/-!
# Scalars among tokens

A written scalar is one token. Before a colon it is found to be a key, and the map that it belongs
to is opened in front of it if need be (`At.simpleKey`); a scalar that ends its line leaves the
reader before the first word of a later one (`At.scalarLine`). Empty collections are two brackets
(`At.brackets`).
-/

namespace StreamPipeline.Yaml.Lexer

variable {s : Lexer} {out : List Token} {blocks : List Nat} {key : Option KeyStart}
  {allowed : Bool} {m : Mark} {cs tail : List Char}

/-! ### What starts at a scalar -/

/-- The place where a key may start is noted if one is allowed. -/
def noted (out : List Token) (blocks : List Nat) (key : Option KeyStart) (allowed : Bool)
    (m : Mark) : Option KeyStart :=
  if allowed then some ⟨blocks.head? == some m.column, out.length, m⟩ else key

theorem noteKey_standing (out : List Token) (blocks : List Nat) (allowed : Bool) (m : Mark)
    (hcs : Printable cs) (hkey : ∀ k ∈ key, k.required = false) :
    (standing out blocks key allowed m cs).noteKey =
      some (standing out blocks (noted out blocks key allowed m) allowed m cs) := by
  unfold noteKey
  rw [dropKey_standing hkey, mark_standing hcs]
  cases allowed <;> simp [standing, noted, inFlow]

/-- The state behind a scalar. -/
def behind (t : Token) (out : List Token) (blocks : List Nat) (key : Option KeyStart)
    (allowed : Bool) (rest : List Cell) : Lexer :=
  { standing (t :: out) blocks key allowed {} [] with rest }

theorem dispatch_plain (h : styleOf cs = .plain) (htail : Printable tail)
    (hkey : ∀ k ∈ key, k.required = false) {broken : Bool} {rest : List Cell}
    (hread : plainScalar false (marginOf blocks) (cells m (cs ++ tail)) =
      some (String.ofList cs, broken, rest)) :
    (standing out blocks key allowed m (cs ++ tail)).dispatch =
      some (behind (.scalar true (String.ofList cs)) out blocks (noted out blocks key allowed m)
        broken rest) := by
  obtain ⟨hstarts, -, -, hline, hp, hspace, -⟩ := of_plainAllowed (of_styleOf_plain h).2
  have hpt : Printable (cs ++ tail) := Printable.append_iff.2 ⟨hp, htail⟩
  have hplain : (standing out blocks key allowed m (cs ++ tail)).plain =
      some (behind (.scalar true (String.ofList cs)) out blocks (noted out blocks key allowed m)
        broken rest) := by
    have hread' : plainScalar (standing out blocks (noted out blocks key allowed m) allowed m
        (cs ++ tail)).inFlow (standing out blocks (noted out blocks key allowed m) allowed m
        (cs ++ tail)).margin (cells m (cs ++ tail)) = some (String.ofList cs, broken, rest) := hread
    unfold plain
    rw [noteKey_standing out blocks allowed m hpt hkey]
    simp only [Option.bind_eq_bind, Option.bind_some]
    rw [show (standing out blocks (noted out blocks key allowed m) allowed m (cs ++ tail)).rest =
      cells m (cs ++ tail) from rfl, hread']
    rfl
  obtain ⟨c, r, rfl, hi, hsign, -⟩ := of_startsPlain hstarts
  have hhead : headChar (cells m (c :: (r ++ tail))) = c := headChar_cells hpt m
  have hgap : isGap c = false := by
    rw [isGap_of_isPrintable (Printable.cons_iff.1 hp).1]
    simp [hspace c rfl, hline c (by simp)]
  -- where the first character may be a sign, the second shows that it is none
  have hnext : c = '?' ∨ c = ':' ∨ c = '-' →
      isGap (charAt 1 (cells m (c :: (r ++ tail)))) = false := fun hc => by
    have hr := hsign hc
    have hne : r ≠ [] := by rintro rfl; simp [isGap] at hr
    obtain ⟨d, r, rfl⟩ := List.exists_cons_of_ne_nil hne
    rw [show c :: (d :: r ++ tail) = (c :: d :: r) ++ tail from rfl, charAt_cells hpt]
    exact hr
  have hblank : c = '-' → isBlank (charAt 1 (cells m (c :: (r ++ tail)))) = false := fun hc => by
    have := hnext (.inr (.inr hc))
    simp only [isGap, Bool.or_eq_false_iff] at this
    exact this.1.1
  rw [← hplain]
  simp only [isIndicator, List.contains_eq_mem, decide_eq_false_iff_not, List.mem_cons,
    List.not_mem_nil, or_false, not_or] at hi
  unfold dispatch flowToken? startsPlain
  by_cases hc : c = '?' ∨ c = ':' ∨ c = '-'
  · have hn := hnext hc
    rcases hc with rfl | rfl | rfl
    · simp [standing, inFlow, hhead, hn]
    · simp [standing, inFlow, hhead, hn]
    · simp [standing, inFlow, hhead, hn, hblank rfl]
  · simp only [not_or] at hc
    simp [standing, inFlow, hhead, hi, hc, hgap, isIndicator]

theorem dispatch_quoted {n : Nat} (hn : 0 < n)
    (h : styleOf cs = .single ∨ styleOf cs = .double) (htail : Printable tail)
    (hquote : ∀ c ∈ tail.head?, c ≠ '\'') (hkey : ∀ k ∈ key, k.required = false) :
    (standing out blocks key allowed m (scalar n cs ++ tail)).dispatch =
      some (behind (.scalar false (String.ofList cs)) out blocks (noted out blocks key allowed m)
        false (cells (m.along (scalar n cs)) tail)) := by
  have hpt : Printable (scalar n cs ++ tail) :=
    Printable.append_iff.2 ⟨printable_scalar n cs, htail⟩
  have hnote := noteKey_standing out blocks allowed m hpt hkey
  obtain ⟨q, body, heq, hq, -, hread⟩ := scalar_quoted n cs h
  have hqp : isPrintable q = true ∧ isBreak q = false := by rcases hq with rfl | rfl <;> decide
  have hcells : (cells m (scalar n cs ++ tail)).drop 1 = cells (m.after q) (body ++ q :: tail) := by
    rw [heq, List.cons_append, drop_one_cells hqp.1, List.append_assoc]
    rfl
  have hhead : headChar (cells m (scalar n cs ++ tail)) = q := by
    rw [headChar_cells hpt, heq]
    rfl
  have hm : 0 < (m.after q).column := by simp [Mark.after_of_not_isBreak hqp.2, Mark.next]
  have hread := hread hn hm htail hquote
  have hend : m.along (scalar n cs) = (m.after q).along (body ++ [q]) := by rw [heq]; rfl
  have hdispatch : (standing out blocks key allowed m (scalar n cs ++ tail)).dispatch =
      (standing out blocks key allowed m (scalar n cs ++ tail)).node
        ((quotedScalar (q == '"') (cells (m.after q) (body ++ q :: tail))).map fun x =>
          (.scalar false x.1, x.2)) := by
    rw [← hcells]
    unfold dispatch flowToken?
    simp only [standing, hhead]
    rcases hq with rfl | rfl <;> simp
  rw [hdispatch, hread, hend]
  simp only [node, hnote]
  rfl

theorem dispatch_literal {j k : Nat} (h : styleOf cs = .literal) (hr : Solid tail) (hk : k ≤ j)
    (hhead : blocks.head? = some j) (hkey : ∀ k ∈ key, k.required = false) :
    (standing out blocks key allowed m (literalText (j + 2) cs ++ (spaces k ++ tail))).dispatch =
      some (behind (.scalar false (String.ofList cs)) out blocks none true
        (cells (m.along (literalText (j + 2) cs ++ spaces k)) tail)) := by
  obtain ⟨hcs, hnl⟩ := of_styleOf_literal h
  have hread := blockScalar_literal hcs (List.ne_nil_of_mem hnl) (j := j) (k := k) hr (by omega) m
  have hchar : headChar (cells m (literalText (j + 2) cs ++ (spaces k ++ tail))) = '|' := by
    rw [headChar_cells]
    · simp [literalText, literalHeader]
    · rw [← scalarLine_literal _ h]
      simp [printable_scalarLine, printable_spaces, hr.1]
  have hdispatch : (standing out blocks key allowed m
      (literalText (j + 2) cs ++ (spaces k ++ tail))).dispatch =
      (standing out blocks key allowed m
        (literalText (j + 2) cs ++ (spaces k ++ tail))).block false := by
    unfold dispatch flowToken?
    simp [standing, hchar, inFlow]
  rw [hdispatch]
  unfold block
  rw [dropKey_standing hkey]
  simp only [Option.bind_eq_bind, Option.bind_some]
  rw [show (standing out blocks none allowed m
    (literalText (j + 2) cs ++ (spaces k ++ tail))).rest =
      cells m (literalText (j + 2) cs ++ (spaces k ++ tail)) from rfl,
    show (standing out blocks none allowed m
      (literalText (j + 2) cs ++ (spaces k ++ tail))).blocks = blocks from rfl, hhead, hread]
  rfl

/-! ### Scalars that end their line -/

/-- The start of a line, and its indentation. -/
theorem skipGap_break {k : Nat} {r : List Char} (hr : Solid r) :
    skipGap false allowed false (cells m ('\n' :: (spaces k ++ r))) =
      (true, cells (m.along ('\n' :: spaces k)) r) := by
  have hspaces : ∀ (k : Nat) (m : Mark), skipGap false true false (cells m (spaces k ++ r)) =
      (true, cells (m.along (spaces k)) r) := by
    intro k
    induction k with
    | zero => exact fun m => skipGap_solid hr m
    | succ k ih =>
        intro m
        rw [show spaces (k + 1) ++ r = ' ' :: (spaces k ++ r) from rfl,
          cells_cons isPrintable_space, skipGap]
        simp only [isBreak_space, Bool.false_eq_true, if_false]
        rw [if_neg (by decide), if_pos (by simp)]
        exact ih _
  rw [cells_cons isPrintable_newLine, skipGap]
  simpa using hspaces k _

/-- The first word of a later line, behind `k` spaces. -/
theorem line_lt_along_break (m : Mark) (cs : List Char) (k : Nat) :
    (m.along (cs ++ '\n' :: spaces k)).column = k ∧
      m.line < (m.along (cs ++ '\n' :: spaces k)).line := by
  have := m.line_le_along cs
  rw [Mark.along_append, Mark.along_cons, along_spaces]
  simp [Mark.after, Mark.newLine]
  omega

theorem line_lt_along_literal (m : Mark) (n : Nat) (cs : List Char) (k : Nat) :
    (m.along (literalText n cs ++ spaces k)).column = k ∧
      m.line < (m.along (literalText n cs ++ spaces k)).line := by
  have hcol := column_along_literalLines n cs ((m.along (literalHeader cs)).after '\n')
  have hline := ((m.along (literalHeader cs)).after '\n').line_le_along (literalLines n cs)
  have hbefore := m.line_le_along (literalHeader cs)
  rw [show ((m.along (literalHeader cs)).after '\n').line = (m.along (literalHeader cs)).line + 1
    from rfl] at hline
  rw [literalText, Mark.along_append, Mark.along_append, Mark.along_cons, along_spaces, hcol]
  exact ⟨Nat.zero_add k, by simp only; omega⟩

/-- What may have been a key in an earlier line is none. -/
theorem noted_free (hkey : ∀ k ∈ key, k.required = false ∧ k.mark.line < m.line)
    (hcol : ∀ j ∈ blocks.head?, j < m.column) {m' : Mark} (hline : m.line < m'.line) :
    ∀ k ∈ noted out blocks key allowed m, k.required = false ∧ k.mark.line < m'.line := by
  intro k hk
  unfold noted at hk
  split at hk
  · cases hk
    refine ⟨beq_eq_false_iff_ne.2 fun h => ?_, hline⟩
    exact Nat.lt_irrefl _ (hcol _ h)
  · exact ⟨(hkey k hk).1, Nat.lt_trans (hkey k hk).2 hline⟩

/-- **A scalar that ends its line is read back**, up to the first word of a later line that is not
indented further than the innermost block. -/
theorem At.scalarLine {j k : Nat} {r : List Char}
    (h : s.At out blocks allowed m (scalarLine (j + 2) cs ++ (spaces k ++ r))) (hr : Solid r)
    (hk : k ≤ j) (hhead : blocks.head? = some j) (hcol : j < m.column) :
    s.Passes m (Yaml.scalarLine (j + 2) cs)
      (.scalar (styleOf cs == .plain) (String.ofList cs) :: out) blocks k r := by
  have htail : Printable (spaces k ++ r) := Printable.append_iff.2 ⟨printable_spaces k, hr.1⟩
  have hkey := fun k hk => (h.key k hk).1
  have hne : Yaml.scalarLine (j + 2) cs ≠ [] := by
    obtain ⟨c, r, heq, -⟩ := scalar_cons (j + 2) cs
    unfold Yaml.scalarLine
    dsimp only
    split <;> simp [heq]
  -- the reader goes on by one token, which the styles read in different ways
  suffices hstep : ∃ key' allowed' rest m', (standing out blocks s.key allowed m
      (Yaml.scalarLine (j + 2) cs ++ (spaces k ++ r))).dispatch =
        some (behind (.scalar (styleOf cs == .plain) (String.ofList cs)) out blocks key' allowed'
          rest) ∧
      skipGap false allowed' false rest = (true, cells m' r) ∧
      (∀ k ∈ key', k.required = false ∧ k.mark.line < m'.line) ∧
      m'.column = k ∧ m.line < m'.line by
    obtain ⟨key', allowed', rest, m', hd, hskip, hkey', hcol', hline⟩ := hstep
    refine ⟨behind (.scalar (styleOf cs == .plain) (String.ofList cs)) out blocks key' allowed'
      rest, m', .one hne ?_, .intro hskip rfl rfl hkey', hcol', hline⟩
    rw [h.next_eq_dispatch (by simp [hne]) (solid_scalarLine (j + 2) cs htail)
      (fun h0 => absurd h0 (by omega)) (by simp [hhead]; omega), hd]
    rfl
  cases hstyle : styleOf cs with
  | literal =>
      rw [scalarLine_literal _ hstyle]
      obtain ⟨hcol', hline⟩ := line_lt_along_literal m (j + 2) cs k
      exact ⟨none, true, _, _, dispatch_literal hstyle hr hk hhead hkey, skipGap_solid hr _,
        (fun _ h => by cases h), hcol', hline⟩
  | plain =>
      obtain ⟨hcol', hline⟩ := line_lt_along_break m cs k
      have htext : Yaml.scalarLine (j + 2) cs ++ (spaces k ++ r) =
          cs ++ '\n' :: (spaces k ++ r) := by
        simp [scalarLine_inline (j + 2) cs (by simp [hstyle]), scalar, hstyle]
      rw [htext]
      refine ⟨_, _, _, _, dispatch_plain hstyle (by simpa using htail) hkey
        (plainScalar_line (of_styleOf_plain hstyle).2 hr ?_ (.inr ?_)), skipGap_solid hr _,
        noted_free h.key (by simpa [hhead] using hcol) hline, hcol', hline⟩
      · simp only [marginOf, hhead, Option.map_some, Option.getD_some]
        omega
      · simp only [marginOf, hhead, Option.map_some, Option.getD_some]
        omega
  | single | double =>
      obtain ⟨hcol', hline⟩ := line_lt_along_break m (scalar (j + 2) cs) k
      have htext : Yaml.scalarLine (j + 2) cs ++ (spaces k ++ r) =
          scalar (j + 2) cs ++ '\n' :: (spaces k ++ r) := by
        simp [scalarLine_inline (j + 2) cs (by simp [hstyle])]
      rw [htext]
      refine ⟨_, _, _, _, dispatch_quoted (by omega) (by simp [hstyle]) (by simpa using htail)
        (by simp) hkey, ?_, noted_free h.key (by simpa [hhead] using hcol) hline, hcol', hline⟩
      rw [Mark.along_append]
      exact skipGap_break hr

/-! ### Keys -/

/-- A colon behind what may be a key: the key is marked, and its map opened, in front of it. -/
theorem value_key (out : List Token) (blocks : List Nat) (t : Token) (required : Bool)
    {m m₁ : Mark} (htail : Printable tail)
    (hline : m₁.line = m.line) (hindex : m₁.index ≤ m.index + 1024) :
    (standing (t :: out) blocks (some ⟨required, out.length, m⟩) false m₁ (':' :: tail)).value =
      some (standing (.value :: t :: .key :: (openers blocks m.column .blockMapStart ++ out))
        (opened blocks m.column) none false m₁.next tail) := by
  have hp : Printable (':' :: tail) := Printable.cons_iff.2 ⟨by decide, htail⟩
  have hreach : KeyStart.reaches ⟨required, out.length, m⟩ m₁ = true := by
    simp [KeyStart.reaches, hline, hindex]
  have hcells : (cells m₁ (':' :: tail)).tail = cells m₁.next tail := by
    rw [← List.drop_one, drop_one_cells (by decide), Mark.after_of_not_isBreak (by decide)]
  unfold value
  rw [mark_standing hp]
  simp only [show (standing (t :: out) blocks (some ⟨required, out.length, m⟩) false m₁
    (':' :: tail)).key = some ⟨required, out.length, m⟩ from rfl, hreach, if_true]
  unfold openBlock openers opened
  by_cases h : marginOf blocks ≤ m.column
  · have h' : (blocks.head?.map (· + 1)).getD 0 ≤ m.column := h
    simp [inFlow, margin, standing, insertAt, push, skip, h, h', hcells]
  · have h' : ¬(blocks.head?.map (· + 1)).getD 0 ≤ m.column := h
    simp [inFlow, margin, standing, insertAt, push, skip, h, h', hcells]

/-- No written key looks like a directive or a marker of a document. -/
theorem unmarked_key {n : Nat} (h : styleOf cs ≠ .literal) (htail : Printable tail) :
    Unmarked (scalar n cs ++ ':' :: tail) := by
  have hp : Printable (scalar n cs ++ ':' :: tail) :=
    Printable.append_iff.2 ⟨printable_scalar n cs, Printable.cons_iff.2 ⟨by decide, htail⟩⟩
  cases hstyle : styleOf cs with
  | literal => exact absurd hstyle h
  | plain =>
      obtain ⟨c, r, rfl, hi, hsign, hdash, hdots⟩ :=
        of_startsPlain (of_plainAllowed (of_styleOf_plain hstyle).2).1
      simp only [scalar, hstyle] at hp ⊢
      refine unmarked_of_take hp ?_ fun d hd he => ?_
      · simp only [List.cons_append, List.head?_cons, ne_eq, Option.some.injEq]
        rintro rfl
        cases hi
      · have hne : ∀ d ∈ ['-', '.'], d ≠ ':' := by simp
        rcases r with _ | ⟨a, _ | ⟨b, r⟩⟩
        · exact hne d hd (by simpa using (List.cons.inj (List.cons.inj he).2).1.symm)
        · exact hne d hd
            (by simpa using (List.cons.inj (List.cons.inj (List.cons.inj he).2).2).1.symm)
        · simp at hd
          rcases hd with rfl | rfl
          · exact hdash (by simpa using he)
          · exact hdots (by simpa using he)
  | single | double =>
      obtain ⟨q, body, heq, hq, -⟩ := scalar_quoted n cs (by simp [hstyle])
      rw [heq] at hp ⊢
      exact unmarked_cons hp (by rcases hq with rfl | rfl <;> decide)

/-- A key on the line of its value is read up to its colon. -/
theorem dispatch_simpleKey {k : String} {n : Nat} (hn : 0 < n) (hk : isSimpleKey k = true)
    (htail : Printable tail) (hgap : isGap (tail.headD finish) = true)
    (hmargin : marginOf blocks ≤ m.column + 1) (hkey : ∀ k ∈ key, k.required = false) :
    (standing out blocks key allowed m (scalar n k.toList ++ ':' :: tail)).dispatch =
      some (standing (.scalar (styleOf k.toList == .plain) k :: out) blocks
        (noted out blocks key allowed m) false (m.along (scalar n k.toList)) (':' :: tail)) := by
  have hp : Printable (':' :: tail) := Printable.cons_iff.2 ⟨by decide, htail⟩
  cases hs : styleOf k.toList with
  | literal => exact absurd hs (scalar_simpleKey n hk).1
  | plain =>
      simp only [scalar, hs]
      refine (dispatch_plain hs hp hkey
        (plainScalar_key (of_styleOf_plain hs).2 htail hgap hmargin)).trans ?_
      rw [String.ofList_toList]
      rfl
  | single | double =>
      refine (dispatch_quoted hn (by simp [hs]) hp (by simp) hkey).trans ?_
      rw [String.ofList_toList]
      rfl

/-- A colon in front of a gap is a sign. -/
theorem dispatch_colon (htail : Printable tail) (hgap : isGap (tail.headD finish) = true) :
    (standing out blocks key allowed m (':' :: tail)).dispatch =
      (standing out blocks key allowed m (':' :: tail)).value := by
  have hp : Printable (':' :: tail) := Printable.cons_iff.2 ⟨by decide, htail⟩
  have hhead : headChar (cells m (':' :: tail)) = ':' := headChar_cells hp _
  have hnext : isGap (charAt 1 (cells m (':' :: tail))) = true := by
    rw [charAt_cells hp]
    simpa [List.getD_eq_getElem?_getD, List.headD_eq_head?_getD, List.head?_eq_getElem?] using hgap
  simp [dispatch, flowToken?, standing, hhead, hnext]

/-- **A key on the line of its value is read back**, and so is the colon behind it. -/
theorem At.simpleKey {k : String} {n : Nat} (hn : 0 < n) (hk : isSimpleKey k = true)
    (h : s.At out blocks true m (scalar n k.toList ++ ':' :: tail)) (htail : Printable tail)
    (hgap : isGap (tail.headD finish) = true)
    (hopen : (opened blocks m.column).head? = some m.column) :
    s.Reads (scalar n k.toList ++ [':'])
      (standing (.value :: .scalar (styleOf k.toList == .plain) k :: .key ::
        (openers blocks m.column .blockMapStart ++ out)) (opened blocks m.column) none false
        (m.along (scalar n k.toList)).next tail) := by
  obtain ⟨hstyle, hline, hlength⟩ := scalar_simpleKey n hk
  have hp : Printable (':' :: tail) := Printable.cons_iff.2 ⟨by decide, htail⟩
  have hhead := le_of_opened hopen
  have hmargin : marginOf blocks ≤ m.column + 1 := by
    unfold marginOf
    cases hb : blocks.head? with
    | none => simp
    | some j => simpa using hhead j hb
  obtain ⟨c, r, hne, -⟩ := scalar_cons n k.toList
  have halong := Mark.along_of_line (m := m) hline
  -- the key is read, and its start noted
  have hfirst : s.next = some (standing (.scalar (styleOf k.toList == .plain) k :: out) blocks
      (noted out blocks s.key true m) false (m.along (scalar n k.toList)) (':' :: tail),
      false) := by
    rw [h.next_eq_dispatch (by simp [hne]) (solid_scalar n k.toList hp)
      (fun _ => unmarked_key hstyle htail) hhead,
      dispatch_simpleKey hn hk htail hgap hmargin fun k hk => (h.key k hk).1]
    rfl
  -- the colon is read, and finds the key where it was noted
  have hvalue := value_key out blocks (.scalar (styleOf k.toList == .plain) k)
    (blocks.head? == some m.column) htail
    (show (m.along (scalar n k.toList)).line = m.line by simp [halong])
    (by simpa [halong] using hlength)
  have hcol : m.column ≤ (m.along (scalar n k.toList)).column := by simp [halong]
  refine (Reads.one (by simp [hne]) hfirst).trans (.one (by simp) ?_)
  rw [next_standing (by simp) ⟨hp, by simp [isBreak]⟩ (fun _ => unmarked_cons hp (by decide))
    (fun j hj => Nat.le_trans (hhead j hj) hcol), dispatch_colon htail hgap,
    show noted out blocks s.key true m =
      some ⟨blocks.head? == some m.column, out.length, m⟩ from rfl, hvalue]
  rfl

/-- Behind a colon, the value stands in the same line. -/
theorem standing_at_space (out : List Token) (blocks : List Nat) (m : Mark) {r : List Char}
    (hr : Solid r) :
    (standing out blocks none false m (' ' :: r)).At out blocks false m.next r :=
  .intro (skipGap_space hr) rfl rfl (fun _ h => by cases h)

/-- Behind a colon, the value stands in a later line. -/
theorem standing_at_break (out : List Token) (blocks : List Nat) (m : Mark) (k : Nat)
    {r : List Char} (hr : Solid r) :
    (standing out blocks none false m ('\n' :: (spaces k ++ r))).At out blocks true
      (m.along ('\n' :: spaces k)) r :=
  .intro (skipGap_break hr) rfl rfl (fun _ h => by cases h)

/-! ### Empty collections -/

/-- The brackets of a list and those of a map, and what they stand for. -/
def brackets : List ((Char × Token) × (Char × Token)) :=
  [(('[', .flowListStart), (']', .flowListEnd)), (('\x7b', .flowMapStart), ('\x7d', .flowMapEnd))]

theorem bracket_char {p : (Char × Token) × (Char × Token)} (hp : p ∈ brackets) {c : Char}
    (hc : c = p.1.1 ∨ c = p.2.1) : isPrintable c = true ∧ isBreak c = false ∧ c ≠ ' ' ∧ c ≠ '#' ∧
      c ≠ '%' ∧ c ≠ '-' ∧ c ≠ '.' := by
  simp only [brackets, List.mem_cons, List.not_mem_nil, or_false] at hp
  rcases hp with rfl | rfl <;> rcases hc with rfl | rfl <;> decide

/-- The state within brackets that have just been opened. -/
def within (t : Token) (out : List Token) (blocks : List Nat) (key : Option KeyStart) (m : Mark)
    (cs : List Char) : Lexer :=
  { standing (t :: out) blocks none true m cs with outerKeys := [key] }

theorem dispatch_flow {s' : Option Lexer} (h : s.flowToken? (headChar s.rest) = some s') :
    s.dispatch = s' := by
  simp only [dispatch, h]

variable {a b : Char} {t u : Token} {r : List Char}

theorem dispatch_opens (hab : ((a, t), (b, u)) ∈ brackets) (hr : Printable (a :: r))
    (hkey : ∀ k ∈ key, k.required = false) :
    (standing out blocks key allowed m (a :: r)).dispatch =
      some (within t out blocks (noted out blocks key allowed m) m.next r) := by
  obtain ⟨ha, hb, -⟩ := bracket_char hab (.inl rfl)
  have hnote := noteKey_standing out blocks allowed m hr hkey
  have hrest : (cells m (a :: r)).tail = cells m.next r := by
    rw [← List.drop_one, drop_one_cells ha, Mark.after_of_not_isBreak hb]
  refine dispatch_flow ?_
  rw [show (standing out blocks key allowed m (a :: r)).rest = cells m (a :: r) from rfl,
    headChar_cells hr]
  simp only [brackets, List.mem_cons, Prod.mk.injEq, List.not_mem_nil, or_false] at hab
  rcases hab with ⟨⟨rfl, rfl⟩, -⟩ | ⟨⟨rfl, rfl⟩, -⟩ <;>
    simp only [List.headD_cons, flowToken?, hnote] <;>
    simp [standing, push, skip, hrest, within]

theorem dispatch_closes (hab : ((a, t), (b, u)) ∈ brackets) (hr : Printable (b :: r)) :
    (within t out blocks key m (b :: r)).dispatch =
      some (behind u (t :: out) blocks key false (cells m.next r)) := by
  obtain ⟨hb, hbreak, -⟩ := bracket_char hab (.inr rfl)
  have hrest : (cells m (b :: r)).tail = cells m.next r := by
    rw [← List.drop_one, drop_one_cells hb, Mark.after_of_not_isBreak hbreak]
  refine dispatch_flow ?_
  rw [show (within t out blocks key m (b :: r)).rest = cells m (b :: r) from rfl,
    headChar_cells hr]
  simp only [brackets, List.mem_cons, Prod.mk.injEq, List.not_mem_nil, or_false] at hab
  rcases hab with ⟨-, rfl, rfl⟩ | ⟨-, rfl, rfl⟩ <;>
    simp [flowToken?, within, standing, dropKey, push, skip, hrest, behind]

theorem next_closes (hab : ((a, t), (b, u)) ∈ brackets) (hr : Printable (b :: r)) :
    (within t out blocks key m (b :: r)).next =
      some (behind u (t :: out) blocks key false (cells m.next r), false) := by
  obtain ⟨hb, hbreak, hspace, hsharp, hmark⟩ := bracket_char hab (.inr rfl)
  have hsolid : Solid (b :: r) := ⟨hr, fun c hc => by cases hc; exact ⟨hspace, hbreak, hsharp⟩⟩
  have hc : headChar (within t out blocks key m (b :: r)).rest = b := headChar_cells hr m
  have hmarker : atDocumentMarker (within t out blocks key m (b :: r)).rest = false :=
    (unmarked_cons hr hmark).2 m
  have hgap : skipGap (within t out blocks key m (b :: r)).inFlow
      (within t out blocks key m (b :: r)).keyAllowed false
      (within t out blocks key m (b :: r)).rest = (true, cells m (b :: r)) := skipGap_solid hsolid m
  rw [next_eq_dispatch hgap rfl (by rw [hc]; exact (ne_of_isPrintable hb).1)
    (fun _ => by rw [hc]; exact hmark.1) hmarker, dispatch_closes hab hr]
  rfl

/-- **Brackets with nothing between them are read back** as an empty collection. -/
theorem At.brackets (hab : ((a, t), (b, u)) ∈ brackets) {k : Nat}
    (h : s.At out blocks allowed m (a :: b :: '\n' :: (spaces k ++ r))) (hr : Solid r)
    (hcol : ∀ j ∈ blocks.head?, j < m.column) :
    s.Passes m [a, b, '\n'] (u :: t :: out) blocks k r := by
  obtain ⟨ha, hab', hah⟩ := bracket_char hab (.inl rfl)
  have hb := (bracket_char hab (.inr rfl)).1
  have hline : Printable ('\n' :: (spaces k ++ r)) := by simp [printable_spaces, hr.1]
  have hpb : Printable (b :: '\n' :: (spaces k ++ r)) := Printable.cons_iff.2 ⟨hb, hline⟩
  have hpa : Printable (a :: b :: '\n' :: (spaces k ++ r)) := Printable.cons_iff.2 ⟨ha, hpb⟩
  have hfirst : s.Reads [a] (within t out blocks (noted out blocks s.key allowed m) m.next
      (b :: '\n' :: (spaces k ++ r))) := by
    refine .one (by simp) ?_
    rw [h.next_eq_dispatch (by simp) ⟨hpa, fun c hc => by cases hc; exact ⟨hah.1, hab', hah.2.1⟩⟩
      (fun _ => unmarked_cons hpa hah.2.2) (fun j hj => Nat.le_of_lt (hcol j hj)),
      dispatch_opens hab hpa fun k hk => (h.key k hk).1]
    rfl
  obtain ⟨hcol', hline'⟩ := line_lt_along_break m.next.next [] k
  exact ⟨_, _, hfirst.trans (.one (by simp) (next_closes hab hpb)),
    .intro (skipGap_break hr) rfl rfl (noted_free h.key hcol hline'), hcol', hline'⟩

/-! ### The end of the text -/

theorem closeWhile_all (bs : List Nat) :
    closeWhile (fun _ => true) bs = (List.replicate bs.length .blockEnd, []) := by
  have h := closeWhile_append (fun _ => true) bs []
    (fun _ _ => rfl) (fun _ hc => by cases hc)
  rwa [List.append_nil] at h

/-- However many blocks are closed first, there is one end for each block. -/
theorem ends_closeWhile (p : Nat → Bool) (bs : List Nat) :
    List.replicate (closeWhile p bs).2.length Token.blockEnd ++ (closeWhile p bs).1 =
      List.replicate bs.length .blockEnd := by
  induction bs with
  | nil => rfl
  | cons c r ih =>
      unfold closeWhile
      split
      · -- an end more stands behind the others as well as in front of them
        rw [List.length_cons, List.replicate_succ, ← ih, ← List.cons_append,
          ← List.replicate_succ, List.replicate_succ', List.append_assoc]
        rfl
      · simp

theorem closeBlocks_eq (p : Nat → Bool) (hflow : s.outerKeys = []) :
    s.closeBlocks p = { s with
      out := (closeWhile p s.blocks).1 ++ s.out
      count := s.count + (closeWhile p s.blocks).1.length
      blocks := (closeWhile p s.blocks).2 } := by
  unfold closeBlocks
  rw [if_neg (by simp [inFlow, hflow])]

/-- The state with no block open and no key waited for. -/
def closed (s : Lexer) : Lexer :=
  { s with
    out := List.replicate s.blocks.length .blockEnd ++ s.out
    count := s.count + s.blocks.length
    blocks := []
    key := none
    keyAllowed := false }

theorem closeAll_closeBlocks (p : Nat → Bool) (hflow : s.outerKeys = [])
    (hkey : ∀ k ∈ s.key, k.required = false) : (s.closeBlocks p).closeAll = some s.closed := by
  have hends := ends_closeWhile p s.blocks
  have hcount := congrArg List.length hends
  simp only [List.length_append, List.length_replicate] at hcount
  rw [closeBlocks_eq p hflow]
  unfold closeAll
  rw [closeBlocks_eq, dropKey_eq, closeWhile_all]
  · simp only [Option.bind_eq_bind, Option.bind_some, ← List.append_assoc, hends,
      List.length_replicate, Nat.add_assoc]
    rw [Nat.add_comm (closeWhile p s.blocks).1.length, hcount]
    rfl
  · exact hkey
  · exact hflow

/-- At the end of the text everything is closed. -/
theorem At.finish (h : s.At out [] allowed m []) :
    ∃ s', s.next = some (s', true) ∧ s'.out = out := by
  obtain ⟨ended, hb, hout, -⟩ := h.pending
  rw [List.append_nil] at hb
  have hgap : skipGap s.inFlow s.keyAllowed false s.rest = (allowed, cells m []) := by
    rw [show s.inFlow = false by simp [inFlow, h.flow]]
    exact h.rest
  have hall := closeAll_closeBlocks
    (s := { s with rest := cells m [], keyAllowed := allowed }) (m.column < ·) h.flow
    fun k hk => (h.key k hk).1
  refine ⟨closed { s with rest := cells m [], keyAllowed := allowed }, ?_, by
    simp only [closed, hout, ← hb]⟩
  unfold next
  rw [hgap]
  rw [cells_nil] at hall ⊢
  simp only [headChar, beq_self_eq_true, if_true]
  exact congrArg (Option.map fun s => (s, true)) hall

end StreamPipeline.Yaml.Lexer
