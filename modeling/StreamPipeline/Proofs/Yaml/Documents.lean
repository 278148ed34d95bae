import StreamPipeline.Proofs.Outcome
import StreamPipeline.Proofs.Yaml.Node

/-!
# Texts of documents

Trees that are written one behind the other, with the marker of a document between them, are read
as these trees (`documents?_renderAll`), and so is a single one (`documents?_render`). A marker
stands at the start of a line, where no scalar has its text: the lines of a literal block and those
of a quoted text are indented, whatever they say.
-/

namespace StreamPipeline.Yaml

/-- The line between two documents. -/
def documentLine : String := "---\n"

/-- Documents in one text. -/
def renderAll (ts : List Tree) : String := documentLine.intercalate (ts.map Tree.render)

/-- The text of documents behind another one. -/
def furtherText (ts : List Tree) : List Char :=
  ts.flatMap fun t => documentLine.toList ++ block 0 t

/-- The tokens of documents behind another one. -/
def furtherTokens (ts : List Tree) : List Token :=
  ts.flatMap fun t => .documentStart :: t.tokens false

theorem furtherText_cons (t : Tree) (ts : List Tree) :
    furtherText (t :: ts) = documentLine.toList ++ (block 0 t ++ furtherText ts) := by
  simp [furtherText]

theorem furtherTokens_cons (t : Tree) (ts : List Tree) :
    furtherTokens (t :: ts) = .documentStart :: (t.tokens false ++ furtherTokens ts) := by
  simp [furtherTokens]

theorem renderAll_cons (t : Tree) (ts : List Tree) :
    (renderAll (t :: ts)).toList = block 0 t ++ furtherText ts := by
  rw [renderAll, String.toList_intercalate]
  induction ts generalizing t with
  | nil => simp [furtherText, Tree.render]
  | cons u us ih =>
      simp only [List.map_cons, List.intercalate_cons_cons] at ih ⊢
      rw [ih u]
      simp [furtherText, Tree.render]

theorem solid_furtherText (ts : List Tree) : Solid (furtherText ts) := by
  refine ⟨fun c hc => ?_, ?_⟩
  · obtain ⟨t, -, hc⟩ := List.mem_flatMap.1 hc
    have hline : Printable documentLine.toList := .of_all (by decide)
    exact Printable.append_iff.2 ⟨hline, printable_block 0 t⟩ c hc
  · cases ts with
    | nil => exact fun c hc => nomatch hc
    | cons t ts =>
        intro c hc
        cases hc
        decide

/-! ### Tokens -/

namespace Lexer

variable {s : Lexer} {out : List Token} {blocks : List Nat} {allowed : Bool} {m : Mark}
  {r : List Char}

/-- At the end of the text all blocks are left. -/
theorem At.left (h : s.At out blocks allowed m []) :
    s.At (List.replicate blocks.length .blockEnd ++ out) [] allowed m [] where
  rest := h.rest
  flow := h.flow
  count := h.count
  key := h.key
  pending := by
    obtain ⟨ended, hb, hout, -⟩ := h.pending
    refine ⟨ended ++ blocks, by rw [hb, List.append_nil], ?_, fun _ _ => .inl rfl⟩
    rw [hout, ← List.append_assoc, List.replicate_append_replicate, List.length_append,
      Nat.add_comm]

/-- The reader goes over a document; with the blocks that are still open behind it closed, it has
the tokens of the document. -/
theorem At.document {t : Tree} (ht : t.isCollection = true)
    (h : s.At out [] true m (Yaml.block 0 t ++ r)) (hr : Solid r) (hcol : m.column = 0) :
    ∃ out' blocks, s.Passes m (Yaml.block 0 t) out' blocks 0 r ∧
      List.replicate blocks.length .blockEnd ++ out' = (t.tokens false).reverse ++ out := by
  have hat : s.At out [] true m (Yaml.block 0 t ++ (spaces 0 ++ r)) := h
  match t, ht with
  | .list [], _ =>
      rw [Yaml.block] at hat ⊢
      have hp := Lexer.At.brackets (t := .flowListStart) (u := .flowListEnd)
        (by simp [Lexer.brackets]) hat hr (fun _ h => by cases h)
      exact ⟨_, [], hp, by simp [Tree.tokens]⟩
  | .map [], _ =>
      rw [Yaml.block] at hat ⊢
      have hp := Lexer.At.brackets (t := .flowMapStart) (u := .flowMapEnd)
        (by simp [Lexer.brackets]) hat hr (fun _ h => by cases h)
      exact ⟨_, [], hp, by simp [Tree.tokens]⟩
  | .list (x :: xs), _ =>
      rw [block_list] at hat ⊢
      have hp := readableItems (x :: xs) (by simp) hat hr (Nat.le_refl 0) rfl hcol
      exact ⟨_, [0], hp, by simp [Tree.tokens, openers, marginOf]⟩
  | .map (e :: es), _ =>
      rw [block_map] at hat ⊢
      have hp := readableEntries (e :: es) (by simp) hat hr (Nat.le_refl 0) rfl hcol
      exact ⟨_, [0], hp, by simp [Tree.tokens, openers, marginOf]⟩

theorem At.next_marker (h : s.At out blocks allowed m (documentLine.toList ++ r)) (hr : Solid r)
    (hcol : m.column = 0) :
    s.next = some (((closed { s with rest := cells m (documentLine.toList ++ r),
                                     keyAllowed := allowed }).push .documentStart).skip 3,
      false) := by
  have hp : Printable (documentLine.toList ++ r) :=
    Printable.append_iff.2 ⟨.of_all (by decide), hr.1⟩
  have hmark : headMark (cells m (documentLine.toList ++ r)) = m := headMark_cells hp m
  have hhead : headChar (cells m (documentLine.toList ++ r)) = '-' := headChar_cells hp m
  have hmarker : atMarker '-' (cells m (documentLine.toList ++ r)) = true := by
    simp only [atMarker, hmark, hcol, charAt_cells hp]
    simp [documentLine, isGap, isBreak]
  have hgap : skipGap s.inFlow s.keyAllowed false s.rest =
      (allowed, cells m (documentLine.toList ++ r)) := by
    rw [show s.inFlow = false by simp [inFlow, h.flow]]
    exact h.rest
  have hall := closeAll_closeBlocks
    (s := { s with rest := cells m (documentLine.toList ++ r), keyAllowed := allowed })
    (m.column < ·) h.flow fun k hk => (h.key k hk).1
  unfold next
  rw [hgap]
  simp only [Lexer.mark, hhead, hmark, hmarker]
  rw [if_neg (by decide), if_neg (by simp), if_pos trivial, hall]
  rfl

/-- The reader goes over the line in front of a document, which closes all blocks. -/
theorem At.marker (h : s.At out blocks allowed m (documentLine.toList ++ r)) (hr : Solid r)
    (hcol : m.column = 0) :
    ∃ s' m', s.Reads documentLine.toList s' ∧ m'.column = 0 ∧
      s'.At (.documentStart :: (List.replicate blocks.length .blockEnd ++ out)) [] true m' r := by
  obtain ⟨ended, hb, hout, -⟩ := h.pending
  have hdash : isPrintable '-' = true := by decide
  have hrest : (cells m (documentLine.toList ++ r)).drop 3 =
      cells m.next.next.next ('\n' :: (spaces 0 ++ r)) := by
    rw [show documentLine.toList ++ r = '-' :: '-' :: '-' :: '\n' :: r from rfl]
    simp only [cells_cons hdash]
    rfl
  have hall : List.replicate s.blocks.length Token.blockEnd ++ s.out =
      List.replicate blocks.length .blockEnd ++ out := by
    rw [hb, hout, List.length_append, Nat.add_comm, ← List.replicate_append_replicate,
      List.append_assoc]
  refine ⟨_, m.along documentLine.toList, .one (by decide) (h.next_marker hr hcol), rfl, ?_⟩
  rw [← hall]
  refine .intro ?_ h.flow ?_ (fun _ h => by cases h)
  · rw [show m.along documentLine.toList = m.next.next.next.along ('\n' :: spaces 0) from rfl,
      ← skipGap_break hr, ← hrest]
    rfl
  · simp [closed, push, skip, h.count, Nat.add_comm]

variable {t : Tree} {ts : List Tree}

/-- The reader goes over documents, each behind its line, up to the end of the text. -/
theorem At.documents (hts : ∀ t ∈ ts, t.isCollection = true)
    (h : s.At out blocks true m (furtherText ts)) (hcol : m.column = 0) :
    ∃ s' m', s.Reads (furtherText ts) s' ∧
      s'.At ((furtherTokens ts).reverse ++ (List.replicate blocks.length .blockEnd ++ out)) [] true
        m' [] := by
  induction ts generalizing s out blocks m with
  | nil => exact ⟨s, m, .none s _, h.left⟩
  | cons t ts ih =>
      have hrest := solid_furtherText ts
      rw [furtherText_cons] at h ⊢
      obtain ⟨s₁, m₁, hreads₁, hcol₁, hat₁⟩ := h.marker (solid_block 0 t hrest.1) hcol
      obtain ⟨out₂, blocks₂, ⟨s₂, m₂, hreads₂, hat₂, hcol₂, -⟩, hout₂⟩ :=
        hat₁.document (hts t (by simp)) hrest hcol₁
      obtain ⟨s₃, m₃, hreads₃, hat₃⟩ := ih (fun u hu => hts u (by simp [hu])) hat₂ hcol₂
      refine ⟨s₃, m₃, hreads₁.trans (hreads₂.trans hreads₃), ?_⟩
      rw [hout₂] at hat₃
      simpa [furtherTokens] using hat₃

end Lexer

/-- **Written documents are cut into their tokens**, with the sign of a document between them. -/
theorem tokens?_renderAll {t : Tree} {ts : List Tree} (h : ∀ u ∈ t :: ts, u.isCollection = true) :
    tokens? (renderAll (t :: ts)).toList = some (t.tokens false ++ furtherTokens ts) := by
  have hrest := solid_furtherText ts
  have hsolid := solid_block 0 t hrest.1
  have hat : (({ rest := cells {} (block 0 t ++ furtherText ts) } : Lexer)).At [] [] true {}
      (block 0 t ++ furtherText ts) :=
    .intro (Lexer.skipGap_solid hsolid _) rfl rfl (fun _ h => by cases h)
  obtain ⟨out, blocks, ⟨s₁, m₁, hreads₁, hat₁, hcol₁, -⟩, hout⟩ :=
    hat.document (h t (by simp)) hrest rfl
  obtain ⟨s₂, m₂, hreads₂, hat₂⟩ := hat₁.documents (fun u hu => h u (by simp [hu])) hcol₁
  obtain ⟨steps, hsteps, hgoes⟩ := hreads₁.trans hreads₂
  obtain ⟨s₃, hnext, hfinal⟩ := hat₂.finish
  have hall : (block 0 t ++ furtherText ts).all isAllowed = true :=
    List.all_eq_true.2 fun c hc => isAllowed_of_isPrintable (hsolid.1 c hc)
  obtain ⟨spare, hspare⟩ := Nat.exists_eq_add_of_le hsteps
  rw [renderAll_cons, tokens?, if_pos hall, hspare, Nat.add_assoc, hgoes.run, Lexer.run, hnext]
  simp [hfinal, hout]

/-! ### Nodes -/

theorem startsDocument_of_startsTree (x : Token) (r : List Token) (h : x.startsTree false = true) :
    startsDocument (x :: r) = false ∧ endsDocument (x :: r) = false := by
  cases x <;> first | exact ⟨rfl, rfl⟩ | cases h

theorem dropEnds_furtherTokens (ts : List Tree) :
    dropEnds (furtherTokens ts) = furtherTokens ts := by
  cases ts <;> rfl

theorem length_le_furtherTokens (ts : List Tree) : ts.length ≤ (furtherTokens ts).length := by
  induction ts with
  | nil => exact Nat.zero_le _
  | cons t ts ih =>
      rw [furtherTokens_cons]
      simp only [List.length_cons, List.length_append]
      omega

theorem announced_furtherTokens (ts : List Tree) {fuel : Nat} (hfuel : ts.length ≤ fuel) :
    announced fuel (furtherTokens ts) = some (ts.map Tree.node) := by
  induction ts generalizing fuel with
  | nil => simp [furtherTokens, announced]
  | cons t ts ih =>
      obtain ⟨fuel, rfl⟩ := Nat.exists_eq_add_of_le' (Nat.le_trans (Nat.succ_pos _) hfuel)
      have hnode := (arranges t : Arranges standardHandles t) false false
        (2 * (t.tokens false ++ furtherTokens ts).length + 3) (furtherTokens ts) id
        (by simp [stepsFor]; omega) (fun h => by cases h)
      have hunless : nodeUnless (2 * (t.tokens false ++ furtherTokens ts).length + 4)
          standardHandles true false (endsDocument (t.tokens false ++ furtherTokens ts))
          (t.tokens false ++ furtherTokens ts) = some (t.node, furtherTokens ts) :=
        (nodeUnless_tokens t fun x r hx => (startsDocument_of_startsTree x r hx).2).trans hnode
      rw [furtherTokens_cons, announced]
      · simp only [directives?, List.nil_append, Option.bind_eq_bind, Option.bind_some]
        rw [hunless]
        simp [dropEnds_furtherTokens, ih (Nat.le_of_succ_le_succ hfuel)]
      · intro h
        cases h

/-- **Lists and maps that are written in one text are read as their nodes.** -/
theorem documents?_renderAll {ts : List Tree} (hne : ts ≠ [])
    (h : ∀ t ∈ ts, t.isCollection = true) :
    documents? (renderAll ts) = some (ts.map Tree.document) := by
  obtain ⟨t, ts, rfl⟩ := List.exists_cons_of_ne_nil hne
  obtain ⟨x, r, heq, hx⟩ := tokens_cons false t
  have hstart : ((t.tokens false ++ furtherTokens ts).isEmpty ||
      startsDocument (t.tokens false ++ furtherTokens ts)) = false := by
    rw [heq]
    exact (startsDocument_of_startsTree x _ hx).1
  have hnode := (arranges t : Arranges standardHandles t) false false
    (2 * (t.tokens false ++ furtherTokens ts).length + 4) (furtherTokens ts) id
    (by simp [stepsFor]; omega) (fun h => by cases h)
  have harrange : arrange (t.tokens false ++ furtherTokens ts) =
      some ((t :: ts).map Tree.node) := by
    rw [arrange, hstart, if_neg Bool.false_ne_true, hnode]
    simp [dropEnds_furtherTokens, announced_furtherTokens ts (length_le_furtherTokens ts)]
  rw [documents?, tokens?_renderAll h]
  simp only [Option.bind_eq_bind, Option.bind_some, harrange]
  exact List.mapM_map_eq_pure _ fun u _ => Document.of?_node u

/-- **A written list or map is read as its node.** -/
theorem documents?_render {t : Tree} (h : t.isCollection = true) :
    documents? t.render = some [t.document] := by
  have hall := documents?_renderAll (List.cons_ne_nil t []) (by simpa using h)
  rwa [renderAll, List.map_singleton, String.intercalate_singleton] at hall

end StreamPipeline.Yaml
