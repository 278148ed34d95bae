import StreamPipeline.Proofs.Yaml.Words

/-!
# The tokens of a written tree

`Tree.tokens` says into which tokens a tree is cut once it is written. The reader goes over the text
of a tree wherever the writer puts one, and has its tokens behind it: over a value at the start of a
line or behind a sign (`readable`), over the items of a list and over the entries of a map
(`readableItems`, `readableEntries`).
-/

namespace StreamPipeline.Yaml

/-! ### Tokens -/

mutual

/-- The tokens of a tree; a list is `loose` if it has no indentation of its own. -/
def Tree.tokens (loose : Bool) : Tree → List Token
  | .text s => [.scalar (styleOf s.toList == .plain) s]
  | .list [] => [.flowListStart, .flowListEnd]
  | .list (t :: ts) =>
    if loose then itemTokens (t :: ts)
    else .blockListStart :: (itemTokens (t :: ts) ++ [.blockEnd])
  | .map [] => [.flowMapStart, .flowMapEnd]
  | .map (e :: es) => .blockMapStart :: (entryTokens (e :: es) ++ [.blockEnd])

/-- The tokens of the items of a list. -/
def itemTokens : List Tree → List Token
  | [] => []
  | t :: r => .blockEntry :: (t.tokens false ++ itemTokens r)

/-- The tokens of the entries of a map. -/
def entryTokens : List (String × Tree) → List Token
  | [] => []
  | (k, t) :: r =>
    .key :: .scalar (styleOf k.toList == .plain) k :: .value ::
      (t.tokens (isSimpleKey k) ++ entryTokens r)

end

/-! ### Text -/

/-- What follows the colon behind a key on its line. -/
def besideKey (n : Nat) (t : Tree) : List Char :=
  match t with
  | .list (_ :: _) => '\n' :: (spaces n ++ block n t)
  | .map (_ :: _) => '\n' :: (spaces (n + 2) ++ block (n + 2) t)
  | _ => ' ' :: block (n + 2) t

/-- The text of an entry. -/
def entryText (n : Nat) (k : String) (t : Tree) : List Char :=
  if isSimpleKey k then scalar (n + 2) k.toList ++ ':' :: besideKey n t
  else '?' :: ' ' :: (scalarLine (n + 2) k.toList ++ (spaces n ++ ':' :: ' ' :: block (n + 2) t))

theorem entries'_cons (n : Nat) (k : String) (t : Tree) (r : List (String × Tree)) :
    entries' n ((k, t) :: r) = entryText n k t :: entries' n r := by
  rw [entries'.eq_def]
  rfl

/-- The text of several items or entries that follow one another. -/
def lines (n : Nat) (texts : List (List Char)) : List Char := (spaces n).intercalate texts

theorem block_list (n : Nat) (x : Tree) (xs : List Tree) :
    block n (.list (x :: xs)) = lines n (items' n (x :: xs)) := by
  rw [block]
  rfl

theorem block_map (n : Nat) (e : String × Tree) (es : List (String × Tree)) :
    block n (.map (e :: es)) = lines n (entries' n (e :: es)) := by
  rw [block]
  rfl

@[simp] theorem lines_singleton (n : Nat) (x : List Char) : lines n [x] = x :=
  List.intercalate_singleton

@[simp] theorem lines_cons_cons (n : Nat) (x y : List Char) (texts : List (List Char)) :
    lines n (x :: y :: texts) = x ++ (spaces n ++ lines n (y :: texts)) := by
  rw [lines, List.intercalate_cons_cons, List.append_assoc]
  rfl

/-- Lines start with the first of them. -/
theorem lines_cons (n : Nat) (x : List Char) (texts : List (List Char)) :
    ∃ more, lines n (x :: texts) = x ++ more := by
  cases texts with
  | nil => exact ⟨[], by simp⟩
  | cons y texts => exact ⟨_, lines_cons_cons n x y texts⟩

theorem printable_lines (n : Nat) {texts : List (List Char)} (h : ∀ x ∈ texts, Printable x) :
    Printable (lines n texts) := by
  induction texts with
  | nil => exact .nil
  | cons x texts ih =>
      cases texts with
      | nil => simpa using h x (by simp)
      | cons y texts =>
          rw [lines_cons_cons]
          simp only [Printable.append_iff]
          exact ⟨h x (by simp), printable_spaces n, ih fun z hz => h z (by simp [hz])⟩

mutual

theorem printable_block (n : Nat) : ∀ t : Tree, Printable (block n t)
  | .text s => by
      rw [block]
      exact printable_scalarLine n s.toList
  | .list items => by
      rw [block]
      split
      · exact .of_all (by decide)
      · exact printable_lines n (printable_items n items)
  | .map entries => by
      rw [block]
      split
      · exact .of_all (by decide)
      · exact printable_lines n (printable_entries n entries)

theorem printable_items (n : Nat) : ∀ ts : List Tree, ∀ x ∈ items' n ts, Printable x
  | [] => fun _ h => by simp [items'] at h
  | t :: r => fun x h => by
      rw [items', List.mem_cons] at h
      rcases h with rfl | h
      · have hp := printable_block (n + 2) t
        simpa [isPrintable] using hp
      · exact printable_items n r x h

theorem printable_entries (n : Nat) : ∀ es : List (String × Tree),
    ∀ x ∈ entries' n es, Printable x
  | [] => fun _ h => by simp [entries'] at h
  | (k, t) :: r => fun x h => by
      have h₁ := printable_block n t
      have h₂ := printable_block (n + 2) t
      have hcolon : isPrintable ':' = true := by decide
      have hmark : isPrintable '?' = true := by decide
      rw [entries'_cons, List.mem_cons] at h
      rcases h with rfl | h
      · unfold entryText besideKey
        split
        · split <;> simp [printable_scalar, printable_spaces, h₁, h₂, hcolon]
        · simp [printable_scalarLine, printable_spaces, h₂, hcolon, hmark]
      · exact printable_entries n r x h

end

/-- The text of a tree starts with a character that shows. -/
theorem block_cons (n : Nat) (t : Tree) :
    ∃ c r, block n t = c :: r ∧ c ≠ ' ' ∧ isBreak c = false ∧ c ≠ '#' := by
  cases t with
  | text s =>
      obtain ⟨c, r, heq, hc⟩ := scalar_cons n s.toList
      rw [block]
      unfold scalarLine
      dsimp only
      split
      · exact ⟨c, r, heq, hc⟩
      · exact ⟨c, r ++ ['\n'], by simp [heq], hc⟩
  | list items =>
      rw [block]
      cases items with
      | nil => exact ⟨'[', _, rfl, by decide⟩
      | cons t ts =>
          obtain ⟨more, hmore⟩ := lines_cons n ('-' :: ' ' :: block (n + 2) t) (items' n ts)
          exact ⟨'-', _, hmore, by decide⟩
  | map entries =>
      rw [block]
      cases entries with
      | nil => exact ⟨'\x7b', _, rfl, by decide⟩
      | cons e es =>
          obtain ⟨k, t⟩ := e
          obtain ⟨more, hmore⟩ := lines_cons n (entryText n k t) (entries' n es)
          rw [← entries'_cons] at hmore
          obtain ⟨c, r, heq, hc⟩ := scalar_cons (n + 2) k.toList
          cases hk : isSimpleKey k with
          | true => exact ⟨c, _, hmore.trans (by simp [entryText, hk, heq]; rfl), hc⟩
          | false =>
              exact ⟨'?', _, hmore.trans (by simp [entryText, hk]; rfl), by decide⟩

theorem solid_block (n : Nat) (t : Tree) {tail : List Char} (htail : Printable tail) :
    Solid (block n t ++ tail) := by
  refine ⟨Printable.append_iff.2 ⟨printable_block n t, htail⟩, ?_⟩
  obtain ⟨c, r, heq, hc⟩ := block_cons n t
  intro d hd
  rw [heq] at hd
  cases hd
  exact hc

open Lexer (opened openers opened_of_head marginOf)

variable {s : Lexer} {out : List Token} {blocks : List Nat} {allowed : Bool} {m : Mark}
  {j k n : Nat} {r : List Char}

/-! ### Values -/

/-- A value that takes no lines of its own: a text or an empty collection. -/
def Inline : Tree → Prop
  | .text _ | .list [] | .map [] => True
  | _ => False

theorem Inline.passes {t : Tree} (ht : Inline t) (loose : Bool)
    (h : s.At out blocks allowed m (block (j + 2) t ++ (spaces k ++ r))) (hr : Solid r)
    (hk : k ≤ j) (hhead : blocks.head? = some j) (hcol : j < m.column) :
    s.Passes m (block (j + 2) t) ((t.tokens loose).reverse ++ out) blocks k r := by
  have hbelow : ∀ i ∈ blocks.head?, i < m.column := by simpa [hhead] using hcol
  match t, ht with
  | .text x, _ =>
      rw [block] at h ⊢
      simpa [Tree.tokens, String.ofList_toList] using h.scalarLine hr hk hhead hcol
  | .list [], _ =>
      rw [block] at h ⊢
      simpa [Tree.tokens] using Lexer.At.brackets (t := .flowListStart) (u := .flowListEnd)
        (by simp [Lexer.brackets]) h hr hbelow
  | .map [], _ =>
      rw [block] at h ⊢
      simpa [Tree.tokens] using Lexer.At.brackets (t := .flowMapStart) (u := .flowMapEnd)
        (by simp [Lexer.brackets]) h hr hbelow

/-- The reader goes over the text of a tree wherever the writer puts one. -/
structure Readable (t : Tree) : Prop where
  /-- Indented further than the block around it. -/
  value : ∀ {s : Lexer} {out : List Token} {blocks : List Nat} {m : Mark} {j k : Nat}
    {r : List Char}, s.At out blocks true m (block (j + 2) t ++ (spaces k ++ r)) → Solid r →
    k ≤ j → blocks.head? = some j → m.column = j + 2 →
    s.Passes m (block (j + 2) t) ((t.tokens false).reverse ++ out) blocks k r
  /-- A list in the column of the block around it. -/
  loose : ∀ {s : Lexer} {out : List Token} {blocks : List Nat} {m : Mark} {n k : Nat}
    {x : Tree} {xs : List Tree} {r : List Char}, t = .list (x :: xs) →
    s.At out blocks true m (block n t ++ (spaces k ++ r)) → Solid r → k ≤ n →
    blocks.head? = some n → m.column = n →
    s.Passes m (block n t) ((t.tokens true).reverse ++ out) blocks k r

/-- The reader goes over the items of a list. -/
def ReadableItems (ts : List Tree) : Prop :=
  ∀ {s : Lexer} {out : List Token} {blocks : List Nat} {m : Mark} {n k : Nat} {r : List Char},
    ts ≠ [] → s.At out blocks true m (lines n (items' n ts) ++ (spaces k ++ r)) → Solid r →
    k ≤ n → (opened blocks n).head? = some n → m.column = n →
    s.Passes m (lines n (items' n ts))
      ((itemTokens ts).reverse ++ (openers blocks n .blockListStart ++ out)) (opened blocks n) k r

/-- The reader goes over the entries of a map. -/
def ReadableEntries (es : List (String × Tree)) : Prop :=
  ∀ {s : Lexer} {out : List Token} {blocks : List Nat} {m : Mark} {n k : Nat} {r : List Char},
    es ≠ [] → s.At out blocks true m (lines n (entries' n es) ++ (spaces k ++ r)) → Solid r →
    k ≤ n → (opened blocks n).head? = some n → m.column = n →
    s.Passes m (lines n (entries' n es))
      ((entryTokens es).reverse ++ (openers blocks n .blockMapStart ++ out)) (opened blocks n) k r

theorem Readable.inline {t : Tree} (ht : Inline t) : Readable t where
  value h hr hk hhead hcol := ht.passes false h hr hk hhead (by omega)
  loose heq := by
    subst heq
    exact ht.elim

/-- A new block in a column beyond the innermost one. -/
theorem opened_beyond (hhead : blocks.head? = some j) (hn : j < n) (start : Token) :
    opened blocks n = n :: blocks ∧ openers blocks n start = [start] := by
  have : j + 1 ≤ n := hn
  simp [opened, openers, marginOf, hhead, this]

theorem Readable.list {x : Tree} {xs : List Tree} (h : ReadableItems (x :: xs)) :
    Readable (.list (x :: xs)) where
  value hat hr hk hhead hcol := by
    rename_i out blocks m j k r
    obtain ⟨hopen, hstart⟩ := opened_beyond (n := j + 2) hhead (by omega) .blockListStart
    rw [block_list] at hat ⊢
    have hp := h (by simp) hat hr (by omega) (by simp [hopen]) hcol
    rw [hopen, hstart] at hp
    simpa [Tree.tokens] using hp.close (.inr (by omega))
  loose heq hat hr hk hhead hcol := by
    rename_i out blocks m n k y ys r
    cases heq
    obtain ⟨hopen, hstart⟩ := opened_of_head hhead .blockListStart
    rw [block_list] at hat ⊢
    have hp := h (by simp) hat hr hk (by simp [hopen, hhead]) hcol
    rw [hopen, hstart] at hp
    simpa [Tree.tokens] using hp

theorem Readable.map {e : String × Tree} {es : List (String × Tree)}
    (h : ReadableEntries (e :: es)) : Readable (.map (e :: es)) where
  value hat hr hk hhead hcol := by
    rename_i out blocks m j k r
    obtain ⟨hopen, hstart⟩ := opened_beyond (n := j + 2) hhead (by omega) .blockMapStart
    rw [block_map] at hat ⊢
    have hp := h (by simp) hat hr (by omega) (by simp [hopen]) hcol
    rw [hopen, hstart] at hp
    simpa [Tree.tokens] using hp.close (.inr (by omega))
  loose heq := by cases heq

/-! ### Items and entries -/

/-- The reader goes over the first line of a block, and from the state behind it over the others. -/
theorem Lexer.Passes.followed {x : List Char} (text : List Char) {out' : List Token}
    (h : s.Passes m x out blocks n (text ++ (spaces k ++ r)))
    (hrest : ∀ {s' : Lexer} {m' : Mark}, s'.At out blocks true m' (text ++ (spaces k ++ r)) →
      m'.column = n → s'.Passes m' text out' blocks k r) :
    s.Passes m (x ++ (spaces n ++ text)) out' blocks k r := by
  obtain ⟨s₁, m₁, hreads, hat, hcol, hline⟩ := h
  rw [← List.append_assoc]
  exact (hreads.pad (spaces n)).passes (hrest hat hcol) (Nat.le_of_lt hline)

theorem solid_items (n : Nat) {ts : List Tree} (hts : ts ≠ []) {tail : List Char}
    (htail : Printable tail) : Solid (lines n (items' n ts) ++ tail) := by
  obtain ⟨x, xs, rfl⟩ := List.exists_cons_of_ne_nil hts
  rw [← block_list]
  exact solid_block n _ htail

theorem solid_entries (n : Nat) {es : List (String × Tree)} (hes : es ≠ []) {tail : List Char}
    (htail : Printable tail) : Solid (lines n (entries' n es) ++ tail) := by
  obtain ⟨x, xs, rfl⟩ := List.exists_cons_of_ne_nil hes
  rw [← block_map]
  exact solid_block n _ htail

/-- An item, whatever line follows it. -/
theorem Readable.item {t : Tree} (h : Readable t)
    (hat : s.At out blocks true m ('-' :: ' ' :: block (n + 2) t ++ (spaces k ++ r)))
    (hr : Solid r) (hk : k ≤ n) (hopen : (opened blocks n).head? = some n) (hcol : m.column = n) :
    s.Passes m ('-' :: ' ' :: block (n + 2) t)
      ((itemTokens [t]).reverse ++ (openers blocks n .blockListStart ++ out)) (opened blocks n)
      k r := by
  subst hcol
  have htail : Printable (spaces k ++ r) := Printable.append_iff.2 ⟨printable_spaces k, hr.1⟩
  obtain ⟨s₁, hreads, hat₁⟩ := hat.dash (solid_block _ t htail) hopen
  have hp := h.value hat₁ hr hk hopen rfl
  simpa [itemTokens] using hreads.passes (m := m) hp (Nat.le_refl _)

theorem ReadableItems.cons {t : Tree} {ts : List Tree} (h : Readable t) (ih : ReadableItems ts) :
    ReadableItems (t :: ts) := by
  intro s out blocks m n k r _ hat hr hk hopen hcol
  have htail : Printable (spaces k ++ r) := Printable.append_iff.2 ⟨printable_spaces k, hr.1⟩
  cases ts with
  | nil =>
      simp only [items', lines_singleton] at hat ⊢
      exact h.item hat hr hk hopen hcol
  | cons t' ts =>
      -- behind the first item the block is open
      obtain ⟨hblocks, hstart⟩ := opened_of_head hopen .blockListStart
      have htext : lines n (items' n (t :: t' :: ts)) =
          '-' :: ' ' :: block (n + 2) t ++ (spaces n ++ lines n (items' n (t' :: ts))) := by
        rw [items', items', lines_cons_cons]
      rw [htext] at hat ⊢
      simp only [List.append_assoc] at hat
      have hfirst := h.item hat (solid_items n (by simp) htail) (Nat.le_refl n) hopen hcol
      refine hfirst.followed _ fun hat' hcol' => ?_
      have hrest := ih (by simp) hat' hr hk (by rw [hblocks]; exact hopen) hcol'
      rw [hblocks, hstart] at hrest
      simpa [itemTokens] using hrest

/-- Behind a key on its line, the value of the entry. -/
theorem Readable.beside {t : Tree} (h : Readable t) (hr : Solid r) (hk : k ≤ n)
    (hhead : blocks.head? = some n) (hcol : n ≤ m.column) :
    (Lexer.standing out blocks none false m (besideKey n t ++ (spaces k ++ r))).Passes m
      (besideKey n t) ((t.tokens true).reverse ++ out) blocks k r := by
  have htail : Printable (spaces k ++ r) := Printable.append_iff.2 ⟨printable_spaces k, hr.1⟩
  -- a value in a line of its own
  have hline : ∀ {i : Nat} {out' : List Token},
      (∀ {s' m'}, Lexer.At s' out blocks true m' (block i t ++ (spaces k ++ r)) →
        m'.column = i → s'.Passes m' (block i t) out' blocks k r) →
      (Lexer.standing out blocks none false m ('\n' :: (spaces i ++ (block i t ++
        (spaces k ++ r))))).Passes m ('\n' :: (spaces i ++ block i t)) out' blocks k r := by
    intro i out' hvalue
    obtain ⟨hcol', hlt⟩ := Lexer.line_lt_along_break m [] i
    have hat := Lexer.standing_at_break out blocks m i (solid_block i t htail)
    exact (Lexer.Reads.none _ ('\n' :: spaces i)).passes (hvalue hat hcol') (Nat.le_of_lt hlt)
  -- a value in the line of its key
  have hinline : ∀ t : Tree, Inline t →
      (Lexer.standing out blocks none false m (' ' :: (block (n + 2) t ++ (spaces k ++ r)))).Passes
        m (' ' :: block (n + 2) t) ((t.tokens true).reverse ++ out) blocks k r := by
    intro t ht
    have hat := Lexer.standing_at_space out blocks m (solid_block (n + 2) t htail)
    exact (Lexer.Reads.none _ [' ']).passes
      (ht.passes true hat hr hk hhead (by simp [Mark.next]; omega)) (Nat.le_refl _)
  match t, h with
  | .list (x :: xs), h =>
      simp only [besideKey, List.cons_append, List.append_assoc]
      exact hline fun hat hcol' => h.loose rfl hat hr hk hhead hcol'
  | .map (e :: es), h =>
      simp only [besideKey, List.cons_append, List.append_assoc]
      exact hline fun hat hcol' => by simpa [Tree.tokens] using h.value hat hr hk hhead hcol'
  | .text _, _ | .list [], _ | .map [], _ =>
      simp only [besideKey, List.cons_append]
      exact hinline _ trivial

/-- An entry whose key stands on the line of its value. -/
theorem Readable.simpleEntry {key : String} {t : Tree} (h : Readable t)
    (hkey : isSimpleKey key = true)
    (hat : s.At out blocks true m (entryText n key t ++ (spaces k ++ r))) (hr : Solid r)
    (hk : k ≤ n) (hopen : (opened blocks n).head? = some n) (hcol : m.column = n) :
    s.Passes m (entryText n key t)
      ((entryTokens [(key, t)]).reverse ++ (openers blocks n .blockMapStart ++ out))
      (opened blocks n) k r := by
  subst hcol
  have htail : Printable (spaces k ++ r) := Printable.append_iff.2 ⟨printable_spaces k, hr.1⟩
  have hbeside : Printable (besideKey m.column t ++ (spaces k ++ r)) := by
    refine Printable.append_iff.2 ⟨?_, htail⟩
    unfold besideKey
    split <;> simp [printable_spaces, printable_block]
  have hgap : isGap ((besideKey m.column t ++ (spaces k ++ r)).headD finish) = true := by
    unfold besideKey
    split <;> rfl
  obtain ⟨-, hline, -⟩ := scalar_simpleKey (m.column + 2) hkey
  have halong := Mark.along_of_line (m := m) hline
  have htext : entryText m.column key t =
      scalar (m.column + 2) key.toList ++ [':'] ++ besideKey m.column t := by
    simp [entryText, hkey]
  have hreads := Lexer.At.simpleKey (n := m.column + 2) (by omega) hkey
    (by simpa [htext] using hat) hbeside hgap hopen
  rw [htext]
  have hp := hreads.passes (m := m) (h.beside hr hk hopen (by simp [halong, Mark.next]; omega))
    (by simp [halong, Mark.next])
  simpa [entryTokens, hkey] using hp

/-- An entry whose key is announced by a question mark. -/
theorem Readable.announcedEntry {key : String} {t : Tree} (h : Readable t)
    (hkey : isSimpleKey key = false)
    (hat : s.At out blocks true m (entryText n key t ++ (spaces k ++ r))) (hr : Solid r)
    (hk : k ≤ n) (hopen : (opened blocks n).head? = some n) (hcol : m.column = n) :
    s.Passes m (entryText n key t)
      ((entryTokens [(key, t)]).reverse ++ (openers blocks n .blockMapStart ++ out))
      (opened blocks n) k r := by
  subst hcol
  have htail : Printable (spaces k ++ r) := Printable.append_iff.2 ⟨printable_spaces k, hr.1⟩
  have hvalue := solid_block (m.column + 2) t htail
  have hcolon : Solid (':' :: ' ' :: (block (m.column + 2) t ++ (spaces k ++ r))) :=
    ⟨by simpa [isPrintable] using hvalue.1, by simp [isBreak]⟩
  obtain ⟨hblocks, hstart⟩ := opened_of_head hopen .blockMapStart
  have htext : entryText m.column key t = '?' :: ' ' :: (scalarLine (m.column + 2) key.toList ++
      (spaces m.column ++ (':' :: ' ' :: block (m.column + 2) t))) := by
    simp [entryText, hkey]
  rw [htext] at hat ⊢
  simp only [List.cons_append, List.append_assoc] at hat
  obtain ⟨s₁, hreads, hat₁⟩ := hat.question (solid_scalarLine _ _ (Printable.append_iff.2
    ⟨printable_spaces _, hcolon.1⟩)) hopen
  -- the key, and then the colon in front of the value
  have hp := hat₁.scalarLine hcolon (Nat.le_refl _) hopen (by simp only [Mark.next]; omega)
  refine hreads.passes (m := m) (hp.followed (':' :: ' ' :: block (m.column + 2) t)
    fun {s₂ m₂} hat₂ hcol₂ => ?_) (Nat.le_refl _)
  obtain ⟨s₃, hreads₃, hat₃⟩ := hat₂.colon hvalue (by rw [hcol₂, hblocks]; exact hopen)
  rw [hcol₂, hblocks, hstart] at hat₃
  have hp₃ := h.value hat₃ hr hk hopen (by simp [Mark.next, hcol₂])
  have hp₃ := hreads₃.passes (m := m₂) hp₃ (Nat.le_refl _)
  simpa [entryTokens, hkey, String.ofList_toList] using hp₃

theorem Readable.entry {key : String} {t : Tree} (h : Readable t)
    (hat : s.At out blocks true m (entryText n key t ++ (spaces k ++ r))) (hr : Solid r)
    (hk : k ≤ n) (hopen : (opened blocks n).head? = some n) (hcol : m.column = n) :
    s.Passes m (entryText n key t)
      ((entryTokens [(key, t)]).reverse ++ (openers blocks n .blockMapStart ++ out))
      (opened blocks n) k r := by
  cases hkey : isSimpleKey key with
  | true => exact h.simpleEntry hkey hat hr hk hopen hcol
  | false => exact h.announcedEntry hkey hat hr hk hopen hcol

theorem ReadableEntries.cons {key : String} {t : Tree} {es : List (String × Tree)}
    (h : Readable t) (ih : ReadableEntries es) : ReadableEntries ((key, t) :: es) := by
  intro s out blocks m n k r _ hat hr hk hopen hcol
  have htail : Printable (spaces k ++ r) := Printable.append_iff.2 ⟨printable_spaces k, hr.1⟩
  cases es with
  | nil =>
      rw [entries'_cons, entries', lines_singleton] at hat ⊢
      exact h.entry hat hr hk hopen hcol
  | cons e es =>
      -- behind the first entry the block is open
      obtain ⟨hblocks, hstart⟩ := opened_of_head hopen .blockMapStart
      have htext : lines n (entries' n ((key, t) :: e :: es)) =
          entryText n key t ++ (spaces n ++ lines n (entries' n (e :: es))) := by
        rw [entries'_cons, entries'_cons, lines_cons_cons]
      rw [htext] at hat ⊢
      simp only [List.append_assoc] at hat
      have hfirst := h.entry hat (solid_entries n (by simp) htail) (Nat.le_refl n) hopen hcol
      refine hfirst.followed _ fun hat' hcol' => ?_
      have hrest := ih (by simp) hat' hr hk (by rw [hblocks]; exact hopen) hcol'
      rw [hblocks, hstart] at hrest
      simpa [entryTokens] using hrest

mutual

theorem readable : ∀ t : Tree, Readable t
  | .text _ => .inline trivial
  | .list [] => .inline trivial
  | .list (x :: xs) => .list (readableItems (x :: xs))
  | .map [] => .inline trivial
  | .map (e :: es) => .map (readableEntries (e :: es))

theorem readableItems : ∀ ts : List Tree, ReadableItems ts
  | [] => fun h => absurd rfl h
  | t :: ts => ReadableItems.cons (readable t) (readableItems ts)

theorem readableEntries : ∀ es : List (String × Tree), ReadableEntries es
  | [] => fun h => absurd rfl h
  | (_, t) :: es => ReadableEntries.cons (readable t) (readableEntries es)

end

/-- Whether a tree is a list or a map. -/
def Tree.isCollection : Tree → Bool
  | .text _ => false
  | _ => true

end StreamPipeline.Yaml
