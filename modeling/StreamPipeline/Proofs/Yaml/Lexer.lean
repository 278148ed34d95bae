import StreamPipeline.Proofs.Yaml.Written
import StreamPipeline.Yaml.Tokens

/-!
# Tokens of written text

The reader is followed through written text token by token. `Lexer.At` says that it stands before a
text: what it has read, which blocks are open there, and whether a key may start. Blocks that the
text has left count as closed, although the reader closes them only with its next token. Each
theorem takes the reader over one piece of text, whatever follows.
-/

namespace StreamPipeline.Yaml.Lexer

/-! ### Steps -/

/-- The reader goes on by some tokens. -/
inductive Goes : Nat → Lexer → Lexer → Prop where
  | refl (s : Lexer) : Goes 0 s s
  | more {k : Nat} {s s₁ s' : Lexer} (h : s.next = some (s₁, false)) (t : Goes k s₁ s') :
      Goes (k + 1) s s'

theorem Goes.trans {k l : Nat} {s s₁ s' : Lexer} (h₁ : Goes k s s₁) (h₂ : Goes l s₁ s') :
    Goes (k + l) s s' := by
  induction h₁ with
  | refl => rwa [Nat.zero_add]
  | more h _ ih =>
      rw [Nat.add_right_comm]
      exact .more h (ih h₂)

theorem Goes.run {k : Nat} {s s' : Lexer} (h : Goes k s s') (fuel : Nat) :
    Lexer.run (k + fuel) s = Lexer.run fuel s' := by
  induction h with
  | refl => rw [Nat.zero_add]
  | more h _ ih =>
      rw [Nat.add_right_comm]
      simp only [Lexer.run, h, ih]

/-- The reader goes over a text, with no more tokens than the text has characters. -/
def Reads (s : Lexer) (text : List Char) (s' : Lexer) : Prop := ∃ k ≤ text.length, Goes k s s'

theorem Reads.none (s : Lexer) (text : List Char) : s.Reads text s :=
  ⟨0, Nat.zero_le _, .refl s⟩

theorem Reads.one {s s' : Lexer} {text : List Char} (htext : text ≠ [])
    (h : s.next = some (s', false)) : s.Reads text s' :=
  ⟨1, List.length_pos_iff.2 htext, .more h (.refl s')⟩

theorem Reads.trans {s s₁ s' : Lexer} {text more : List Char} (h₁ : s.Reads text s₁)
    (h₂ : s₁.Reads more s') : s.Reads (text ++ more) s' := by
  obtain ⟨k, hk, g₁⟩ := h₁
  obtain ⟨l, hl, g₂⟩ := h₂
  exact ⟨k + l, by simp; omega, g₁.trans g₂⟩

/-- The longer the text, the more tokens are in order. -/
theorem Reads.pad {s s' : Lexer} {text : List Char} (h : s.Reads text s') (more : List Char) :
    s.Reads (text ++ more) s' := by
  obtain ⟨k, hk, g⟩ := h
  exact ⟨k, by simp; omega, g⟩

/-! ### Where the reader stands -/

/-- The reader stands before the text `cs` at `m`, with the tokens `out` and the open blocks
`blocks`. -/
structure At (s : Lexer) (out : List Token) (blocks : List Nat) (allowed : Bool) (m : Mark)
    (cs : List Char) : Prop where
  rest : skipGap false s.keyAllowed false s.rest = (allowed, cells m cs)
  flow : s.outerKeys = []
  count : s.count = s.out.length
  /-- No key is waited for, and what may have been one is in an earlier line. -/
  key : ∀ k ∈ s.key, k.required = false ∧ k.mark.line < m.line
  /-- The blocks that the text has left. -/
  pending : ∃ ended, s.blocks = ended ++ blocks ∧
    out = List.replicate ended.length .blockEnd ++ s.out ∧ ∀ p ∈ ended, cs = [] ∨ m.column < p

/-- The state before a text in which nothing is left to be closed. -/
def standing (out : List Token) (blocks : List Nat) (key : Option KeyStart) (allowed : Bool)
    (m : Mark) (cs : List Char) : Lexer :=
  { rest := cells m cs, out, count := out.length, blocks, key, keyAllowed := allowed }

/-- One more than the column of the innermost of some blocks, or zero if there is none. -/
def marginOf (blocks : List Nat) : Nat := (blocks.head?.map (· + 1)).getD 0

theorem closeWhile_append (p : Nat → Bool) (ended blocks : List Nat)
    (h₁ : ∀ c ∈ ended, p c = true) (h₂ : ∀ c ∈ blocks.head?, p c = false) :
    closeWhile p (ended ++ blocks) = (List.replicate ended.length .blockEnd, blocks) := by
  induction ended with
  | nil =>
      cases blocks with
      | nil => rfl
      | cons c r => simp [closeWhile, h₂ c rfl]
  | cons c r ih =>
      rw [List.cons_append, closeWhile, if_pos (h₁ c (by simp)), ih fun d hd => h₁ d (by simp [hd])]
      rfl

/-- Where the text has left no block, none is closed. -/
theorem closeBlocks_standing {blocks : List Nat} {column : Nat}
    (hblocks : ∀ j ∈ blocks.head?, j ≤ column) (out : List Token) (key : Option KeyStart)
    (allowed : Bool) (m : Mark) (cs : List Char) :
    (standing out blocks key allowed m cs).closeBlocks (column < ·) =
      standing out blocks key allowed m cs := by
  have hsame := closeWhile_append (column < ·) [] blocks
    (fun p hp => nomatch hp) (fun j hj => by simpa using hblocks j hj)
  unfold closeBlocks
  rw [if_neg (by simp [inFlow, standing])]
  simp only [standing, List.nil_append] at hsame ⊢
  rw [hsame]
  simp

theorem skipGap_solid {inFlow allowed : Bool} {cs : List Char} (h : Solid cs) (m : Mark) :
    skipGap inFlow allowed false (cells m cs) = (allowed, cells m cs) := by
  cases cs with
  | nil => simp [skipGap, isBreak, finish]
  | cons c r =>
      obtain ⟨hs, hb, hsharp⟩ := h.2 c rfl
      have hp := (Printable.cons_iff.1 h.1).1
      obtain ⟨hfinish, htab, -, -, hbom⟩ := ne_of_isPrintable hp
      rw [cells_cons hp]
      simp [skipGap, hb, hfinish, hs, hbom, htab, hsharp]

/-- The blocks that the text has left are closed before anything else is done. -/
theorem At.next_eq {s : Lexer} {out : List Token} {blocks : List Nat} {allowed : Bool} {m : Mark}
    {c : Char} {r : List Char} (h : s.At out blocks allowed m (c :: r)) (hr : Solid (c :: r))
    (hblocks : ∀ j ∈ blocks.head?, j ≤ m.column) :
    s.next = (standing out blocks s.key allowed m (c :: r)).next := by
  obtain ⟨ended, hb, hout, hended⟩ := h.pending
  have hclose := closeWhile_append (m.column < ·) ended blocks
    (fun p hp => by simpa using hended p hp) (fun j hj => by simpa using hblocks j hj)
  have hflow : s.inFlow = false := by simp [inFlow, h.flow]
  have hmark : headMark (cells m (c :: r)) = m := headMark_cells hr.1 m
  have h₁ : ({ s with rest := cells m (c :: r), keyAllowed := allowed } : Lexer).closeBlocks
      (m.column < ·) = standing out blocks s.key allowed m (c :: r) := by
    unfold closeBlocks
    rw [if_neg (by simp [inFlow, h.flow]), hb, hclose]
    simp [standing, hout, h.count, h.flow, Nat.add_comm]
  have h₂ : ({ standing out blocks s.key allowed m (c :: r) with
      rest := cells m (c :: r), keyAllowed := allowed } : Lexer).closeBlocks (m.column < ·) =
        standing out blocks s.key allowed m (c :: r) :=
    closeBlocks_standing hblocks out s.key allowed m (c :: r)
  have hrest : skipGap (standing out blocks s.key allowed m (c :: r)).inFlow
      (standing out blocks s.key allowed m (c :: r)).keyAllowed false
      (standing out blocks s.key allowed m (c :: r)).rest = (allowed, cells m (c :: r)) :=
    skipGap_solid hr m
  unfold next
  rw [hflow, h.rest, hrest]
  simp only [Lexer.mark, hmark]
  rw [h₁, h₂]

/-! ### The token at the head -/

/-- The token that starts at the head, where no marker of a document stands. -/
def dispatch (s : Lexer) : Option Lexer :=
  let c := headChar s.rest
  let d := charAt 1 s.rest
  match s.flowToken? c with
  | some s => s
  | none =>
    if c == '-' && isGap d then s.blockEntry
    else if c == '?' && (s.inFlow || isGap d) then s.announcedKey
    else if c == ':' && (s.inFlow || isGap d) then s.value
    else if c == '*' then s.node ((anchorName? (s.rest.drop 1)).map fun (n, r) => (.alias n, r))
    else if c == '&' then s.node ((anchorName? (s.rest.drop 1)).map fun (n, r) => (.anchor n, r))
    else if c == '!' then s.node (tag? s.inFlow s.rest)
    else if c == '|' && !s.inFlow then s.block false
    else if c == '>' && !s.inFlow then s.block true
    else if c == '\'' || c == '"' then
      s.node ((quotedScalar (c == '"') (s.rest.drop 1)).map fun (t, r) => (.scalar false t, r))
    else if s.startsPlain then s.plain
    else none

theorem next_eq_dispatch {s : Lexer}
    (hgap : skipGap s.inFlow s.keyAllowed false s.rest = (s.keyAllowed, s.rest))
    (hclose : s.closeBlocks (s.mark.column < ·) = s) (hfinish : headChar s.rest ≠ finish)
    (hpercent : s.mark.column = 0 → headChar s.rest ≠ '%')
    (hmarker : atDocumentMarker s.rest = false) :
    s.next = s.dispatch.map (·, false) := by
  have hm := Bool.or_eq_false_iff.1 hmarker
  have hp : (s.mark.column == 0 && headChar s.rest == '%') = false := by
    simpa [Bool.and_eq_false_iff] using hpercent
  unfold next dispatch
  rw [hgap]
  simp only [hclose]
  rw [if_neg (by simpa using hfinish), hp, hm.1, hm.2]
  simp only [Bool.false_eq_true, if_false]
  cases s.flowToken? (headChar s.rest) with
  | some s' => rfl
  | none => simp only [apply_ite (Option.map fun s => (s, false)), Option.map_none]

/-- The reader goes over a text from `m` on and then stands before `r` in a later line, behind `k`
spaces. -/
def Passes (s : Lexer) (m : Mark) (text : List Char) (out : List Token) (blocks : List Nat)
    (k : Nat) (r : List Char) : Prop :=
  ∃ s' m', s.Reads text s' ∧ s'.At out blocks true m' r ∧ m'.column = k ∧ m.line < m'.line

theorem Reads.passes {s s₁ : Lexer} {m m₁ : Mark} {text more : List Char} {out : List Token}
    {blocks : List Nat} {k : Nat} {r : List Char} (h : s.Reads text s₁)
    (t : s₁.Passes m₁ more out blocks k r) (hline : m.line ≤ m₁.line) :
    s.Passes m (text ++ more) out blocks k r := by
  obtain ⟨s', m', hreads, hat, hcol, hlt⟩ := t
  exact ⟨s', m', h.trans hreads, hat, hcol, Nat.lt_of_le_of_lt hline hlt⟩

/-- A block ends in front of a word that is not indented so far, or at the end of the text. -/
theorem Passes.close {s : Lexer} {m : Mark} {text : List Char} {out : List Token}
    {blocks : List Nat} {j k : Nat} {r : List Char} (h : s.Passes m text out (j :: blocks) k r)
    (hr : r = [] ∨ k < j) : s.Passes m text (.blockEnd :: out) blocks k r := by
  obtain ⟨s', m', hreads, hat, hcol, hlt⟩ := h
  obtain ⟨ended, hb, hout, hended⟩ := hat.pending
  refine ⟨s', m', hreads, ⟨hat.rest, hat.flow, hat.count, hat.key, ended ++ [j], ?_, ?_, ?_⟩, hcol,
    hlt⟩
  · simpa using hb
  · rw [hout, List.length_append, List.length_singleton, List.replicate_succ, List.cons_append]
  · intro p hp
    rcases List.mem_append.1 hp with hp | hp
    · exact hended p hp
    · rw [List.mem_singleton.1 hp, hcol]
      exact hr

/-! ### Markers -/

/-- Neither a directive nor a marker of a document stands at the start of a text. -/
def Unmarked (cs : List Char) : Prop :=
  cs.head? ≠ some '%' ∧ ∀ m, atDocumentMarker (cells m cs) = false

theorem unmarked_of_take {cs : List Char} (h : Printable cs) (hpercent : cs.head? ≠ some '%')
    (hmark : ∀ c ∈ ['-', '.'], cs.take 3 ≠ [c, c, c]) : Unmarked cs := by
  have hne : ∀ c ∈ ['-', '.'], c ≠ finish := by simp [finish]
  have hone : ∀ c ∈ ['-', '.'], ∀ m, atMarker c (cells m cs) = false := by
    intro c hc m
    refine Bool.eq_false_iff.2 fun hat => hmark c hc ?_
    simp only [atMarker, charAt_cells h, Bool.and_eq_true, beq_iff_eq] at hat
    obtain ⟨⟨⟨⟨-, h0⟩, h1⟩, h2⟩, -⟩ := hat
    rcases cs with _ | ⟨a, _ | ⟨b, _ | ⟨d, r⟩⟩⟩
    · exact absurd h0.symm (hne c hc)
    · exact absurd h1.symm (hne c hc)
    · exact absurd h2.symm (hne c hc)
    · simp_all
  exact ⟨hpercent, fun m => by simp [atDocumentMarker, hone]⟩

theorem unmarked_cons {c : Char} {r : List Char} (h : Printable (c :: r))
    (hc : c ≠ '%' ∧ c ≠ '-' ∧ c ≠ '.') : Unmarked (c :: r) :=
  unmarked_of_take h (by simpa using hc.1) fun d hd he => by
    obtain ⟨rfl, -⟩ := List.cons.inj he
    simp [hc.2] at hd

/-- A dash before a space is no marker. -/
theorem unmarked_dash {r : List Char} (h : Printable ('-' :: ' ' :: r)) :
    Unmarked ('-' :: ' ' :: r) :=
  unmarked_of_take h (by simp) fun d hd he => by
    obtain ⟨rfl, he⟩ := List.cons.inj he
    cases (List.cons.inj he).1

/-- Where nothing is left to be closed, the next token is the one that starts at the head. -/
theorem next_standing {out : List Token} {blocks : List Nat} {key : Option KeyStart}
    {allowed : Bool} {m : Mark} {cs : List Char} (hne : cs ≠ []) (hcs : Solid cs)
    (hmark : m.column = 0 → Unmarked cs) (hblocks : ∀ j ∈ blocks.head?, j ≤ m.column) :
    (standing out blocks key allowed m cs).next =
      (standing out blocks key allowed m cs).dispatch.map (·, false) := by
  obtain ⟨c, r, rfl⟩ := List.exists_cons_of_ne_nil hne
  have hhead : headChar (cells m (c :: r)) = c := headChar_cells hcs.1 m
  have hm : headMark (cells m (c :: r)) = m := headMark_cells hcs.1 m
  refine next_eq_dispatch (skipGap_solid hcs m) ?_ ?_ ?_ ?_
  · rw [show (standing out blocks key allowed m (c :: r)).mark = m from hm]
    exact closeBlocks_standing hblocks out key allowed m (c :: r)
  · simp only [standing, hhead]
    exact (ne_of_isPrintable (Printable.cons_iff.1 hcs.1).1).1
  · simp only [standing, Lexer.mark, hhead, hm]
    exact fun h0 hc => (hmark h0).1 (by simp [hc])
  · by_cases h0 : m.column = 0
    · exact (hmark h0).2 m
    · simp only [standing]
      rw [cells_cons (Printable.cons_iff.1 hcs.1).1]
      exact atDocumentMarker_of_column (Nat.pos_of_ne_zero h0)

theorem At.next_eq_dispatch {s : Lexer} {out : List Token} {blocks : List Nat} {allowed : Bool}
    {m : Mark} {cs : List Char} (h : s.At out blocks allowed m cs) (hne : cs ≠ []) (hcs : Solid cs)
    (hmark : m.column = 0 → Unmarked cs) (hblocks : ∀ j ∈ blocks.head?, j ≤ m.column) :
    s.next = (standing out blocks s.key allowed m cs).dispatch.map (·, false) := by
  rw [← next_standing hne hcs hmark hblocks]
  obtain ⟨c, r, rfl⟩ := List.exists_cons_of_ne_nil hne
  exact h.next_eq hcs hblocks

/-! ### Blocks -/

/-- The start of a block at a column, unless one is open there. -/
def openers (blocks : List Nat) (column : Nat) (start : Token) : List Token :=
  if marginOf blocks ≤ column then [start] else []

/-- The open blocks with one at a column. -/
def opened (blocks : List Nat) (column : Nat) : List Nat :=
  if marginOf blocks ≤ column then column :: blocks else blocks

section

variable {s : Lexer} {out : List Token} {blocks : List Nat} {key : Option KeyStart}
  {allowed : Bool} {m : Mark} {cs : List Char}

theorem le_of_opened {column : Nat} (h : (opened blocks column).head? = some column) :
    ∀ j ∈ blocks.head?, j ≤ column := by
  unfold opened at h
  split at h
  · rename_i hle
    intro j hj
    simp only [marginOf, Option.mem_def.1 hj, Option.map_some, Option.getD_some] at hle
    omega
  · intro j hj
    rw [Option.mem_def.1 hj] at h
    exact Nat.le_of_eq (Option.some.inj h)

/-- Where a block is open, none starts. -/
theorem opened_of_head {column : Nat} (h : blocks.head? = some column) (start : Token) :
    opened blocks column = blocks ∧ openers blocks column start = [] := by
  simp [opened, openers, marginOf, h]

theorem openBlock_standing (out : List Token) (blocks : List Nat) (key : Option KeyStart)
    (allowed : Bool) (m : Mark) (cs : List Char) (column : Nat) (start : Token) :
    (standing out blocks key allowed m cs).openBlock column out.length start [] =
      standing (openers blocks column start ++ out) (opened blocks column) key allowed m cs := by
  unfold openBlock openers opened
  by_cases h : marginOf blocks ≤ column
  · have h' : (blocks.head?.map (· + 1)).getD 0 ≤ column := h
    simp [inFlow, margin, standing, insertAt, h, h']
  · have h' : ¬(blocks.head?.map (· + 1)).getD 0 ≤ column := h
    simp [inFlow, margin, standing, insertAt, h, h']

theorem dropKey_eq (h : ∀ k ∈ s.key, k.required = false) :
    s.dropKey = some { s with key := none } := by
  obtain ⟨rest, out, count, blocks, key, outerKeys, allowed⟩ := s
  cases key with
  | none => rfl
  | some k => simp [dropKey, h k rfl]

theorem dropKey_standing (h : ∀ k ∈ key, k.required = false) :
    (standing out blocks key allowed m cs).dropKey = some (standing out blocks none allowed m cs) :=
  dropKey_eq h

theorem mark_standing (h : Printable cs) : (standing out blocks key allowed m cs).mark = m :=
  headMark_cells h m

/-- The reader stands where it has nothing left to close. -/
theorem At.intro {r : List Char} (hrest : skipGap false s.keyAllowed false s.rest =
      (allowed, cells m r)) (hflow : s.outerKeys = []) (hcount : s.count = s.out.length)
    (hkey : ∀ k ∈ s.key, k.required = false ∧ k.mark.line < m.line) :
    s.At s.out s.blocks allowed m r :=
  ⟨hrest, hflow, hcount, hkey, [], rfl, rfl, fun _ h => nomatch h⟩

/-- A space in front of a text. -/
theorem skipGap_space (hr : Solid cs) :
    skipGap false allowed false (cells m (' ' :: cs)) = (allowed, cells m.next cs) := by
  rw [cells_cons isPrintable_space, skipGap]
  simp only [isBreak_space, Bool.false_eq_true, if_false]
  rw [if_neg (by decide), if_pos (by simp)]
  exact skipGap_solid hr _

/-! ### Signs of structure -/

/-- What the reader does at a dash, a question mark, or a colon that stands alone: it opens a block
in that column, and says what the sign stands for. -/
def sign (t start : Token) (out : List Token) (blocks : List Nat) (m : Mark) (r : List Char) :
    Lexer :=
  standing (t :: (openers blocks m.column start ++ out)) (opened blocks m.column) none true m.next r

section

variable {c : Char} {r : List Char}

theorem push_standing (out : List Token) (blocks : List Nat) (m : Mark) (r : List Char)
    (t start : Token) (hc : isPrintable c = true) (hb : isBreak c = false) :
    ((standing (openers blocks m.column start ++ out) (opened blocks m.column) none true m
      (c :: r)).push t).skip 1 = sign t start out blocks m r := by
  simp [push, skip, standing, sign, cells_cons hc, Mark.after_of_not_isBreak hb]

theorem blockEntry_standing (hr : Printable (c :: r)) (hb : isBreak c = false)
    (hkey : ∀ k ∈ key, k.required = false) :
    (standing out blocks key true m (c :: r)).blockEntry =
      some (sign .blockEntry .blockListStart out blocks m r) := by
  have hpush := push_standing out blocks m r .blockEntry
    .blockListStart (Printable.cons_iff.1 hr).1 hb
  have hopen := openBlock_standing out blocks key true m (c :: r) m.column .blockListStart
  unfold blockEntry
  rw [mark_standing hr]
  simp only [show (standing out blocks key true m (c :: r)).count = out.length from rfl, hopen,
    dropKey_standing hkey, ← hpush]
  simp [inFlow, standing, push, skip]

theorem announcedKey_standing (hr : Printable (c :: r)) (hb : isBreak c = false)
    (hkey : ∀ k ∈ key, k.required = false) :
    (standing out blocks key true m (c :: r)).announcedKey =
      some (sign .key .blockMapStart out blocks m r) := by
  have hpush := push_standing out blocks m r .key
    .blockMapStart (Printable.cons_iff.1 hr).1 hb
  have hopen := openBlock_standing out blocks key true m (c :: r) m.column .blockMapStart
  unfold announcedKey
  rw [mark_standing hr]
  simp only [show (standing out blocks key true m (c :: r)).count = out.length from rfl, hopen,
    dropKey_standing hkey, ← hpush]
  simp [inFlow, standing, push, skip]

/-- A colon in a later line than what may have been a key. -/
theorem value_standing (hr : Printable (c :: r)) (hb : isBreak c = false)
    (hkey : ∀ k ∈ key, k.required = false ∧ k.mark.line < m.line) :
    (standing out blocks key true m (c :: r)).value =
      some (sign .value .blockMapStart out blocks m r) := by
  have hpush := push_standing out blocks m r .value
    .blockMapStart (Printable.cons_iff.1 hr).1 hb
  have hopen := openBlock_standing out blocks key true m (c :: r) m.column .blockMapStart
  have hreach : ∀ k ∈ key, KeyStart.reaches k m = false := fun k hk => by
    simp [KeyStart.reaches, Nat.ne_of_lt (hkey k hk).2]
  unfold value
  rw [mark_standing hr]
  simp only [show (standing out blocks key true m (c :: r)).count = out.length from rfl, hopen,
    ← hpush, show (standing out blocks key true m (c :: r)).key = key from rfl]
  cases key with
  | none => simp [inFlow, standing, push, skip]
  | some k => simp [inFlow, standing, push, skip, hreach k rfl, (hkey k rfl).1]

/-- A sign of structure, and the space behind it. -/
theorem At.sign {t start : Token} (h : s.At out blocks true m (c :: ' ' :: r)) (hr : Solid r)
    (hc : isPrintable c = true ∧ c ≠ ' ' ∧ isBreak c = false ∧ c ≠ '#')
    (hmark : Unmarked (c :: ' ' :: r))
    (hopen : (opened blocks m.column).head? = some m.column)
    (hsign : (standing out blocks s.key true m (c :: ' ' :: r)).dispatch =
      some (Lexer.sign t start out blocks m (' ' :: r))) :
    ∃ s', s.Reads [c, ' '] s' ∧
      s'.At (t :: (openers blocks m.column start ++ out)) (opened blocks m.column) true
        m.next.next r := by
  have hp : Printable (c :: ' ' :: r) := by simpa [hc.1] using hr.1
  have hsolid : Solid (c :: ' ' :: r) := ⟨hp, by simpa using hc.2⟩
  refine ⟨Lexer.sign t start out blocks m (' ' :: r), .one (by simp) ?_, ?_⟩
  · rw [h.next_eq_dispatch (by simp) hsolid (fun _ => hmark) (le_of_opened hopen), hsign]
    rfl
  · exact .intro (skipGap_space hr) rfl rfl (fun _ h => by cases h)

/-- A dash, where an item starts. -/
theorem At.dash (h : s.At out blocks true m ('-' :: ' ' :: r)) (hr : Solid r)
    (hopen : (opened blocks m.column).head? = some m.column) : ∃ s', s.Reads ['-', ' '] s' ∧
      s'.At (.blockEntry :: (openers blocks m.column .blockListStart ++ out))
        (opened blocks m.column) true m.next.next r := by
  have hp : Printable ('-' :: ' ' :: r) := by simpa [isPrintable] using hr.1
  refine h.sign hr (by decide) (unmarked_dash hp) hopen ?_
  rw [← blockEntry_standing hp (by decide) fun k hk => (h.key k hk).1]
  have hhead : headChar (cells m ('-' :: ' ' :: r)) = '-' := headChar_cells hp m
  have hnext : charAt 1 (cells m ('-' :: ' ' :: r)) = ' ' := charAt_cells hp 1 m
  simp [dispatch, flowToken?, standing, hhead, hnext, isGap, isBlank]

/-- A question mark, where a key starts. -/
theorem At.question (h : s.At out blocks true m ('?' :: ' ' :: r)) (hr : Solid r)
    (hopen : (opened blocks m.column).head? = some m.column) : ∃ s', s.Reads ['?', ' '] s' ∧
      s'.At (.key :: (openers blocks m.column .blockMapStart ++ out))
        (opened blocks m.column) true m.next.next r := by
  have hp : Printable ('?' :: ' ' :: r) := by simpa [isPrintable] using hr.1
  refine h.sign hr (by decide) (unmarked_cons hp (by decide)) hopen ?_
  rw [← announcedKey_standing hp (by decide) fun k hk => (h.key k hk).1]
  have hhead : headChar (cells m ('?' :: ' ' :: r)) = '?' := headChar_cells hp m
  have hnext : charAt 1 (cells m ('?' :: ' ' :: r)) = ' ' := charAt_cells hp 1 m
  simp [dispatch, flowToken?, standing, hhead, hnext, isGap, isBlank]

/-- A colon at the start of a line, where the value of an announced key starts. -/
theorem At.colon (h : s.At out blocks true m (':' :: ' ' :: r)) (hr : Solid r)
    (hopen : (opened blocks m.column).head? = some m.column) : ∃ s', s.Reads [':', ' '] s' ∧
      s'.At (.value :: (openers blocks m.column .blockMapStart ++ out))
        (opened blocks m.column) true m.next.next r := by
  have hp : Printable (':' :: ' ' :: r) := by simpa [isPrintable] using hr.1
  refine h.sign hr (by decide) (unmarked_cons hp (by decide)) hopen ?_
  rw [← value_standing hp (by decide) h.key]
  have hhead : headChar (cells m (':' :: ' ' :: r)) = ':' := headChar_cells hp m
  have hnext : charAt 1 (cells m (':' :: ' ' :: r)) = ' ' := charAt_cells hp 1 m
  simp [dispatch, flowToken?, standing, hhead, hnext, isGap, isBlank]

end

end

end StreamPipeline.Yaml.Lexer
