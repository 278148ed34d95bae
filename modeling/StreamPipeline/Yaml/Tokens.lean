import StreamPipeline.Yaml.Scalar
import StreamPipeline.Yaml.Token

/-!
# Cutting a text into tokens

`tokens?` reads a whole text. It carries the columns of the open blocks, the nesting of brackets,
and on each level the place where a key may have started: when a colon shows that it was one, `key`
(and the start of its map, if there is none at that column) is put in front of it after the fact. A
key that no question mark announces must stand with its colon on one line and within 1024
characters.
-/

namespace StreamPipeline.Yaml

/-- A place where a key may have started. -/
structure KeyStart where
  /-- Whether nothing but a key may stand there. -/
  required : Bool
  /-- The number of tokens in front of it. -/
  position : Nat
  /-- Its place in the text. -/
  mark : Mark
  deriving DecidableEq, Repr

/-- The state of reading tokens. -/
structure Lexer where
  /-- The text that is left. -/
  rest : List Cell
  /-- The tokens so far, newest first. -/
  out : List Token := []
  /-- The number of tokens so far. -/
  count : Nat := 0
  /-- The columns of the open blocks, innermost first. -/
  blocks : List Nat := []
  /-- Where a key may have started on the present level of brackets. -/
  key : Option KeyStart := none
  /-- The same on the enclosing levels, innermost first. -/
  outerKeys : List (Option KeyStart) := []
  /-- Whether a key may start here. -/
  keyAllowed : Bool := true
  deriving Repr

namespace Lexer

/-- Whether the reader is within brackets. -/
def inFlow (s : Lexer) : Bool := !s.outerKeys.isEmpty

/-- The place of the head. -/
def mark (s : Lexer) : Mark := headMark s.rest

/-- One more than the column of the innermost block, or zero outside all blocks. -/
def margin (s : Lexer) : Nat := (s.blocks.head?.map (· + 1)).getD 0

/-- The state with a token more. -/
def push (s : Lexer) (t : Token) : Lexer := { s with out := t :: s.out, count := s.count + 1 }

/-- The state with tokens put at a position that has been passed. -/
def insertAt (s : Lexer) (position : Nat) (ts : List Token) : Lexer :=
  let later := s.count - position
  { s with out := s.out.take later ++ (ts.reverse ++ s.out.drop later)
           count := s.count + ts.length }

/-- The state without `n` characters. -/
def skip (s : Lexer) (n : Nat) : Lexer := { s with rest := s.rest.drop n }

/-! ### Blocks -/

/-- Opens a block at a column beyond the innermost one; `ts` are the tokens that belong at
`position`, in front of which the start of the block goes. -/
def openBlock (s : Lexer) (column position : Nat) (start : Token) (ts : List Token) : Lexer :=
  if !s.inFlow && s.margin ≤ column then
    { s.insertAt position (start :: ts) with blocks := column :: s.blocks }
  else s.insertAt position ts

/-- Closes blocks while `p` holds of the innermost column. -/
def closeWhile (p : Nat → Bool) : List Nat → List Token × List Nat
  | [] => ([], [])
  | c :: r =>
    if p c then
      let (ts, r) := closeWhile p r
      (.blockEnd :: ts, r)
    else ([], c :: r)

/-- Closes the blocks whose column satisfies `p`, from the innermost on; brackets suspend this. -/
def closeBlocks (s : Lexer) (p : Nat → Bool) : Lexer :=
  if s.inFlow then s else
    let (ts, blocks) := closeWhile p s.blocks
    { s with out := ts ++ s.out, count := s.count + ts.length, blocks }

/-! ### Keys -/

/-- Gives up the place where a key may have started on this level, unless one is required. -/
def dropKey (s : Lexer) : Option Lexer :=
  match s.key with
  | some k => if k.required then none else some { s with key := none }
  | none => some s

/-- Notes that a key may start at the head. -/
def noteKey (s : Lexer) : Option Lexer :=
  if s.keyAllowed then do
    let required := !s.inFlow && s.blocks.head? == some s.mark.column
    let s' ← s.dropKey
    return { s' with key := some ⟨required, s.count, s.mark⟩ }
  else some s

/-- Whether a key that started at `k` can end at `m`. -/
def KeyStart.reaches (k : KeyStart) (m : Mark) : Bool :=
  k.mark.line == m.line && m.index ≤ k.mark.index + 1024

/-! ### Between tokens -/

/-- Skips blanks, comments and breaks. In block context a break allows a key, and a tab in front
of a place where a key may start is left standing. -/
def skipGap (inFlow allowed inComment : Bool) : List Cell → Bool × List Cell
  | [] => (allowed, [])
  | c :: r =>
    if isBreak c.char then skipGap inFlow (allowed || !inFlow) false r
    else if c.char == finish then (allowed, c :: r)
    else if inComment then skipGap inFlow allowed true r
    else if c.char == ' ' || (c.mark.column == 0 && isByteOrderMark c.char)
        || ((inFlow || !allowed) && c.char == '\t') then
      skipGap inFlow allowed false r
    else if c.char == '#' then skipGap inFlow allowed true r
    else (allowed, c :: r)

/-! ### Directives -/

/-- A number of a version: up to nine digits. -/
def versionNumber? (cs : List Cell) : Option (Nat × List Cell) :=
  let (digits, r) := spanCells Char.isDigit cs
  if digits.isEmpty || 9 < digits.length then none
  else some (Nat.ofDigitChars 10 digits 0, r)

/-- Bytes behind percent signs, as many as the first one announces. -/
def percentBytes (n : Nat) : List Cell → Option (List UInt8 × List Cell)
  | p :: a :: b :: r => do
    if p.char != '%' then none
    let hi ← hexDigit? a.char
    let lo ← hexDigit? b.char
    let byte := 16 * hi + lo
    let more ← match n with
      | 0 =>
        if byte < 0x80 then some 0
        else if byte / 32 == 6 then some 1
        else if byte / 16 == 14 then some 2
        else if byte / 8 == 30 then some 3
        else none
      | n + 1 => if byte / 64 == 2 then some n else none
    if more = 0 then return ([UInt8.ofNat byte], r)
    let (bytes, r) ← percentBytes more r
    return (UInt8.ofNat byte :: bytes, r)
  | _ => none

/-- The characters of a tag, up to `fuel` of them, as bytes. -/
def tagBytes (withFlow : Bool) : Nat → List Cell → Option (List UInt8 × List Cell)
  | 0, _ => none
  | fuel + 1, cs =>
    let c := headChar cs
    if c == '%' then do
      let (bytes, r) ← percentBytes 0 cs
      let (more, r) ← tagBytes withFlow fuel r
      return (bytes ++ more, r)
    else if isTagChar c || (withFlow && (c == ',' || c == '[' || c == ']')) then do
      let (more, r) ← tagBytes withFlow fuel (cs.drop 1)
      return (UInt8.ofNat c.toNat :: more, r)
    else some ([], cs)

/-- The text of a tag; bytes that are no text give the empty one, which names nothing. -/
def tagText (withFlow : Bool) (cs : List Cell) : Option (String × List Cell) :=
  (tagBytes withFlow (cs.length + 1) cs).map fun (bytes, r) =>
    ((String.fromUTF8? bytes.toByteArray).getD "", r)

/-- A handle: an exclamation mark, and word characters up to a second one if there is one. -/
def tagHandle? (cs : List Cell) : Option (String × List Cell) :=
  if headChar cs != '!' then none else
    let (name, r) := spanCells isWord (cs.drop 1)
    if headChar r == '!' then some (String.ofList ('!' :: (name ++ ['!'])), r.drop 1)
    else some (String.ofList ('!' :: name), r)

/-- Whether a handle ends with a second exclamation mark. -/
def isWholeHandle (handle : String) : Bool :=
  1 < handle.length && handle.toList.getLast? == some '!'

/-- What a directive says, from behind its name. -/
def directiveValue? (name : List Char) (cs : List Cell) : Option (Token × List Cell) :=
  let r := dropCells isBlank cs
  if name == "YAML".toList then do
    let (major, r) ← versionNumber? r
    if headChar r != '.' then none
    let (minor, r) ← versionNumber? (r.drop 1)
    return (.versionDirective major minor, r)
  else if name == "TAG".toList then do
    let (handle, r) ← tagHandle? r
    if !(handle == "!" || isWholeHandle handle) || !isBlank (headChar r) then none
    let (expansion, r) ← tagText true (dropCells isBlank r)
    if expansion.isEmpty || !isGap (headChar r) then none
    return (.tagDirective handle expansion, r)
  else none

/-- A directive, from behind its percent sign to the start of the next line. -/
def directive? (cs : List Cell) : Option (Token × List Cell) := do
  let (name, r) := spanCells isWord cs
  if name.isEmpty || !isGap (headChar r) then none
  let (t, r) ← directiveValue? name r
  let r := dropCells isBlank r
  let r := if headChar r == '#' then dropCells (!endsLine ·) r else r
  if !endsLine (headChar r) then none
  return (t, if isBreak (headChar r) then r.drop 1 else r)

/-! ### Properties of nodes -/

/-- The name of an anchor or an alias, from behind its indicator. -/
def anchorName? (cs : List Cell) : Option (String × List Cell) :=
  let (name, r) := spanCells isWord cs
  let c := headChar r
  let isEnd := isGap c || ['?', ':', ',', ']', '\x7d', '%', '@', '\x60'].contains c
  if name.isEmpty || !isEnd then none
  else some (String.ofList name, r)

/-- A tag, from its first exclamation mark on. -/
def tag? (inFlow : Bool) (cs : List Cell) : Option (Token × List Cell) := do
  let (t, r) ←
    if charAt 1 cs == '<' then do
      let (suffix, r) ← tagText true (cs.drop 2)
      if suffix.isEmpty || headChar r != '>' then none
      pure (Token.tag "" suffix, r.drop 1)
    else do
      let (handle, r) ← tagHandle? cs
      let (suffix, r) ← tagText false r
      if isWholeHandle handle then
        if suffix.isEmpty then none
        pure (Token.tag handle suffix, r)
      else
        let suffix := String.ofList (handle.toList.drop 1) ++ suffix
        pure (if suffix.isEmpty then Token.tag "" "!" else Token.tag "!" suffix, r)
  if isGap (headChar r) || (inFlow && headChar r == ',') then return (t, r) else none

/-! ### Tokens -/

/-- Drops all blocks and the possible key, as at the end of a document. -/
def closeAll (s : Lexer) : Option Lexer := do
  let s ← (s.closeBlocks fun _ => true).dropKey
  return { s with keyAllowed := false }

/-- The token of an indicator that opens or closes brackets, or separates within them. -/
def flowToken? (s : Lexer) (c : Char) : Option (Option Lexer) :=
  let opens := fun (t : Token) => do
    let s ← s.noteKey
    return { (s.push t).skip 1 with key := none, outerKeys := s.key :: s.outerKeys,
                                    keyAllowed := true }
  let closes := fun (t : Token) => do
    let s ← s.dropKey
    return { (s.push t).skip 1 with key := s.outerKeys.headD none, outerKeys := s.outerKeys.drop 1,
                                    keyAllowed := false }
  if c == '[' then some (opens .flowListStart)
  else if c == '\x7b' then some (opens .flowMapStart)
  else if c == ']' then some (closes .flowListEnd)
  else if c == '\x7d' then some (closes .flowMapEnd)
  else if c == ',' then
    some do
      let s ← s.dropKey
      return { (s.push .flowEntry).skip 1 with keyAllowed := true }
  else none

/-- A dash: the start of an entry of a block list. -/
def blockEntry (s : Lexer) : Option Lexer := do
  if !s.inFlow && !s.keyAllowed then none
  let s := s.openBlock s.mark.column s.count .blockListStart []
  let s ← s.dropKey
  return { (s.push .blockEntry).skip 1 with keyAllowed := true }

/-- A question mark: the start of a key. -/
def announcedKey (s : Lexer) : Option Lexer := do
  if !s.inFlow && !s.keyAllowed then none
  let s := s.openBlock s.mark.column s.count .blockMapStart []
  let s ← s.dropKey
  return { (s.push .key).skip 1 with keyAllowed := !s.inFlow }

/-- A colon: the start of a value, behind a key that may have to be marked as one only now. -/
def value (s : Lexer) : Option Lexer := do
  let complex : Option Lexer := do
    if !s.inFlow && !s.keyAllowed then none
    let s := s.openBlock s.mark.column s.count .blockMapStart []
    return { s with key := none, keyAllowed := !s.inFlow }
  let s ← match s.key with
    | some k =>
      if KeyStart.reaches k s.mark then
        some { s.openBlock k.mark.column k.position .blockMapStart [.key] with
                key := none, keyAllowed := false }
      else if k.required then none
      else complex
    | none => complex
  return (s.push .value).skip 1

/-- A token that ends no key: a property or a scalar of one line. -/
def node (s : Lexer) (t : Option (Token × List Cell)) : Option Lexer := do
  let s ← s.noteKey
  let (t, rest) ← t
  return { s.push t with rest, keyAllowed := false }

/-- A scalar without quotes. -/
def plain (s : Lexer) : Option Lexer := do
  let s ← s.noteKey
  let (text, broken, rest) ← plainScalar s.inFlow s.margin s.rest
  return { s.push (.scalar true text) with rest, keyAllowed := broken }

/-- A block scalar. -/
def block (s : Lexer) (isFolded : Bool) : Option Lexer := do
  let s ← s.dropKey
  let (text, rest) ← blockScalar isFolded s.blocks.head? (s.rest.drop 1)
  return { s.push (.scalar false text) with rest, keyAllowed := true }

/-- Whether a plain scalar starts at the head. -/
def startsPlain (s : Lexer) : Bool :=
  let c := headChar s.rest
  let d := charAt 1 s.rest
  (c == '-' && !isBlank d) || (!s.inFlow && (c == '?' || c == ':') && !isGap d)
    || !(isGap c || isIndicator c || c == '-' || c == '?' || c == ':')

/-- Reads the next token; at the end of the text, closes what is open and says so. -/
def next (s : Lexer) : Option (Lexer × Bool) := do
  let (keyAllowed, rest) := skipGap s.inFlow s.keyAllowed false s.rest
  let s := { s with rest, keyAllowed }
  let s := s.closeBlocks (s.mark.column < ·)
  let c := headChar rest
  let d := charAt 1 rest
  let continue' := fun (s : Option Lexer) => s.map (·, false)
  if c == finish then s.closeAll.map (·, true)
  else if s.mark.column == 0 && c == '%' then do
    let s ← s.closeAll
    let (t, rest) ← directive? (rest.drop 1)
    return ({ s.push t with rest }, false)
  else if atMarker '-' rest then
    continue' (s.closeAll.map fun s => (s.push .documentStart).skip 3)
  else if atMarker '.' rest then
    continue' (s.closeAll.map fun s => (s.push .documentEnd).skip 3)
  else match s.flowToken? c with
    | some s => continue' s
    | none =>
      if c == '-' && isGap d then continue' s.blockEntry
      else if c == '?' && (s.inFlow || isGap d) then continue' s.announcedKey
      else if c == ':' && (s.inFlow || isGap d) then continue' s.value
      else if c == '*' then
        continue' (s.node ((anchorName? (rest.drop 1)).map fun (n, r) => (.alias n, r)))
      else if c == '&' then
        continue' (s.node ((anchorName? (rest.drop 1)).map fun (n, r) => (.anchor n, r)))
      else if c == '!' then continue' (s.node (tag? s.inFlow rest))
      else if c == '|' && !s.inFlow then continue' (s.block false)
      else if c == '>' && !s.inFlow then continue' (s.block true)
      else if c == '\'' || c == '"' then
        continue' (s.node ((quotedScalar (c == '"') (rest.drop 1)).map fun (t, r) =>
          (.scalar false t, r)))
      else if s.startsPlain then continue' s.plain
      else none

/-- Reads tokens to the end of the text, at most `fuel` of them. -/
def run : Nat → Lexer → Option (List Token)
  | 0, _ => none
  | fuel + 1, s =>
    match s.next with
    | none => none
    | some (s, true) => some s.out.reverse
    | some (s, false) => run fuel s

end Lexer

/-- The tokens of a text, if it can be cut into tokens. Every token takes at least one character,
so their number is bounded by the length of the text. -/
def tokens? (cs : List Char) : Option (List Token) :=
  if cs.all isAllowed then Lexer.run (cs.length + 1) { rest := cells {} cs } else none

end StreamPipeline.Yaml
