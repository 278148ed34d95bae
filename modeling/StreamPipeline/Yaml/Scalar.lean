import StreamPipeline.Yaml.Printer
import StreamPipeline.Yaml.Cell

/-!
# Reading scalars

Each style of scalar is read by one pass over the cells that carries what it has read and the gap
it is in: blanks within a line are kept, blanks around a break are not, and a single break between
two lines of a folded scalar is a space. Every reader gives the text and the cells behind it, or
nothing if the text is not well formed.
-/

namespace StreamPipeline.Yaml

/-! ### Gaps between the words of a folded scalar -/

/-- The blanks and breaks since the last word, newest first. -/
inductive Gap
  /-- Nothing. -/
  | none
  /-- Blanks within a line. -/
  | blanks (newest : List Char)
  /-- A break, and those that followed. -/
  | breaks (first : Char) (newest : List Char)
  /-- An escaped break, and those that followed. -/
  | escaped (newest : List Char)
  deriving DecidableEq, Repr

namespace Gap

/-- Whether the gap reaches into another line. -/
def isBroken : Gap → Bool
  | breaks .. | escaped _ => true
  | _ => false

/-- The gap with a blank at its end; in another line than the last word, blanks do not count. -/
def addBlank (c : Char) : Gap → Gap
  | none => blanks [c]
  | blanks cs => blanks (c :: cs)
  | g => g

/-- The gap with a break at its end. -/
def addBreak (c : Char) : Gap → Gap
  | none | blanks _ => breaks c []
  | breaks first cs => breaks first (c :: cs)
  | escaped cs => escaped (c :: cs)

/-- What the gap contributes, newest character first: blanks are kept, a lone break becomes a
space, and of several the first is dropped. -/
def folded : Gap → List Char
  | none => []
  | blanks cs => cs
  | breaks first cs =>
    if first == '\n' then (if cs.isEmpty then [' '] else cs) else cs ++ [first]
  | escaped cs => cs

end Gap

/-! ### Plain scalars -/

/-- Whether a plain scalar ends before the head. -/
def endsPlain (inFlow : Bool) (cs : List Cell) : Bool :=
  (headChar cs == ':' && isGap (charAt 1 cs)) || (inFlow && isFlowIndicator (headChar cs))

/-- Whether the head is a colon that inside brackets is refused. -/
def refusesPlain (inFlow : Bool) (cs : List Cell) : Bool :=
  inFlow && headChar cs == ':' && (isFlowIndicator (charAt 1 cs) || charAt 1 cs == '?')

/-- Reads on in a plain scalar, whose further lines start at column `margin` or beyond. Gives the
text newest first, the gap at its end, and the cells behind that gap. -/
def plainRest (inFlow : Bool) (margin : Nat) (acc : List Char) (gap : Gap) :
    List Cell → Option (List Char × Gap × List Cell)
  | [] => some (acc, gap, [])
  | c :: r =>
    if isBlank c.char then
      if gap.isBroken && c.mark.column < margin && c.char == '\t' then none
      else plainRest inFlow margin acc (gap.addBlank c.char) r
    else if isBreak c.char then plainRest inFlow margin acc (gap.addBreak c.char) r
    else if c.char == finish
        || (gap != .none && ((!inFlow && c.mark.column < margin) || atDocumentMarker (c :: r)
          || c.char == '#')) then
      some (acc, gap, c :: r)
    else if refusesPlain inFlow (c :: r) then none
    else if endsPlain inFlow (c :: r) then some (acc, gap, c :: r)
    else plainRest inFlow margin (c.char :: (gap.folded ++ acc)) .none r

/-- Reads a plain scalar: its text, whether the gap behind it reaches into another line, and the
cells behind that gap. -/
def plainScalar (inFlow : Bool) (margin : Nat) (cs : List Cell) :
    Option (String × Bool × List Cell) :=
  (plainRest inFlow margin [] .none cs).map fun (acc, gap, r) =>
    (String.ofList acc.reverse, gap.isBroken, r)

/-! ### Quoted scalars -/

/-- Reads on between single quotes. -/
def singleRest (acc : List Char) (gap : Gap) : List Cell → Option (List Char × List Cell)
  | [] => none
  | c :: r =>
    if isBlank c.char then singleRest acc (gap.addBlank c.char) r
    else if isBreak c.char then singleRest acc (gap.addBreak c.char) r
    else if c.char == finish || atDocumentMarker (c :: r) then none
    else if c.char == '\'' then
      match r with
      | d :: s =>
        if d.char == '\'' then singleRest ('\'' :: (gap.folded ++ acc)) .none s
        else some (gap.folded ++ acc, d :: s)
      | [] => some (gap.folded ++ acc, [])
    else singleRest (c.char :: (gap.folded ++ acc)) .none r

/-- The number of hexadecimal digits behind the letter of a numbered escape. -/
def escapeWidth? (c : Char) : Option Nat :=
  if c == 'x' then some 2 else if c == 'u' then some 4 else if c == 'U' then some 8 else none

/-- The character that a letter behind a backslash stands for. -/
def shortEscape? (c : Char) : Option Char :=
  if c == ' ' || c == '/' then some c
  else if c == '\t' then some '\t'
  else (shortEscapes.find? (·.1 == c)).map (·.2)

/-- The value of `digits`, all hexadecimal. -/
def hexValue? (digits : List Char) : Option Nat :=
  digits.foldlM (fun n c => (hexDigit? c).map (16 * n + ·)) 0

/-- The character with a number, if it has one. -/
def charOfNumber? (n : Nat) : Option Char :=
  if n.isValidChar then some (Char.ofNat n) else none

/-- Reads on between double quotes; `skip` cells belong to an escape that has been read. -/
def doubleRest (acc : List Char) (gap : Gap) (skip : Nat) :
    List Cell → Option (List Char × List Cell)
  | [] => none
  | c :: r =>
    if skip > 0 then doubleRest acc gap (skip - 1) r
    else if isBlank c.char then doubleRest acc (gap.addBlank c.char) 0 r
    else if isBreak c.char then doubleRest acc (gap.addBreak c.char) 0 r
    else if c.char == finish || atDocumentMarker (c :: r) then none
    else if c.char == '"' then some (gap.folded ++ acc, r)
    else if c.char == '\\' then
      let e := headChar r
      if isBreak e then doubleRest (gap.folded ++ acc) (.escaped []) 1 r
      else match escapeWidth? e with
        | some width =>
          match (hexValue? ((r.drop 1).take width |>.map Cell.char)).bind charOfNumber? with
          | some d => doubleRest (d :: (gap.folded ++ acc)) .none (width + 1) r
          | none => none
        | none =>
          match shortEscape? e with
          | some d => doubleRest (d :: (gap.folded ++ acc)) .none 1 r
          | none => none
    else doubleRest (c.char :: (gap.folded ++ acc)) .none 0 r

/-- Reads a quoted scalar from behind its opening quote: its text and the cells behind the closing
quote. -/
def quotedScalar (isDouble : Bool) (cs : List Cell) : Option (String × List Cell) :=
  (if isDouble then doubleRest [] .none 0 cs else singleRest [] .none cs).map fun (acc, r) =>
    (String.ofList acc.reverse, r)

/-! ### Block scalars -/

/-- What becomes of the breaks at the end of a block scalar. -/
inductive Chomping
  /-- They are dropped. -/
  | strip
  /-- The first one stays. -/
  | clip
  /-- All of them stay. -/
  | keep
  deriving DecidableEq, Repr

/-- The sign of a way of chomping. -/
def chomping? (c : Char) : Option Chomping :=
  if c == '+' then some .keep else if c == '-' then some .strip else none

/-- The digit of an indentation. -/
def indentation? (c : Char) : Option Nat :=
  if c.isDigit then some (c.toNat - '0'.toNat) else none

/-- Reads the header of a block scalar, from behind its indicator to the start of the next line:
the way of chomping, the indentation if it is given, and the rest. -/
def blockHeader (cs : List Cell) : Option (Chomping × Option Nat × List Cell) := do
  let (chomp, indent, r) := match chomping? (charAt 0 cs), indentation? (charAt 0 cs) with
    | some chomp, _ =>
      match indentation? (charAt 1 cs) with
      | some n => (chomp, some n, cs.drop 2)
      | none => (chomp, none, cs.drop 1)
    | none, some n =>
      match chomping? (charAt 1 cs) with
      | some chomp => (chomp, some n, cs.drop 2)
      | none => (.clip, some n, cs.drop 1)
    | none, none => (.clip, none, cs)
  if indent = some 0 then none
  let r := dropCells isBlank r
  let r := if headChar r == '#' then dropCells (!endsLine ·) r else r
  if !endsLine (headChar r) then none
  return (chomp, indent, if isBreak (headChar r) then r.drop 1 else r)

/-- Reads the empty lines in front of a block scalar whose indentation is to be found: the breaks,
newest first, the widest indentation seen, and the rest. -/
def leadingBreaks (acc : List Char) (widest : Nat) :
    List Cell → Option (List Char × Nat × List Cell)
  | [] => some (acc, widest, [])
  | c :: r =>
    if c.char == ' ' then leadingBreaks acc widest r
    else if c.char == '\t' then none
    else
      let widest := max widest c.mark.column
      if isBreak c.char then leadingBreaks (c.char :: acc) widest r
      else some (acc, widest, c :: r)

/-- What has been read of a block scalar. -/
structure BlockState where
  /-- The text, newest first. -/
  acc : List Char := []
  /-- The break behind the last line. -/
  lead : Option Char := none
  /-- The breaks of the empty lines since, newest first. -/
  trail : List Char := []
  /-- Whether the last line starts with a blank. -/
  indented : Bool := false
  /-- Whether the reader is within a line. -/
  inLine : Bool := false
  deriving DecidableEq, Repr

/-- The text with the breaks in front of a line that starts with `c`: in a folded scalar the break
between two lines that start with no blank is a space, or nothing if empty lines follow it. -/
def BlockState.join (s : BlockState) (isFolded : Bool) (c : Char) : List Char :=
  if isFolded && s.lead == some '\n' && !s.indented && !isBlank c then
    (if s.trail.isEmpty then [' '] else s.trail) ++ s.acc
  else s.trail ++ (s.lead.toList ++ s.acc)

/-- The text at the end of the scalar. -/
def BlockState.finish (s : BlockState) : Chomping → List Char
  | .strip => s.acc
  | .clip => s.lead.toList ++ s.acc
  | .keep => s.trail ++ (s.lead.toList ++ s.acc)

/-- Reads on in a block scalar whose lines start at column `margin`. -/
def blockRest (isFolded : Bool) (margin : Nat) (s : BlockState) :
    List Cell → Option (BlockState × List Cell)
  | [] => some (s, [])
  | c :: r =>
    if s.inLine then
      if isBreak c.char then
        blockRest isFolded margin { s with lead := some c.char, trail := [], inLine := false } r
      else if c.char == Yaml.finish then some ({ s with lead := none, trail := [] }, c :: r)
      else blockRest isFolded margin { s with acc := c.char :: s.acc } r
    else if isBlank c.char && c.mark.column < margin then
      if c.char == ' ' then blockRest isFolded margin s r else none
    else if isBreak c.char then
      blockRest isFolded margin { s with trail := c.char :: s.trail } r
    else if c.mark.column == margin && c.char != Yaml.finish then
      blockRest isFolded margin
        { s with acc := c.char :: s.join isFolded c.char, trail := [], inLine := true,
                 indented := isBlank c.char } r
    else some (s, c :: r)

/-- Reads a block scalar from behind its indicator; its lines start at column `margin` or beyond,
unless its header says how far beyond the enclosing block, whose column is `parent`. -/
def blockScalar (isFolded : Bool) (parent : Option Nat) (cs : List Cell) :
    Option (String × List Cell) := do
  let (chomp, indent, r) ← blockHeader cs
  let (margin, trail, r) ← match indent with
    | some n => pure (parent.getD 0 + n, [], r)
    | none => do
      let (trail, widest, r) ← leadingBreaks [] 0 r
      pure (max (max widest ((parent.map (· + 1)).getD 0)) 1, trail, r)
  let (s, r) ← blockRest isFolded margin { trail } r
  return (String.ofList (s.finish chomp).reverse, r)

end StreamPipeline.Yaml
