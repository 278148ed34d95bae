import StreamPipeline.Yaml.Char

/-!
# Text with places

The reader works on a text whose characters carry their places (`cells`). Every break is one cell:
the pair of carriage return and line feed, either alone, and the next-line character all become a
line feed, and only the separators of lines and paragraphs stay what they are. Behind the last
character stands a cell with `finish`.
-/

namespace StreamPipeline.Yaml

/-- A place in a text: its line, its column, and the number of characters before it. -/
structure Mark where
  line : Nat := 0
  column : Nat := 0
  index : Nat := 0
  deriving DecidableEq, Repr, Inhabited

/-- A character at its place. -/
structure Cell where
  char : Char
  mark : Mark
  deriving DecidableEq, Repr, Inhabited

/-- The place behind a character other than a break. -/
def Mark.next (m : Mark) : Mark := { m with column := m.column + 1, index := m.index + 1 }

/-- The start of the next line, behind a break of `n` characters. -/
def Mark.newLine (m : Mark) (n : Nat) : Mark := ⟨m.line + 1, 0, m.index + n⟩

/-- The cells of a text that starts at `m`. -/
def cells (m : Mark) : List Char → List Cell
  | [] => [⟨finish, m⟩]
  | '\r' :: '\n' :: r => ⟨'\n', m⟩ :: cells (m.newLine 2) r
  | c :: r =>
    if c == '\r' || c.toNat == 0x85 then ⟨'\n', m⟩ :: cells (m.newLine 1) r
    else if isBreak c then ⟨c, m⟩ :: cells (m.newLine 1) r
    else ⟨c, m⟩ :: cells m.next r

/-- The character at the head, `finish` behind the end. -/
def headChar : List Cell → Char
  | [] => finish
  | c :: _ => c.char

/-- The place of the head. -/
def headMark : List Cell → Mark
  | [] => {}
  | c :: _ => c.mark

/-- The character `n` places behind the head. -/
def charAt (n : Nat) (cs : List Cell) : Char := headChar (cs.drop n)

/-- The longest front whose characters satisfy `p`, and the rest. -/
def spanCells (p : Char → Bool) : List Cell → List Char × List Cell
  | [] => ([], [])
  | c :: r =>
    if p c.char then
      let (front, rest) := spanCells p r
      (c.char :: front, rest)
    else ([], c :: r)

/-- The rest behind the longest front whose characters satisfy `p`. -/
def dropCells (p : Char → Bool) (cs : List Cell) : List Cell := (spanCells p cs).2

/-- Whether a marker of a document stands at the head: three times `c` at the start of a line,
before a gap. -/
def atMarker (c : Char) (cs : List Cell) : Bool :=
  (headMark cs).column == 0 && charAt 0 cs == c && charAt 1 cs == c && charAt 2 cs == c
    && isGap (charAt 3 cs)

/-- Whether a marker of the start or the end of a document stands at the head. -/
def atDocumentMarker (cs : List Cell) : Bool := atMarker '-' cs || atMarker '.' cs

end StreamPipeline.Yaml
