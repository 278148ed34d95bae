import StreamPipeline.Yaml.Tree
import StreamPipeline.Yaml.Style
import StreamPipeline.Text.Decimal

/-!
# Writing YAML

Block style throughout: an entry of a map is its key, a colon and its value; a nested map is
indented by two columns, a nested list stands under its key. A key is written on the line of its
value if it has no break and at most 128 bytes, otherwise behind a question mark on lines of its
own. No line is ever folded.
-/

namespace StreamPipeline.Yaml

/-- `n` spaces. -/
def spaces (n : Nat) : List Char := List.replicate n ' '

/-! ### Scalars -/

/-- The text between single quotes: a quote is doubled, and behind a break comes the
indentation. -/
def singleBody (n : Nat) (afterBreak : Bool) : List Char → List Char
  | [] => if afterBreak then spaces n else []
  | c :: r =>
    if isBreak c then
      (if !afterBreak && c == '\n' then ['\n'] else []) ++ c :: singleBody n true r
    else
      (if afterBreak then spaces n else []) ++ (if c == '\'' then ['\'', '\''] else [c])
        ++ singleBody n false r

/-- A number in upper-case hexadecimal with at least `width` digits. -/
def hexPadded (width n : Nat) : List Char :=
  let digits := (Nat.toDigits 16 n).map Char.toUpper
  List.replicate (width - digits.length) '0' ++ digits

/-- The short escapes between double quotes: the letter behind the backslash and the character
that it stands for. -/
def shortEscapes : List (Char × Char) :=
  [('0', '\x00'), ('a', '\x07'), ('b', '\x08'), ('t', '\x09'), ('n', '\n'), ('v', '\x0b'),
    ('f', '\x0c'), ('r', '\r'), ('e', '\x1b'), ('"', '"'), ('\\', '\\'), ('N', Char.ofNat 0x85),
    ('_', Char.ofNat 0xA0), ('L', Char.ofNat 0x2028), ('P', Char.ofNat 0x2029)]

/-- The escape of a character between double quotes. -/
def escape (c : Char) : List Char :=
  match shortEscapes.find? (·.2 == c) with
  | some (letter, _) => ['\\', letter]
  | none =>
    let n := c.toNat
    if n ≤ 0xFF then '\\' :: 'x' :: hexPadded 2 n
    else if n ≤ 0xFFFF then '\\' :: 'u' :: hexPadded 4 n
    else '\\' :: 'U' :: hexPadded 8 n

/-- A character between double quotes. -/
def doubleChar (c : Char) : List Char :=
  if c == '"' || c == '\\' || isBreak c || !isPrintable c then escape c else [c]

/-- The lines of a literal block: what starts a line is indented. -/
def literalBody (n : Nat) (atStart : Bool) : List Char → List Char
  | [] => []
  | c :: r =>
    if isBreak c then c :: literalBody n true r
    else (if atStart then spaces n else []) ++ c :: literalBody n false r

/-- Whether the last of some characters is a break. -/
def endsBroken (cs : List Char) : Bool := cs.getLast?.any isBreak

/-- The header of a literal block: how far it is indented if that cannot be seen, and what becomes
of the breaks at its end. -/
def literalHeader (cs : List Char) : List Char :=
  let outer := fun c => c == ' ' || isBreak c
  let chomp :=
    if !endsBroken cs then ['-']
    else if cs.length == 1 || endsBroken cs.dropLast then ['+']
    else []
  '|' :: ((if cs.head?.any outer then ['2'] else []) ++ chomp)

/-- A scalar without what ends its line; further lines are indented by `n`. -/
def scalar (n : Nat) (cs : List Char) : List Char :=
  match styleOf cs with
  | .plain => cs
  | .single => '\'' :: (singleBody n false cs ++ ['\''])
  | .double => '"' :: (cs.flatMap doubleChar ++ ['"'])
  | .literal => literalHeader cs ++ '\n' :: literalBody n true cs

/-- A scalar up to the start of the next line. -/
def scalarLine (n : Nat) (cs : List Char) : List Char :=
  let written := scalar n cs
  if styleOf cs == .literal && endsBroken cs then written else written ++ ['\n']

/-! ### Trees -/

/-- Whether a key is written on the line of its value. -/
def isSimpleKey (k : String) : Bool := k.utf8ByteSize ≤ 128 && !k.toList.any isBreak

mutual

/-- A tree whose first line has been indented by `n` already, up to the start of the next line. -/
def block (n : Nat) : Tree → List Char
  | .text s => scalarLine n s.toList
  | .list items =>
    if items.isEmpty then ['[', ']', '\n'] else (spaces n).intercalate (items' n items)
  | .map entries =>
    if entries.isEmpty then ['\x7b', '\x7d', '\n'] else (spaces n).intercalate (entries' n entries)

/-- The items of a list, one text each. -/
def items' (n : Nat) : List Tree → List (List Char)
  | [] => []
  | t :: r => ('-' :: ' ' :: block (n + 2) t) :: items' n r

/-- The entries of a map, one text each. -/
def entries' (n : Nat) : List (String × Tree) → List (List Char)
  | [] => []
  | (k, t) :: r =>
    (if isSimpleKey k then
      scalar (n + 2) k.toList ++ ':' :: (match t with
        | .list (_ :: _) => '\n' :: (spaces n ++ block n t)
        | .map (_ :: _) => '\n' :: (spaces (n + 2) ++ block (n + 2) t)
        | _ => ' ' :: block (n + 2) t)
    else
      '?' :: ' ' :: (scalarLine (n + 2) k.toList
        ++ (spaces n ++ ':' :: ' ' :: block (n + 2) t))) :: entries' n r

end

/-- A document. -/
def Tree.render (t : Tree) : String := String.ofList (block 0 t)

end StreamPipeline.Yaml
