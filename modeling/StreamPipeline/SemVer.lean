import StreamPipeline.Text.Decimal
import StreamPipeline.Text.Quoted

/-!
# Semantic versions

A version is three numbers, a pre-release part and a build part, each part a list of identifiers.
`SemVer.parse` reads the written form and says what is wrong and where, `SemVer.render` writes it,
and `SemVer.Precedes` is the order in which versions are released: by the three numbers, then by
the pre-release part, where a version without one comes after all that have one. The build part
has no say.
-/

namespace StreamPipeline

/-- A semantic version; a part without identifiers is absent. -/
structure SemVer where
  /-- Raised by incompatible changes. -/
  major : Nat
  /-- Raised by additions. -/
  minor : Nat
  /-- Raised by repairs. -/
  patch : Nat
  /-- The identifiers of the pre-release part. -/
  pre : List (List Char) := []
  /-- The identifiers of the build part. -/
  build : List (List Char) := []
  deriving DecidableEq, Repr

namespace SemVer

/-- The places of a version at which reading can fail. -/
inductive Place
  | major
  | minor
  | patch
  | pre
  | build
  deriving DecidableEq, Repr

/-- The place as a message names it. -/
def Place.text : Place → String
  | .major => "major version number"
  | .minor => "minor version number"
  | .patch => "patch version number"
  | .pre => "pre-release identifier"
  | .build => "build metadata"

/-- Why a text is no version. -/
inductive Fault
  /-- The text is empty. -/
  | empty
  /-- The text ends where more was needed. -/
  | endsIn (p : Place)
  /-- A number does not start with a digit. -/
  | unexpected (p : Place) (c : Char)
  /-- A place is followed by something that cannot follow it. -/
  | unexpectedAfter (p : Place) (c : Char)
  /-- A number has a zero too many in front. -/
  | leadingZero (p : Place)
  /-- A number needs more than 64 bits. -/
  | tooLarge (p : Place)
  /-- Two dots, or a dot at an end, leave an identifier empty. -/
  | emptyIdentifier (p : Place)
  deriving DecidableEq, Repr

/-- The fault in words. -/
def Fault.message : Fault → String
  | .empty => "empty string, expected a semver version"
  | .endsIn p => "unexpected end of input while parsing " ++ p.text
  | .unexpected p c =>
    "unexpected character " ++ Text.quotedChar c ++ " while parsing " ++ p.text
  | .unexpectedAfter p c => "unexpected character " ++ Text.quotedChar c ++ " after " ++ p.text
  | .leadingZero p => "invalid leading zero in " ++ p.text
  | .tooLarge p => "value of " ++ p.text ++ " exceeds u64::MAX"
  | .emptyIdentifier p => "empty identifier segment in " ++ p.text

/-- Numbers of a version are below this. -/
def bound : Nat := UInt64.size

/-! ### Reading -/

/-- Whether a number is written with a zero in front of further digits. -/
def padded (digits : List Char) : Bool := digits.head? == some '0' && 1 < digits.length

/-- The number at the start of a text, and what follows it. -/
def number (p : Place) (cs : List Char) : Except Fault (Nat × List Char) :=
  let digits := cs.takeWhile Char.isDigit
  let rest := cs.dropWhile Char.isDigit
  if digits.isEmpty then
    .error (match rest with
      | [] => .endsIn p
      | c :: _ => .unexpected p c)
  else if padded digits then .error (.leadingZero p)
  else if bound ≤ Nat.ofDigitChars 10 digits 0 then .error (.tooLarge p)
  else .ok (Nat.ofDigitChars 10 digits 0, rest)

/-- What follows the dot at the start of a text. -/
def dot (p : Place) : List Char → Except Fault (List Char)
  | '.' :: r => .ok r
  | [] => .error (.endsIn p)
  | c :: _ => .error (.unexpectedAfter p c)

/-- Whether an identifier may hold a character. -/
def isIdentifierChar (c : Char) : Bool := c.isDigit || c.isAlpha || c == '-'

/-- A text cut at its dots. -/
def segments : List Char → List (List Char)
  | [] => [[]]
  | c :: r =>
    if c = '.' then [] :: segments r
    else match segments r with
      | [] => [[c]]
      | s :: ss => (c :: s) :: ss

/-- Accepts an identifier: it is not empty and, in a pre-release part, no padded number. -/
def checkIdentifier (p : Place) (s : List Char) : Except Fault Unit :=
  if s.isEmpty then .error (.emptyIdentifier p)
  else if p = .pre ∧ s.all Char.isDigit ∧ padded s then .error (.leadingZero p)
  else .ok ()

/-- The identifiers at the start of a text, and what follows them. -/
def identifiers (p : Place) (cs : List Char) : Except Fault (List (List Char) × List Char) := do
  let inside := fun c => isIdentifierChar c || c == '.'
  let parts := segments (cs.takeWhile inside)
  parts.forM (checkIdentifier p)
  return (parts, cs.dropWhile inside)

/-- The part that the sign `mark` introduces, if the text starts with it, and what follows. -/
def part (p : Place) (mark : Char) (cs : List Char) :
    Except Fault (Option (List (List Char)) × List Char) :=
  match cs with
  | c :: r =>
    if c = mark then (identifiers p r).map fun (ids, r) => (some ids, r)
    else .ok (none, cs)
  | [] => .ok (none, [])

/-- Reads a version, all of the text. -/
def parse (s : String) : Except Fault SemVer := do
  if s.toList.isEmpty then throw .empty
  let (major, r) ← number .major s.toList
  let r ← dot .major r
  let (minor, r) ← number .minor r
  let r ← dot .minor r
  let (patch, r) ← number .patch r
  let (pre, r) ← part .pre '-' r
  let (build, r) ← part .build '+' r
  match r with
  | [] => return { major, minor, patch, pre := pre.getD [], build := build.getD [] }
  | c :: _ =>
    throw (.unexpectedAfter
      (if build.isSome then .build else if pre.isSome then .pre else .patch) c)

/-! ### Writing -/

/-- A part behind its sign, and nothing for an absent part. -/
def renderPart (mark : Char) : List (List Char) → List Char
  | [] => []
  | ids => mark :: List.intercalate ['.'] ids

/-- The written form as characters. -/
def renderChars (v : SemVer) : List Char :=
  Nat.toDigits 10 v.major ++ '.' :: (Nat.toDigits 10 v.minor ++ '.' :: (Nat.toDigits 10 v.patch
    ++ (renderPart '-' v.pre ++ renderPart '+' v.build)))

/-- The written form of a version. -/
def render (v : SemVer) : String := String.ofList v.renderChars

/-! ### The next version -/

/-- The next patch release, which has neither pre-release nor build part; there is none after the
last number of 64 bits. -/
def nextPatch (v : SemVer) : Option SemVer :=
  if v.patch + 1 < bound then some { v with patch := v.patch + 1, pre := [], build := [] } else none

/-! ### Precedence -/

/-- Whether an identifier is a number. -/
def isNumeric (s : List Char) : Bool := s.all Char.isDigit

/-- The order of identifiers: numbers by value and below all others, the others by character. -/
def identifierPrecedes (a b : List Char) : Bool :=
  match isNumeric a, isNumeric b with
  | true, true => Nat.ofDigitChars 10 a 0 < Nat.ofDigitChars 10 b 0
  | true, false => true
  | false, true => false
  | false, false => a < b

/-- The order of identifier lists: by the first difference, and a list below its extensions. -/
def identifiersPrecede : List (List Char) → List (List Char) → Bool
  | [], [] => false
  | [], _ :: _ => true
  | _ :: _, [] => false
  | a :: as, b :: bs => identifierPrecedes a b || (a == b && identifiersPrecede as bs)

/-- The order of pre-release parts: an absent part comes last. -/
def prePrecedes (a b : List (List Char)) : Bool :=
  match a, b with
  | _ :: _, [] => true
  | [], _ => false
  | a, b => identifiersPrecede a b

/-- `v` is released before `w`. -/
def Precedes (v w : SemVer) : Prop :=
  v.major < w.major ∨ v.major = w.major ∧ (v.minor < w.minor ∨ v.minor = w.minor ∧
    (v.patch < w.patch ∨ v.patch = w.patch ∧ prePrecedes v.pre w.pre = true))

/-- The next patch release comes later. -/
theorem precedes_nextPatch {v w : SemVer} (h : v.nextPatch = some w) : v.Precedes w := by
  unfold nextPatch at h
  split at h
  · cases h
    exact .inr ⟨rfl, .inr ⟨rfl, .inl (Nat.lt_succ_self _)⟩⟩
  · cases h

end SemVer

end StreamPipeline
