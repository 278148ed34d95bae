import StreamPipeline.Json.Value
import StreamPipeline.Text.Decimal

/-!
# Reading JSON

`Json.ofText?` reads a whole text. A whole number that fits 64 bits is exact. Any other number is
taken from its first digits, as many as fit 64 bits: they are rounded to a binary number, which is
then multiplied or divided by a rounded power of ten (`Number.toBinary?`).
-/

namespace StreamPipeline.Json

/-! ### Numbers -/

/-- A number as it is read: the digits that count, and the power of ten that belongs to them. -/
structure Number where
  negative : Bool
  digits : Nat
  exponent : Int
  deriving DecidableEq, Repr

/-- The largest power of ten that a binary number can hold. -/
def widestPower : Nat := 308

/-- `x * 10 ^ e`, by division or multiplication with rounded powers of ten. -/
def scaleBy (fuel : Nat) (x : Binary64) (e : Int) : Option Binary64 :=
  if e.natAbs ≤ widestPower then
    if e < 0 then some (x.div (.tenPower e.natAbs))
    else
      let y := x.mul (.tenPower e.natAbs)
      if y.isFinite then some y else none
  else if x.isZero then some x
  else if e ≥ 0 then none
  else match fuel with
    | 0 => some x
    | fuel + 1 => scaleBy fuel (x.div (.tenPower widestPower)) (e + widestPower)

/-- The binary number that stands for a number, unless it is out of range. Three divisions by the
widest power leave nothing but zero. -/
def Number.toBinary? (n : Number) : Option Binary64 :=
  (scaleBy 4 (.ofNat n.digits) n.exponent).map fun x => if n.negative then x.negate else x

/-- The digits that may be held exactly. -/
def digitBound : Nat := UInt64.size

/-- Takes digits while the number that they spell stays below the bound. -/
def takeDigits (n : Nat) : List Char → Nat × Nat × List Char
  | [] => (n, 0, [])
  | c :: r =>
    let m := 10 * n + (c.toNat - '0'.toNat)
    if c.isDigit && m < digitBound then
      let (k, count, r) := takeDigits m r
      (k, count + 1, r)
    else (n, 0, c :: r)

/-- The part of a number behind its mark of an exponent. An exponent of more than 31 bits is out of
range, and beyond it nothing counts. -/
def exponentPart (n : Number) (cs : List Char) : Option (Json × List Char) :=
  let (isNegative, cs) := match cs with
    | '+' :: r => (false, r)
    | '-' :: r => (true, r)
    | cs => (false, cs)
  let digits := cs.takeWhile Char.isDigit
  let rest := cs.dropWhile Char.isDigit
  if digits.isEmpty then none else
    let e := Nat.ofDigitChars 10 digits 0
    let value : Option Binary64 :=
      if e < 1 <<< 31 then
        { n with exponent := if isNegative then n.exponent - e else n.exponent + e }.toBinary?
      else if n.digits = 0 || isNegative then some (.finite n.negative 0 (-1074))
      else none
    some ((value.map Json.float).getD .unreadable, rest)

/-- A number without an exponent. -/
def Number.toJson (n : Number) : Json := (n.toBinary?.map Json.float).getD .unreadable

/-- The part of a number behind its point, and its exponent. -/
def fractionPart (n : Number) (cs : List Char) : Option (Json × List Char) :=
  if !cs.head?.any Char.isDigit then none else
    let (digits, count, rest) := takeDigits n.digits cs
    let n := { n with digits, exponent := n.exponent - count }
    match rest.dropWhile Char.isDigit with
    | 'e' :: r | 'E' :: r => exponentPart n r
    | r => some (n.toJson, r)

/-- A whole number without fraction and exponent; zero behind a minus sign is no whole number. -/
def wholeNumber (negative : Bool) (digits : Nat) : Json :=
  if !negative then .int digits
  else if digits = 0 || 1 <<< 63 < digits then
    Number.toJson ⟨true, digits, 0⟩
  else .int (-digits)

/-- A number from behind its sign. -/
def number (negative : Bool) (cs : List Char) : Option (Json × List Char) :=
  match cs with
  | [] => none
  | c :: r =>
    if !c.isDigit then none
    else if c == '0' && r.head?.any Char.isDigit then none
    else
      let (digits, _, rest) := takeDigits 0 cs
      let dropped := rest.takeWhile Char.isDigit
      let n : Number := ⟨negative, digits, dropped.length⟩
      match rest.dropWhile Char.isDigit with
      | '.' :: r => fractionPart n r
      | 'e' :: r | 'E' :: r => exponentPart n r
      | r => some (if dropped.isEmpty then wholeNumber negative digits else n.toJson, r)

/-! ### Texts -/

/-- The value of a hexadecimal digit. -/
def hexDigit? (c : Char) : Option Nat :=
  if c.isDigit then some (c.toNat - '0'.toNat)
  else if 'a' ≤ c ∧ c ≤ 'f' then some (c.toNat - 'a'.toNat + 10)
  else if 'A' ≤ c ∧ c ≤ 'F' then some (c.toNat - 'A'.toNat + 10)
  else none

/-- Four hexadecimal digits. -/
def hex4 : List Char → Option (Nat × List Char)
  | a :: b :: c :: d :: r => do
    let a ← hexDigit? a
    let b ← hexDigit? b
    let c ← hexDigit? c
    let d ← hexDigit? d
    return (((a * 16 + b) * 16 + c) * 16 + d, r)
  | _ => none

/-- The character that a letter behind a backslash stands for. -/
def shortEscape? (c : Char) : Option Char :=
  [('"', '"'), ('\\', '\\'), ('/', '/'), ('b', '\x08'), ('f', '\x0c'), ('n', '\n'), ('r', '\r'),
    ('t', '\t')].lookup c

/-- A text from behind its opening quote: its characters in reverse, or that they are no Unicode
text, and what stands behind the closing quote. -/
def textBody (fuel : Nat) (acc : Option (List Char)) (cs : List Char) :
    Option (Option (List Char) × List Char) :=
  match fuel, cs with
  | fuel + 1, c :: r =>
    if c == '"' then some (acc, r)
    else if c.toNat < 0x20 then none
    else if c == '\\' then
      match r with
      | 'u' :: r => do
        let (n, r) ← hex4 r
        if n < 0xD800 || 0xE000 ≤ n then textBody fuel (acc.map (Char.ofNat n :: ·)) r
        else match r with
          | '\\' :: 'u' :: s => do
            let (m, s) ← hex4 s
            if n < 0xDC00 && 0xDC00 ≤ m && m < 0xE000 then
              let code := 0x10000 + (n - 0xD800) * 0x400 + (m - 0xDC00)
              textBody fuel (acc.map (Char.ofNat code :: ·)) s
            else textBody fuel none r
          | _ => textBody fuel none r
      | d :: r => do textBody fuel (acc.map ((← shortEscape? d) :: ·)) r
      | [] => none
    else textBody fuel (acc.map (c :: ·)) r
  | _, _ => none

/-- A text from behind its opening quote, unless it is no Unicode text. -/
def text (cs : List Char) : Option (Option String × List Char) :=
  (textBody (cs.length + 1) (some []) cs).map fun (acc, r) =>
    (acc.map (String.ofList ·.reverse), r)

/-! ### Values -/

/-- Whether a character may stand between the parts of a value. -/
def isSpace (c : Char) : Bool := c == ' ' || c == '\t' || c == '\n' || c == '\r'

/-- The text behind its spaces. -/
def skipSpace (cs : List Char) : List Char := cs.dropWhile isSpace

/-- The text behind a word. -/
def afterWord? (word : String) (cs : List Char) : Option (List Char) :=
  if word.toList.isPrefixOf cs then some (cs.drop word.length) else none

/-- An object, unless one of its names is no Unicode text. -/
def objectOf (entries : List (Option String × Json)) : Json :=
  match entries.mapM fun (k, v) => k.map (·, v) with
  | some fields => .object fields
  | none => .unreadable

mutual

/-- A value and what stands behind it. -/
def value (fuel : Nat) (cs : List Char) : Option (Json × List Char) :=
  match fuel with
  | 0 => none
  | fuel + 1 =>
    match skipSpace cs with
    | 'n' :: r => (afterWord? "ull" r).map (Json.null, ·)
    | 't' :: r => (afterWord? "rue" r).map (Json.bool true, ·)
    | 'f' :: r => (afterWord? "alse" r).map (Json.bool false, ·)
    | '"' :: r => (text r).map fun (s, r) => ((s.map Json.string).getD .unreadable, r)
    | '[' :: r =>
      match skipSpace r with
      | ']' :: r => some (.array [], r)
      | r => (items fuel r).map fun (l, r) => (.array l, r)
    | '\x7b' :: r =>
      match skipSpace r with
      | '\x7d' :: r => some (.object [], r)
      | r => (members fuel r).map fun (l, r) => (objectOf l, r)
    | '-' :: r => number true r
    | r => number false r

/-- The items of an array up to its closing bracket. -/
def items (fuel : Nat) (cs : List Char) : Option (List Json × List Char) :=
  match fuel with
  | 0 => none
  | fuel + 1 => do
    let (v, r) ← value fuel cs
    match skipSpace r with
    | ',' :: r =>
      let (l, r) ← items fuel r
      return (v :: l, r)
    | ']' :: r => return ([v], r)
    | _ => none

/-- The members of an object up to its closing brace. -/
def members (fuel : Nat) (cs : List Char) : Option (List (Option String × Json) × List Char) :=
  match fuel with
  | 0 => none
  | fuel + 1 =>
    match skipSpace cs with
    | '"' :: r => do
      let (k, r) ← text r
      match skipSpace r with
      | ':' :: r =>
        let (v, r) ← value fuel r
        match skipSpace r with
        | ',' :: r =>
          let (l, r) ← members fuel r
          return ((k, v) :: l, r)
        | '\x7d' :: r => return ([(k, v)], r)
        | _ => none
      | _ => none
    | _ => none

end

/-- The value that a text holds. -/
def ofText? (s : String) : Option Json := do
  let cs := s.toList
  let (v, r) ← value (cs.length + 1) cs
  if (skipSpace r).isEmpty then return v else none

end StreamPipeline.Json
