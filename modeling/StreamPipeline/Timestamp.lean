import StreamPipeline.Text.Blank
import StreamPipeline.Text.Decimal

/-!
# Points in time

A timestamp is a second of universal time, counted from the start of 1970, and nanoseconds within
it; during a leap second these are more than a thousand million. It is read from the formats that
RFC 3339 describes, with blanks between the parts, and written with no more digits of the fraction
than it needs, in groups of three.
-/

namespace StreamPipeline

/-- A point in time. -/
structure Timestamp where
  /-- Seconds since the start of 1970, without leap seconds. -/
  seconds : Int
  /-- Nanoseconds within the second. -/
  nanos : Nat
  deriving DecidableEq, Repr

namespace Timestamp

/-! ### Days -/

/-- Whether a year has 366 days. -/
def isLeapYear (y : Int) : Bool := y % 4 == 0 && (y % 100 != 0 || y % 400 == 0)

/-- The number of days of a month. -/
def daysOfMonth (y : Int) (m : Nat) : Nat :=
  if m = 2 then (if isLeapYear y then 29 else 28)
  else if [4, 6, 9, 11].contains m then 30 else 31

/-- The number of days before a year, from the start of the year zero on. -/
def daysBeforeYear (y : Int) : Int := 365 * y + (y + 3) / 4 - (y + 99) / 100 + (y + 399) / 400

/-- The number of days of a year before a month. -/
def daysBeforeMonth (y : Int) (m : Nat) : Nat :=
  (List.range (m - 1)).foldl (fun n i => n + daysOfMonth y (i + 1)) 0

/-- The number of a day, from the start of 1970 on. -/
def dayNumber (y : Int) (m d : Nat) : Int :=
  daysBeforeYear y - daysBeforeYear 1970 + daysBeforeMonth y m + (d - 1 : Nat)

/-- The month and the day in a year at a number of days after its start; `m` is the month that
starts there. -/
def monthAndDay (y : Int) : Nat → Nat → Nat → Nat × Nat
  | 0, m, d => (m, d + 1)
  | fuel + 1, m, d =>
    if d < daysOfMonth y m then (m, d + 1) else monthAndDay y fuel (m + 1) (d - daysOfMonth y m)

/-- The year of a day: the last one that does not start behind it, which is near the quotient by
the mean length of a year. -/
def yearOf (day : Int) : Int :=
  let n := day + daysBeforeYear 1970
  let y := n * 400 / 146097
  if n < daysBeforeYear y then y - 1 else if daysBeforeYear (y + 1) ≤ n then y + 1 else y

/-- The years that a timestamp may have. -/
def firstYear : Int := -262143

/-- The last year that a timestamp may have. -/
def lastYear : Int := 262142

/-! ### Reading -/

/-- A text without the blanks at its start. -/
def skipBlanks (cs : List Char) : List Char := cs.dropWhile Text.isBlank

/-- The number that at most `width` digits spell. -/
def number? (width : Nat) (cs : List Char) : Option (Nat × List Char) :=
  let digits := (cs.take width).takeWhile Char.isDigit
  if digits.isEmpty then none
  else some (Nat.ofDigitChars 10 digits 0, cs.drop digits.length)

/-- A number of one or two digits within bounds, behind blanks. -/
def field? (low high : Nat) (cs : List Char) : Option (Nat × List Char) := do
  let (n, r) ← number? 2 (skipBlanks cs)
  if low ≤ n && n ≤ high then some (n, r) else none

/-- What stands behind a mark, which may have blanks in front of it. -/
def after? (mark : Char) (cs : List Char) : Option (List Char) :=
  match skipBlanks cs with
  | c :: r => if c == mark then some r else none
  | [] => none

/-- A year: up to four digits, or a sign and any number of them. -/
def year? (cs : List Char) : Option (Int × List Char) :=
  match skipBlanks cs with
  | '-' :: r => (number? r.length r).map fun (n, r) => (-(n : Int), r)
  | '+' :: r => (number? r.length r).map fun (n, r) => ((n : Int), r)
  | r => (number? 4 r).map fun (n, r) => ((n : Int), r)

/-- The nanoseconds that a fraction of a second spells; what is beyond nine digits is dropped. -/
def fraction? : List Char → Option (Nat × List Char)
  | '.' :: r => do
    let (n, _) ← number? 9 r
    let digits := r.takeWhile Char.isDigit
    return (n * Nat.pow 10 (9 - min 9 digits.length), r.dropWhile Char.isDigit)
  | r => some (0, r)

/-- Two digits, the first of them below `bound`. -/
def twoDigits? (bound : Nat) : List Char → Option (Nat × List Char)
  | a :: b :: r =>
    let tens := a.toNat - '0'.toNat
    if a.isDigit && b.isDigit && tens < bound then some (10 * tens + (b.toNat - '0'.toNat), r)
    else none
  | _ => none

/-- The offset from universal time, in seconds. -/
def offset? (cs : List Char) : Option (Int × List Char) :=
  match cs with
  | 'Z' :: r | 'z' :: r => some (0, r)
  | c :: r =>
    if (cs.take 3).map Char.toUpper == ['U', 'T', 'C'] then some (0, cs.drop 3)
    else do
      let isWest ← if c == '+' then some false
        else if c == '-' || c.toNat == 0x2212 then some true else none
      let (hours, r) ← twoDigits? 10 r
      let (minutes, r) ← twoDigits? 6 (r.dropWhile fun c => c == ':' || Text.isBlank c)
      let n : Int := hours * 3600 + minutes * 60
      return (if isWest then -n else n, r)
  | [] => none

/-- Reads a timestamp. -/
def ofText? (s : String) : Option Timestamp := do
  let (y, r) ← year? s.toList
  let (m, r) ← field? 1 12 (← after? '-' r)
  let (d, r) ← field? 1 31 (← after? '-' r)
  let r ← match r with
    | 't' :: r | 'T' :: r | ' ' :: r => some r
    | _ => none
  let (hour, r) ← field? 0 23 r
  let (minute, r) ← field? 0 59 (← after? ':' r)
  let (second, r) ← field? 0 60 (← after? ':' r)
  let (nanos, r) ← fraction? r
  let (offset, r) ← offset? (skipBlanks r)
  if !(skipBlanks r).isEmpty || offset.natAbs ≥ 86400 then none
  if y < firstYear || lastYear < y || daysOfMonth y m < d then none
  let isLeap := second = 60
  let local' : Int := dayNumber y m d * 86400 + hour * 3600 + minute * 60
    + (if isLeap then 59 else second : Nat)
  let seconds := local' - offset
  let year := yearOf (seconds / 86400)
  if year < firstYear || lastYear < year then none
  return ⟨seconds, nanos + if isLeap then 1000000000 else 0⟩

/-! ### Writing -/

/-- A number with at least `width` digits. -/
def padded (width n : Nat) : String :=
  let digits := Nat.toDigits 10 n
  String.ofList (List.replicate (width - digits.length) '0' ++ digits)

/-- A year, with a sign unless it has four digits. -/
def renderYear (y : Int) : String :=
  if 0 ≤ y && y ≤ 9999 then padded 4 y.natAbs
  else (if y < 0 then "-" else "+") ++ padded 4 y.natAbs

/-- The fraction of a second with the fewest groups of three digits. -/
def renderFraction (nanos : Nat) : String :=
  if nanos = 0 then ""
  else if nanos % 1000000 = 0 then "." ++ padded 3 (nanos / 1000000)
  else if nanos % 1000 = 0 then "." ++ padded 6 (nanos / 1000)
  else "." ++ padded 9 nanos

/-- The timestamp in universal time. -/
def render (t : Timestamp) : String :=
  let day := t.seconds / 86400
  let ofDay := (t.seconds % 86400).natAbs
  let y := yearOf day
  let (m, d) := monthAndDay y 12 1 (day - dayNumber y 1 1).natAbs
  let (second, nanos) :=
    if t.nanos < 1000000000 then (ofDay % 60, t.nanos)
    else (ofDay % 60 + 1, t.nanos - 1000000000)
  renderYear y ++ "-" ++ padded 2 m ++ "-" ++ padded 2 d ++ "T" ++ padded 2 (ofDay / 3600) ++ ":"
    ++ padded 2 (ofDay / 60 % 60) ++ ":" ++ padded 2 second ++ renderFraction nanos ++ "Z"

end Timestamp

end StreamPipeline
