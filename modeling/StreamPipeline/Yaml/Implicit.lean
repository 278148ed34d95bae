import StreamPipeline.Binary64
import StreamPipeline.Yaml.Char

/-!
# Texts that unquoted say something else

A scalar without quotes may stand for nothing, for a truth value or for a number. `saysOther` tells
these texts from the ones that stand for themselves; the writer quotes them.
-/

namespace StreamPipeline.Yaml

/-- The words for nothing. -/
def isNull (cs : List Char) : Bool :=
  [['~'], "null".toList, "Null".toList, "NULL".toList].contains cs

/-- The words for truth values. -/
def isBool (cs : List Char) : Bool :=
  ["true".toList, "True".toList, "TRUE".toList, "false".toList, "False".toList,
    "FALSE".toList].contains cs

/-- A text behind one sign, and whether that was a minus. -/
def dropSign : List Char → Bool × List Char
  | '-' :: r => (true, r)
  | '+' :: r => (false, r)
  | cs => (false, cs)

/-- The value of digits in a base of at most sixteen. -/
def inBase? (base : Nat) (cs : List Char) : Option Nat :=
  if cs.isEmpty then none else
    cs.foldlM (fun n c =>
      (hexDigit? c).bind fun d => if d < base then some (base * n + d) else none) 0

/-- The base that a text announces behind its first zero, and the digits that follow. -/
def announcedBase? : List Char → Option (Nat × List Char)
  | '0' :: 'x' :: r => some (16, r)
  | '0' :: 'o' :: r => some (8, r)
  | '0' :: 'b' :: r => some (2, r)
  | _ => none

/-- A whole number in an announced base that fits 128 bits, signed if it is negative. -/
def isBasedInteger (cs : List Char) : Bool :=
  let (negative, r) := dropSign cs
  match announcedBase? r with
  | none => false
  | some (base, digits) =>
    match inBase? base digits with
    | none => false
    | some n => if negative then n ≤ 1 <<< 127 else n < 1 <<< 128

/-- A zero in front of further digits, behind an optional sign. -/
def isPaddedDigits (cs : List Char) : Bool :=
  match (dropSign cs).2 with
  | '0' :: r => !r.isEmpty && r.all Char.isDigit
  | _ => false

/-- The exponent part of a decimal: nothing, or a sign and digits behind the letter. -/
def exponent? : List Char → Option Int
  | [] => some 0
  | c :: r =>
    let (negative, digits) := dropSign r
    if (c == 'e' || c == 'E') && !digits.isEmpty && digits.all Char.isDigit then
      let n : Int := Nat.ofDigitChars 10 digits 0
      some (if negative then -n else n)
    else none

/-- An unsigned decimal number as its digits and the place of the last one. -/
def decimal? (cs : List Char) : Option (List Char × Int) :=
  let whole := cs.takeWhile Char.isDigit
  let r := cs.dropWhile Char.isDigit
  let (fraction, r) := match r with
    | '.' :: r => (r.takeWhile Char.isDigit, r.dropWhile Char.isDigit)
    | r => ([], r)
  if whole.isEmpty && fraction.isEmpty then none
  else (exponent? r).map fun e => (whole ++ fraction, e - fraction.length)

/-- Whether a decimal is in the range of binary numbers of 64 bits. -/
def inRange (digits : List Char) (e : Int) : Bool :=
  let significant := digits.dropWhile (· == '0')
  let size := significant.length + e
  if significant.isEmpty || size < -400 then true
  else if size > 400 then false
  else (Binary64.ofDecimal (Nat.ofDigitChars 10 significant 0) e).isFinite

/-- A decimal number in range, behind an optional sign. -/
def isDecimal (cs : List Char) : Bool :=
  match decimal? (dropSign cs).2 with
  | some (digits, e) => inRange digits e
  | none => false

/-- The words for what is no finite number. -/
def isNonFinite (cs : List Char) : Bool :=
  [".inf".toList, ".Inf".toList, ".INF".toList].contains (dropSign cs).2
    || [".nan".toList, ".NaN".toList, ".NAN".toList].contains cs

/-- Whether a text without quotes would stand for something else than itself. -/
def saysOther (cs : List Char) : Bool :=
  cs.isEmpty || isNull cs || isBool cs || isBasedInteger cs || isPaddedDigits cs || isDecimal cs
    || isNonFinite cs

end StreamPipeline.Yaml
