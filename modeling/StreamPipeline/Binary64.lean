/-!
# Binary numbers of 64 bits

A finite number is a sign and `m * 2 ^ e` with `m` of at most 53 bits. Arithmetic is exact on
natural numbers and rounds once, to the nearest number and from the middle to the even one
(`ofRatio`). `shortest` finds the fewest decimal digits that read back as the number, and among
these the nearest.
-/

namespace StreamPipeline

/-- A binary number of 64 bits. -/
inductive Binary64
  | finite (negative : Bool) (m : Nat) (e : Int)
  | infinite (negative : Bool)
  | nan
  deriving DecidableEq, Repr

namespace Binary64

/-- The quotient rounded to the nearest whole number, from the middle to the even one. -/
def roundDiv (num den : Nat) : Nat :=
  let q := num / den
  let r := num % den
  if 2 * r < den then q else if den < 2 * r then q + 1 else q + q % 2

/-- The ratio `num / den` times `2 ^ e` as a ratio. -/
def scaled (num den : Nat) (e : Int) : Nat × Nat :=
  if e < 0 then (num, den <<< e.natAbs) else (num <<< e.natAbs, den)

/-- The number nearest to `num / den`, infinite if that is out of range. -/
def ofRatio (negative : Bool) (num den : Nat) : Binary64 :=
  if num = 0 then .finite negative 0 (-1074) else
    let guess : Int := (Nat.log2 num : Int) - Nat.log2 den - 52
    let (n, d) := scaled num den (-guess)
    let e := max (if n / d < 1 <<< 52 then guess - 1 else guess) (-1074)
    let (n, d) := scaled num den (-e)
    let m := roundDiv n d
    let (m, e) := if m = 1 <<< 53 then (1 <<< 52, e + 1) else (m, e)
    if e > 971 then .infinite negative else .finite negative m e

/-- The number nearest to a whole number. -/
def ofNat (n : Nat) : Binary64 := ofRatio false n 1

/-- The number nearest to `10 ^ k`. -/
def tenPower (k : Nat) : Binary64 := ofNat (Nat.pow 10 k)

/-- The number nearest to `digits * 10 ^ e`. -/
def ofDecimal (digits : Nat) (e : Int) : Binary64 :=
  if e < 0 then ofRatio false digits (Nat.pow 10 e.natAbs)
  else ofRatio false (digits * Nat.pow 10 e.natAbs) 1

/-- Whether the number is neither infinite nor NaN. -/
def isFinite : Binary64 → Bool
  | finite .. => true
  | _ => false

/-- Whether the number is zero, of either sign. -/
def isZero : Binary64 → Bool
  | finite _ m _ => m == 0
  | _ => false

/-- Whether the number is above zero. -/
def isPositive : Binary64 → Bool
  | finite s m _ => !s && m != 0
  | infinite s => !s
  | nan => false

/-- The number with the other sign. -/
def negate : Binary64 → Binary64
  | finite s m e => finite (!s) m e
  | infinite s => infinite (!s)
  | nan => nan

/-- The rounded product of finite numbers. -/
def mul : Binary64 → Binary64 → Binary64
  | finite s m e, finite t n f =>
    let (num, den) := scaled (m * n) 1 (e + f)
    ofRatio (s != t) num den
  | _, _ => nan

/-- The rounded quotient of finite numbers, the second one not zero. -/
def div : Binary64 → Binary64 → Binary64
  | finite s m e, finite t n f =>
    if n = 0 then nan else
      let (num, den) := scaled m n (e - f)
      ofRatio (s != t) num den
  | _, _ => nan

/-! ### Decimal text -/

/-- The place of the first decimal digit of `num / den`: `10 ^ d ≤ num / den < 10 ^ (d + 1)`. -/
def firstPlace (num den : Nat) : Int :=
  if den ≤ num then (Nat.toDigits 10 (num / den)).length - 1
  else -((Nat.toDigits 10 ((den - 1) / num)).length : Int)

/-- A point `n * 10 ^ p` as a ratio. -/
def decimalRatio (n : Nat) (p : Int) : Nat × Nat :=
  if p < 0 then (n, Nat.pow 10 p.natAbs) else (n * Nat.pow 10 p.natAbs, 1)

/-- Whether a decimal reads back as the finite number `m * 2 ^ e`. -/
def readsAs (m : Nat) (e : Int) (n : Nat) (p : Int) : Bool :=
  let (num, den) := decimalRatio n p
  ofRatio false num den == .finite false m e

/-- Of the two neighbours of the number on the grid of `10 ^ p`, the nearer that reads back. -/
def onGrid (m : Nat) (e : Int) (num den : Nat) (p : Int) : Option Nat :=
  let (n, d) :=
    if p < 0 then (num * Nat.pow 10 p.natAbs, den) else (num, den * Nat.pow 10 p.natAbs)
  let below := n / d
  let near := roundDiv n d
  let far := if near = below then below + 1 else below
  if readsAs m e near p then some near else if readsAs m e far p then some far else none

/-- The decimal `n * 10 ^ p` of fewest digits that reads back as `m * 2 ^ e`; seventeen digits
always suffice. -/
def shortest (m : Nat) (e : Int) : Nat × Int :=
  if m = 0 then (0, 0) else
    let (num, den) := scaled m 1 e
    let d := firstPlace num den
    let grids := (List.range 17).map fun (k : Nat) => d - (k : Int)
    (grids.findSome? fun p => (onGrid m e num den p).map fun n => (n, p)).getD (0, 0)

/-- A decimal in positional notation, without zeros at the end of a fraction. -/
def positional (n : Nat) (p : Int) : List Char :=
  let digits := Nat.toDigits 10 n
  if p ≥ 0 then digits ++ List.replicate p.natAbs '0' else
    let places := p.natAbs
    let digits := List.replicate (places + 1 - digits.length) '0' ++ digits
    let whole := digits.take (digits.length - places)
    let fraction := ((digits.drop (digits.length - places)).reverse.dropWhile (· == '0')).reverse
    if fraction.isEmpty then whole else whole ++ '.' :: fraction

/-- The number in decimal: the fewest digits that read back, never an exponent. -/
def render : Binary64 → String
  | nan => "NaN"
  | infinite s => if s then "-inf" else "inf"
  | finite s m e =>
    let (n, p) := shortest m e
    String.ofList ((if s then ['-'] else []) ++ if n = 0 then ['0'] else positional n p)

end Binary64

end StreamPipeline
