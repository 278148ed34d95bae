import StreamPipeline.Binary64

/-!
# Spans of time

A span is a whole number of nanoseconds. Seconds given as a binary number are rounded to the
nearest nanosecond; a message shows a span in the largest unit that leaves a whole part.
-/

namespace StreamPipeline

/-- A span of time. -/
structure Duration where
  /-- Its length in nanoseconds. -/
  nanos : Nat
  deriving DecidableEq, Repr

namespace Duration

/-- A number of milliseconds. -/
def ofMillis (n : Nat) : Duration := ⟨n * 1000000⟩

/-- A number of seconds of at least zero, rounded to the nearest nanosecond; there is no span of
more than 64 bits of seconds. -/
def ofSeconds? : Binary64 → Option Duration
  | .finite negative m e =>
    if negative && m != 0 then none else
      let (num, den) := Binary64.scaled m 1 e
      let nanos := Binary64.roundDiv (num * 1000000000) den
      if nanos < UInt64.size * 1000000000 then some ⟨nanos⟩ else none
  | _ => none

/-- `whole` units and `part` of `size` parts of a unit, without zeros at the end of the fraction. -/
def decimal (whole part : Nat) (places : Nat) : String :=
  let digits := Nat.toDigits 10 part
  let digits := List.replicate (places - digits.length) '0' ++ digits
  let fraction := (digits.reverse.dropWhile (· == '0')).reverse
  Nat.repr whole ++ if fraction.isEmpty then "" else "." ++ String.ofList fraction

/-- The span in the largest unit that leaves a whole part. -/
def render (d : Duration) : String :=
  let n := d.nanos
  if n ≥ 1000000000 then decimal (n / 1000000000) (n % 1000000000) 9 ++ "s"
  else if n ≥ 1000000 then decimal (n / 1000000) (n % 1000000) 6 ++ "ms"
  else if n ≥ 1000 then decimal (n / 1000) (n % 1000) 3 ++ "µs"
  else Nat.repr n ++ "ns"

end Duration

end StreamPipeline
