import StreamPipeline.Json.Value

/-!
# Writing JSON

No spaces, the fields of an object by name, and no escapes but those that JSON demands. A binary
number is written with the fewest digits that read back, positionally from `1e-5` up to `1e16`.
-/

namespace StreamPipeline.Json

/-- A character within a text. -/
def writtenChar (c : Char) : List Char :=
  if c == '"' || c == '\\' then ['\\', c]
  else if c == '\n' then ['\\', 'n']
  else if c == '\r' then ['\\', 'r']
  else if c == '\t' then ['\\', 't']
  else if c.toNat < 0x20 then
    let digits := Nat.toDigits 16 c.toNat
    '\\' :: 'u' :: (List.replicate (4 - digits.length) '0' ++ digits)
  else [c]

/-- A text between its quotes. -/
def writtenText (s : String) : String :=
  String.ofList ('"' :: (s.toList.flatMap writtenChar ++ ['"']))

/-- A decimal with a point or an exponent. -/
def writtenDecimal (n : Nat) (p : Int) : String :=
  let digits := Nat.toDigits 10 n
  let first : Int := digits.length + p
  if 0 ≤ p && first ≤ 16 then
    String.ofList (digits ++ List.replicate p.natAbs '0') ++ ".0"
  else if 0 < first && first ≤ 16 then
    String.ofList (digits.take first.natAbs) ++ "." ++ String.ofList (digits.drop first.natAbs)
  else if -5 < first && first ≤ 0 then
    "0." ++ String.ofList (List.replicate first.natAbs '0' ++ digits)
  else
    let e := "e" ++ toString (first - 1)
    match digits with
    | [d] => String.ofList [d] ++ e
    | d :: r => String.ofList [d] ++ "." ++ String.ofList r ++ e
    | [] => ""

/-- A binary number; one that is not finite has no form in JSON. -/
def writtenFloat : Binary64 → String
  | .finite s m e =>
    let (n, p) := Binary64.shortest m e
    (if s then "-" else "") ++ if n = 0 then "0.0" else writtenDecimal n p
  | _ => "null"

mutual

/-- The text of a value. -/
def render : Json → String
  | .null | .unreadable => "null"
  | .bool b => if b then "true" else "false"
  | .int n => toString n
  | .float x => writtenFloat x
  | .string s => writtenText s
  | .array items => "[" ++ ",".intercalate (renderItems items) ++ "]"
  | .object fields =>
    "\x7b" ++ ",".intercalate (((renderFields fields).mergeSort (·.1 ≤ ·.1)).map (·.2)) ++ "\x7d"

/-- The texts of some values. -/
def renderItems : List Json → List String
  | [] => []
  | v :: r => render v :: renderItems r

/-- The names of some fields, each with the text of the field. -/
def renderFields : List (String × Json) → List (String × String)
  | [] => []
  | (k, v) :: r => (k, writtenText k ++ ":" ++ render v) :: renderFields r

end

end StreamPipeline.Json
