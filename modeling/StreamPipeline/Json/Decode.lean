import StreamPipeline.Json.Value
import StreamPipeline.StringMap

/-!
# Reading values out of JSON

A `Decoder α` reads an `α` out of a JSON value, and nothing turns one kind of value into another:
a text is no number, and `1.0` is no whole number. A record stands as an object, whose further
fields are passed over, or as an array of its fields in order.
-/

namespace StreamPipeline.Json

/-- A way to read an `α` out of a JSON value. -/
abbrev Decoder (α : Type) := Json → Option α

namespace Decoder

variable {α β : Type}

/-- The value itself. -/
def any : Decoder Json
  | .unreadable => none
  | v => some v

/-- A text. -/
def text : Decoder String
  | .string s => some s
  | _ => none

/-- A truth value. -/
def bool : Decoder Bool
  | .bool b => some b
  | _ => none

/-- A whole number from zero on and below `bound`. -/
def natBelow (bound : Nat) : Decoder Nat
  | .int n => if 0 ≤ n && n.natAbs < bound then some n.natAbs else none
  | _ => none

/-- A binary number, for which a whole number may stand. -/
def binary : Decoder Binary64
  | .int n => some (Binary64.ofRatio (n < 0) n.natAbs 1)
  | .float x => some x
  | _ => none

/-- A value, or nothing for null. -/
def optional (d : Decoder α) : Decoder (Option α)
  | .null => some none
  | v => (d v).map some

/-- A list. -/
def list (d : Decoder α) : Decoder (List α)
  | .array items => items.mapM d
  | _ => none

/-- A map from texts, of equal keys the last one. -/
def map (d : Decoder α) : Decoder (StringMap α)
  | .object fields => (fields.mapM fun e => (d e.2).map (e.1, ·)).map StringMap.ofList
  | _ => none

/-- One of several words, as a text or as the name of a single field that says null. -/
def word (of? : String → Option α) : Decoder α
  | .string s => of? s
  | .object [(k, .null)] => of? k
  | _ => none

/-- Reads with `d` and then as `f` says. -/
def andThen (d : Decoder α) (f : α → Option β) : Decoder β := fun v => (d v).bind f

end Decoder

/-! ### Records -/

/-- The fields of a record that is being read. -/
structure Fields where
  /-- The fields that are there. -/
  present : List (String × Json)
  /-- Whether they stood in an array, where a field cannot be left out. -/
  isPositional : Bool

namespace Fields

variable {α : Type}

/-- The value of a field. -/
def get? (r : Fields) (name : String) : Option Json := r.present.lookup name

/-- A field that has to be there. -/
def required (r : Fields) (name : String) (d : Decoder α) : Option α := (r.get? name).bind d

/-- A field, or `default` if it is missing. -/
def withDefault (r : Fields) (name : String) (default : α) (d : Decoder α) : Option α :=
  match r.get? name with
  | none => some default
  | some v => d v

/-- A field that may say null, and may be left out where names are given. -/
def optional (r : Fields) (name : String) (d : Decoder α) : Option (Option α) :=
  if r.isPositional then r.required name d.optional else r.withDefault name none d.optional

end Fields

/-- A record with the fields `names`, none of which may be there twice. -/
def Decoder.record {α : Type} (names : List String) (read : Fields → Option α) : Decoder α
  | .object fields =>
    let known := fields.filter (names.contains ·.1)
    if (known.map (·.1)).Nodup then read ⟨known, false⟩ else none
  | .array items => if items.length ≤ names.length then read ⟨names.zip items, true⟩ else none
  | _ => none

end StreamPipeline.Json
