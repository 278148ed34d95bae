import StreamPipeline.Binary64
import StreamPipeline.Yaml.Tree

/-!
# JSON values

Whole numbers of at most 64 bits stay exact, all others are binary numbers. The fields of an object
stand in the order in which they were written. A value that is well formed and yet cannot be held,
because a number is out of range or a text is no Unicode text, is `unreadable`: a reader that
passes over it does not mind.
-/

namespace StreamPipeline

/-- A JSON value. -/
inductive Json
  | null
  | bool (b : Bool)
  | int (n : Int)
  | float (x : Binary64)
  | string (s : String)
  | array (items : List Json)
  | object (fields : List (String × Json))
  | unreadable
  deriving Inhabited

namespace Json

/-- The value under a name, of several the last; nothing has fields but an object. -/
def get? (v : Json) (name : String) : Option Json :=
  match v with
  | .object fields => (fields.reverse.find? (·.1 == name)).map (·.2)
  | _ => none

/-- The value with a field set; nothing has fields but an object. -/
def set (v : Json) (name : String) (w : Json) : Json :=
  match v with
  | .object fields => .object (fields.filter (·.1 != name) ++ [(name, w)])
  | _ => v

/-- A natural number. -/
def nat (n : Nat) : Json := .int n

/-- A list of texts. -/
def strings (l : List String) : Json := .array (l.map .string)

/-- A value or null. -/
def orNull (o : Option Json) : Json := o.getD .null

/-- An object of the fields that are present. -/
def record (fields : List (String × Option Json)) : Json :=
  .object (fields.filterMap fun (k, v) => v.map (k, ·))

mutual

/-- The number of arrays and objects, one within the other. -/
def depth : Json → Nat
  | .array items => 1 + itemsDepth items
  | .object fields => 1 + fieldsDepth fields
  | _ => 0

/-- The largest depth of some values. -/
def itemsDepth : List Json → Nat
  | [] => 0
  | v :: r => max (depth v) (itemsDepth r)

/-- The largest depth of the values of some fields. -/
def fieldsDepth : List (String × Json) → Nat
  | [] => 0
  | (_, v) :: r => max (depth v) (fieldsDepth r)

end

mutual

/-- The JSON value of a tree. -/
def ofTree : Yaml.Tree → Json
  | .text s => .string s
  | .list items => .array (ofTrees items)
  | .map entries => .object (ofEntries entries)

/-- The JSON values of some trees. -/
def ofTrees : List Yaml.Tree → List Json
  | [] => []
  | t :: r => ofTree t :: ofTrees r

/-- The JSON fields of some entries. -/
def ofEntries : List (String × Yaml.Tree) → List (String × Json)
  | [] => []
  | (k, t) :: r => (k, ofTree t) :: ofEntries r

end

end Json

end StreamPipeline
