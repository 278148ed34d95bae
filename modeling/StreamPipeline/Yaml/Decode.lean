import StreamPipeline.Yaml.Node
import StreamPipeline.Yaml.Implicit
import StreamPipeline.StringMap

/-!
# Reading values out of documents

A `Decoder α` reads an `α` out of a node. It is told which nodes aliases stand for and how many
collections it may still enter, and it pays for every alias that it follows, so that a short text
cannot stand for a huge value. The type that is read decides what a scalar means: a text takes
every scalar as it stands, whatever word or number it spells.
-/

namespace StreamPipeline.Yaml

/-- What a decoder is told besides the node. -/
structure Scope where
  /-- The anchored nodes, the latest first. -/
  anchored : List (Nat × Node Nat)
  /-- The number of collections, one within the other, that may still be entered. -/
  depth : Nat

/-- A reading that pays for the aliases that it follows. -/
abbrev Reading (α : Type) := StateT Nat Option α

/-- A way to read an `α` out of a node. -/
def Decoder (α : Type) := Scope → Node Nat → Reading α

/-- The node itself, behind its anchor or what an alias stands for. -/
def settle (s : Scope) : Node Nat → Reading (Node Nat)
  | .anchored _ n => settle s n
  | .alias id => do
    let allowance ← get
    if allowance = 0 then failure
    set (allowance - 1)
    match s.anchored.find? (·.1 == id) with
    | some (_, n) => return n
    | none => failure
  | n => return n

/-- The scope within a collection. -/
def Scope.enter? (s : Scope) : Option Scope :=
  if s.depth = 0 then none else some { s with depth := s.depth - 1 }

/-- Whether a scalar is written as nothing at all. -/
def isVoid (isPlain : Bool) (text : String) : Bool := isPlain && text.isEmpty

namespace Decoder

variable {α β : Type}

/-- Reads with `d` and then as `f` says. -/
def andThen (d : Decoder α) (f : α → Option β) : Decoder β := fun s n => do
  let a ← d s n
  (f a : Option β)

/-- A text: any scalar as it stands. -/
def text : Decoder String := fun s n => do
  match ← settle s n with
  | .scalar _ _ t => return t
  | _ => failure

/-- A value or nothing: an unquoted scalar that is empty or says null is nothing, unless it has a
tag; with the tag of null, nothing else may stand there. -/
def optional (d : Decoder α) : Decoder (Option α) := fun s n => do
  let n ← settle s n
  match n with
  | .scalar tag true t =>
    if tag == some "tag:yaml.org,2002:null" then
      if isNull t.toList then return none else failure
    else if tag.isNone && (t.isEmpty || isNull t.toList) then return none
    else return some (← d s n)
  | _ => return some (← d s n)

/-- A list; a value left empty is the empty one. -/
def list (d : Decoder α) : Decoder (List α) := fun s n => do
  match ← settle s n with
  | .list _ items =>
    let inner ← (s.enter? : Option Scope)
    items.mapM (d inner)
  | .scalar _ isPlain t => if isVoid isPlain t then return [] else failure
  | _ => failure

/-- A map from texts; a value left empty is the empty one, and of equal keys the last counts. -/
def map (d : Decoder α) : Decoder (StringMap α) := fun s n => do
  match ← settle s n with
  | .map _ entries =>
    let inner ← (s.enter? : Option Scope)
    let pairs ← entries.mapM fun (k, v) => do return (← text inner k, ← d inner v)
    return StringMap.ofList pairs
  | .scalar _ isPlain t => if isVoid isPlain t then return ∅ else failure
  | _ => failure

/-- One of several words, which may also stand as a tag of its own in front of nothing. -/
def word (of? : String → Option α) : Decoder α := fun s n => do
  match ← settle s n with
  | .scalar tag isPlain t =>
    match tag.map String.toList with
    | some ('!' :: name) =>
      if isPlain && (t.isEmpty || isNull t.toList) then of? (String.ofList name) else failure
    | _ => of? t
  | _ => failure

end Decoder

/-! ### Records -/

/-- The entries of a record that is being read. -/
structure Fields where
  scope : Scope
  entries : List (String × Node Nat)

namespace Fields

variable {α : Type}

/-- The node of a field, which must not be there twice. -/
def node? (r : Fields) (name : String) : Option (Option (Node Nat)) :=
  match r.entries.filter (·.1 == name) with
  | [] => some none
  | [(_, n)] => some (some n)
  | _ => none

/-- A field, or `default` if it is missing. -/
def withDefault (r : Fields) (name : String) (default : α) (d : Decoder α) : Reading α := do
  match ← (r.node? name : Option (Option (Node Nat))) with
  | none => return default
  | some n => d r.scope n

/-- A field that has to be there. -/
def required (r : Fields) (name : String) (d : Decoder α) : Reading α := do
  match ← (r.node? name : Option (Option (Node Nat))) with
  | none => failure
  | some n => d r.scope n

/-- A field that may be missing or say null. -/
def optional (r : Fields) (name : String) (d : Decoder α) : Reading (Option α) :=
  r.withDefault name none d.optional

end Fields

/-- A record: a map whose unknown entries are passed over unread. -/
def Decoder.record {α : Type} (read : Fields → Reading α) : Decoder α := fun s n => do
  match ← settle s n with
  | .map _ entries =>
    let inner ← (s.enter? : Option Scope)
    let entries ← entries.mapM fun (k, v) => do return (← Decoder.text inner k, v)
    read ⟨inner, entries⟩
  | .scalar _ isPlain t => if isVoid isPlain t then read ⟨s, []⟩ else failure
  | _ => failure

/-! ### Texts -/

/-- The number of collections, one within the other, that a document may have where it is read. -/
def deepest : Nat := 128

/-- Reads a document; the aliases that may be followed are limited by its size. -/
def Decoder.document {α : Type} (d : Decoder α) (doc : Document) : Option α :=
  (d ⟨doc.anchored, deepest⟩ doc.root (100 * weight doc.root)).map (·.1)

/-- Reads a text of exactly one document. -/
def Decoder.single {α : Type} (d : Decoder α) (text : String) : Option α := do
  match ← documents? text with
  | [doc] => d.document doc
  | _ => none

/-- Reads a text of one or more documents. -/
def Decoder.several {α : Type} (d : Decoder α) (text : String) : Option (List α) := do
  match ← documents? text with
  | [] => none
  | docs => docs.mapM d.document

end StreamPipeline.Yaml
