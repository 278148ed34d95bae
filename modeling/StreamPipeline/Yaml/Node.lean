import StreamPipeline.Yaml.Tokens

/-!
# The nodes of a YAML text

`documents?` arranges the tokens of a text as nodes, one tree for each document. A node keeps what
readers need to tell apart: its tag, whether a scalar stood without quotes, which anchor names it,
and where an alias stands for another node. Tags are written out in full here, so nothing after
this depends on the directives of a document.
-/

namespace StreamPipeline.Yaml

/-- The content of a document, where `κ` names anchors. -/
inductive Node (κ : Type)
  | scalar (tag : Option String) (isPlain : Bool) (text : String)
  | list (tag : Option String) (items : List (Node κ))
  | map (tag : Option String) (entries : List (Node κ × Node κ))
  | anchored (name : κ) (node : Node κ)
  | alias (name : κ)
  deriving Inhabited

/-- The scalar where nothing stands. -/
def Node.void {κ : Type} : Node κ := .scalar none true ""

/-! ### Tags -/

/-- What the handles of tags stand for. -/
abbrev Handles := List (String × String)

/-- The handles that need no directive. -/
def standardHandles : Handles := [("!", "!"), ("!!", "tag:yaml.org,2002:")]

/-- A tag in full; a handle that nothing declares is refused. -/
def fullTag? (handles : Handles) (handle suffix : String) : Option String :=
  if handle.isEmpty then some suffix
  else (handles.find? (·.1 == handle)).map (·.2 ++ suffix)

/-- The anchor and the tag in front of a node, in either order. -/
def properties? (handles : Handles) :
    List Token → Option (Option String × Option String × List Token)
  | .anchor a :: .tag h s :: r => (fullTag? handles h s).map fun t => (some a, some t, r)
  | .tag h s :: .anchor a :: r => (fullTag? handles h s).map fun t => (some a, some t, r)
  | .anchor a :: r => some (some a, none, r)
  | .tag h s :: r => (fullTag? handles h s).map fun t => (none, some t, r)
  | r => some (none, none, r)

/-! ### Nodes -/

/-- Whether nothing stands in front of these tokens where an item of a block list may stand. -/
def endsItem : List Token → Bool
  | .blockEntry :: _ | .blockEnd :: _ => true
  | _ => false

/-- The same in a list without an indentation of its own. -/
def endsLooseItem : List Token → Bool
  | .blockEntry :: _ | .key :: _ | .value :: _ | .blockEnd :: _ => true
  | _ => false

/-- The same where a key or a value of a block map may stand. -/
def endsEntry : List Token → Bool
  | .key :: _ | .value :: _ | .blockEnd :: _ => true
  | _ => false

/-- The same for a key between square brackets. -/
def endsPairKey : List Token → Bool
  | .value :: _ | .flowEntry :: _ | .flowListEnd :: _ => true
  | _ => false

/-- The same for a value between square brackets. -/
def endsPairValue : List Token → Bool
  | .flowEntry :: _ | .flowListEnd :: _ => true
  | _ => false

/-- The same for a key between braces. -/
def endsFlowKey : List Token → Bool
  | .value :: _ | .flowEntry :: _ | .flowMapEnd :: _ => true
  | _ => false

/-- The same for a value between braces. -/
def endsFlowValue : List Token → Bool
  | .flowEntry :: _ | .flowMapEnd :: _ => true
  | _ => false

mutual

/-- Reads a node; block collections only if `inBlock`, and a list without an indentation of its own
only if `loose`. -/
def node (fuel : Nat) (handles : Handles) (inBlock loose : Bool) (ts : List Token) :
    Option (Node String × List Token) :=
  match fuel, ts with
  | 0, _ => none
  | _, .alias name :: r => some (.alias name, r)
  | fuel + 1, ts => do
    let (anchor, tag, ts) ← properties? handles ts
    let (content, ts) ← match ts with
      | .blockEntry :: _ =>
        if loose then (looseItems fuel handles ts).map fun (l, r) => (Node.list tag l, r)
        else if anchor.isSome || tag.isSome then some (.scalar tag true "", ts)
        else none
      | .scalar isPlain text :: r =>
        some (.scalar (if tag == some "!" then none else tag) isPlain text, r)
      | .flowListStart :: r =>
        (flowItems fuel handles true r).map fun (l, r) => (.list tag l, r)
      | .flowMapStart :: r =>
        (flowEntries fuel handles true r).map fun (l, r) => (.map tag l, r)
      | .blockListStart :: r =>
        if inBlock then (blockItems fuel handles r).map fun (l, r) => (.list tag l, r)
        else if anchor.isSome || tag.isSome then some (.scalar tag true "", ts)
        else none
      | .blockMapStart :: r =>
        if inBlock then (blockEntries fuel handles r).map fun (l, r) => (.map tag l, r)
        else if anchor.isSome || tag.isSome then some (.scalar tag true "", ts)
        else none
      | _ =>
        if anchor.isSome || tag.isSome then some (.scalar tag true "", ts) else none
    return (match anchor with
      | some name => .anchored name content
      | none => content, ts)

/-- Reads a node unless nothing stands here. -/
def nodeUnless (fuel : Nat) (handles : Handles) (inBlock loose isVoid : Bool) (ts : List Token) :
    Option (Node String × List Token) :=
  match fuel with
  | 0 => none
  | fuel + 1 => if isVoid then some (.void, ts) else node fuel handles inBlock loose ts

/-- Reads the items of a block list up to its end. -/
def blockItems (fuel : Nat) (handles : Handles) (ts : List Token) :
    Option (List (Node String) × List Token) :=
  match fuel, ts with
  | fuel + 1, .blockEntry :: r => do
    let (item, r) ← nodeUnless fuel handles true false (endsItem r) r
    let (items, r) ← blockItems fuel handles r
    return (item :: items, r)
  | _ + 1, .blockEnd :: r => some ([], r)
  | _, _ => none

/-- Reads the items of a list without an indentation of its own. -/
def looseItems (fuel : Nat) (handles : Handles) (ts : List Token) :
    Option (List (Node String) × List Token) :=
  match fuel, ts with
  | fuel + 1, .blockEntry :: r => do
    let (item, r) ← nodeUnless fuel handles true false (endsLooseItem r) r
    let (items, r) ← looseItems fuel handles r
    return (item :: items, r)
  | _ + 1, r => some ([], r)
  | 0, _ => none

/-- Reads the entries of a block map up to its end. -/
def blockEntries (fuel : Nat) (handles : Handles) (ts : List Token) :
    Option (List (Node String × Node String) × List Token) :=
  match fuel, ts with
  | fuel + 1, .key :: r => do
    let (k, r) ← nodeUnless fuel handles true true (endsEntry r) r
    let (v, r) ← match r with
      | .value :: r => nodeUnless fuel handles true true (endsEntry r) r
      | _ => some (.void, r)
    let (entries, r) ← blockEntries fuel handles r
    return ((k, v) :: entries, r)
  | _ + 1, .blockEnd :: r => some ([], r)
  | _, _ => none

/-- Reads the items between square brackets up to the closing one; a key there makes a map of one
entry, and where the key is missing the token that shows it is taken for the key. -/
def flowItems (fuel : Nat) (handles : Handles) (isFirst : Bool) (ts : List Token) :
    Option (List (Node String) × List Token) :=
  match fuel, ts with
  | 0, _ => none
  | _, .flowListEnd :: r => some ([], r)
  | fuel + 1, ts => do
    let ts ← match isFirst, ts with
      | true, _ => some ts
      | false, .flowEntry :: r => some r
      | false, _ => none
    match ts with
    | .flowListEnd :: r => return ([], r)
    | .key :: r =>
      let (k, r) ←
        if endsPairKey r then some (Node.void, r.drop 1) else node fuel handles false false r
      let (v, r) ← match r with
        | .value :: r => nodeUnless fuel handles false false (endsPairValue r) r
        | _ => some (.void, r)
      let (items, r) ← flowItems fuel handles false r
      return (.map none [(k, v)] :: items, r)
    | _ =>
      let (item, r) ← node fuel handles false false ts
      let (items, r) ← flowItems fuel handles false r
      return (item :: items, r)

/-- Reads the entries between braces up to the closing one. -/
def flowEntries (fuel : Nat) (handles : Handles) (isFirst : Bool) (ts : List Token) :
    Option (List (Node String × Node String) × List Token) :=
  match fuel, ts with
  | 0, _ => none
  | _, .flowMapEnd :: r => some ([], r)
  | fuel + 1, ts => do
    let ts ← match isFirst, ts with
      | true, _ => some ts
      | false, .flowEntry :: r => some r
      | false, _ => none
    match ts with
    | .flowMapEnd :: r => return ([], r)
    | .key :: r =>
      let (k, r) ← nodeUnless fuel handles false false (endsFlowKey r) r
      let (v, r) ← match r with
        | .value :: r => nodeUnless fuel handles false false (endsFlowValue r) r
        | _ => some (.void, r)
      let (entries, r) ← flowEntries fuel handles false r
      return ((k, v) :: entries, r)
    | _ =>
      let (k, r) ← node fuel handles false false ts
      let (entries, r) ← flowEntries fuel handles false r
      return ((k, .void) :: entries, r)

end

/-! ### Documents -/

/-- Reads the directives in front of a document: at most one version, which has to be a known one,
and each handle at most once. -/
def directives? (hasVersion : Bool) (declared : Handles) :
    List Token → Option (Handles × List Token)
  | .versionDirective major minor :: r =>
    if hasVersion || major ≠ 1 || (minor ≠ 1 && minor ≠ 2) then none
    else directives? true declared r
  | .tagDirective handle expansion :: r =>
    if declared.any (·.1 == handle) then none
    else directives? hasVersion ((handle, expansion) :: declared) r
  | r => some (declared ++ standardHandles, r)

/-- Whether a document is left empty. -/
def endsDocument : List Token → Bool
  | [] => true
  | .versionDirective .. :: _ | .tagDirective .. :: _ | .documentStart :: _
  | .documentEnd :: _ => true
  | _ => false

/-- Whether a document is announced. -/
def startsDocument : List Token → Bool
  | .versionDirective .. :: _ | .tagDirective .. :: _ | .documentStart :: _ => true
  | _ => false

/-- The tokens behind those that end documents. -/
def dropEnds : List Token → List Token
  | .documentEnd :: r => dropEnds r
  | r => r

/-- Reads documents, each of which has to be announced. -/
def announced (fuel : Nat) (ts : List Token) : Option (List (Node String)) :=
  match fuel, ts with
  | _, [] => some []
  | 0, _ => none
  | fuel + 1, ts => do
    let (handles, ts) ← directives? false [] ts
    match ts with
    | .documentStart :: r =>
      let (root, r) ← nodeUnless (2 * r.length + 4) handles true false (endsDocument r) r
      let roots ← announced fuel (dropEnds r)
      return root :: roots
    | _ => none

/-- The documents of some tokens; the first one may start without being announced. -/
def arrange (ts : List Token) : Option (List (Node String)) :=
  if ts.isEmpty || startsDocument ts then announced ts.length ts
  else do
    let (root, r) ← node (2 * ts.length + 4) standardHandles true false ts
    let roots ← announced r.length (dropEnds r)
    return root :: roots

/-! ### Anchors -/

mutual

/-- The node with every anchor replaced by the number of names that have been used before it,
and every alias by the number that its name has at that place; `names` are the names so far. -/
def numbered (names : List (String × Nat)) : Node String → Option (Node Nat × List (String × Nat))
  | .scalar tag isPlain text => some (.scalar tag isPlain text, names)
  | .list tag items => do
    let (items, names) ← numberedItems names items
    return (.list tag items, names)
  | .map tag entries => do
    let (entries, names) ← numberedEntries names entries
    return (.map tag entries, names)
  | .anchored name n => do
    let id := names.length
    let (n, names) ← numbered ((name, id) :: names.filter (·.1 != name)) n
    return (.anchored id n, names)
  | .alias name => (names.find? (·.1 == name)).map fun e => (.alias e.2, names)

/-- The same for the items of a list. -/
def numberedItems (names : List (String × Nat)) :
    List (Node String) → Option (List (Node Nat) × List (String × Nat))
  | [] => some ([], names)
  | n :: r => do
    let (n, names) ← numbered names n
    let (r, names) ← numberedItems names r
    return (n :: r, names)

/-- The same for the entries of a map. -/
def numberedEntries (names : List (String × Nat)) :
    List (Node String × Node String) → Option (List (Node Nat × Node Nat) × List (String × Nat))
  | [] => some ([], names)
  | (k, v) :: r => do
    let (k, names) ← numbered names k
    let (v, names) ← numbered names v
    let (r, names) ← numberedEntries names r
    return ((k, v) :: r, names)

end

mutual

/-- The anchored nodes with their numbers, in the order in which they start. -/
def anchors : Node Nat → List (Nat × Node Nat)
  | .scalar .. | .alias _ => []
  | .list _ items => itemAnchors items
  | .map _ entries => entryAnchors entries
  | .anchored id n => (id, n) :: anchors n

/-- The same for the items of a list. -/
def itemAnchors : List (Node Nat) → List (Nat × Node Nat)
  | [] => []
  | n :: r => anchors n ++ itemAnchors r

/-- The same for the entries of a map. -/
def entryAnchors : List (Node Nat × Node Nat) → List (Nat × Node Nat)
  | [] => []
  | (k, v) :: r => anchors k ++ (anchors v ++ entryAnchors r)

end

mutual

/-- The number of marks that a node takes: one for a scalar or an alias, and two around a list or
a map. -/
def weight : Node Nat → Nat
  | .scalar .. | .alias _ => 1
  | .list _ items => 2 + itemsWeight items
  | .map _ entries => 2 + entriesWeight entries
  | .anchored _ n => weight n

/-- The same for the items of a list. -/
def itemsWeight : List (Node Nat) → Nat
  | [] => 0
  | n :: r => weight n + itemsWeight r

/-- The same for the entries of a map. -/
def entriesWeight : List (Node Nat × Node Nat) → Nat
  | [] => 0
  | (k, v) :: r => weight k + (weight v + entriesWeight r)

end

/-- A document: its content, and the nodes that aliases may stand for. -/
structure Document where
  root : Node Nat
  /-- The anchored nodes, the latest first. -/
  anchored : List (Nat × Node Nat)

/-- The document with a given content; every alias needs an anchor before it. -/
def Document.of? (n : Node String) : Option Document :=
  (numbered [] n).map fun (root, _) => ⟨root, (anchors root).reverse⟩

/-- The documents of a text, if all of it is well formed. -/
def documents? (text : String) : Option (List Document) := do
  let roots ← arrange (← tokens? text.toList)
  roots.mapM Document.of?

end StreamPipeline.Yaml
