import StreamPipeline.Concurrent.Call
import StreamPipeline.Definition.Basic

/-!
# Stores of definitions

A store keeps definitions by name. What it offers is a `Store`, whatever is behind it;
`Store.inMemory` keeps them in a part of the state.
-/

namespace StreamPipeline

/-- What can be asked of a store of definitions. -/
structure Store (σ : Type) where
  find : String → Call σ (Option Definition)
  /-- Stores a definition under a name that is free. -/
  save : Definition → Call σ Unit
  /-- Stores a definition whether its name is free or not. -/
  upsert : Definition → Call σ Unit
  /-- Removes a definition and gives it back. -/
  delete : String → Call σ (Option Definition)
  /-- All definitions by name. -/
  findAll : Call σ (List Definition)

/-- Definitions by name. -/
abbrev Definitions := StringMap Definition

namespace Definitions

/-- The definitions with another one, whose name has to be free. -/
def save (ds : Definitions) (d : Definition) : Except Failure Definitions :=
  if ds.contains d.name then .error (.conflict .duplicateName d.name)
  else .ok (ds.insert d.name d)

/-- The definitions with another one under its name. -/
def upsert (ds : Definitions) (d : Definition) : Definitions := ds.insert d.name d

end Definitions

/-- The store of the definitions in a part of the state. -/
def Store.inMemory {σ : Type} (part : Part σ Definitions) : Store σ where
  find name := .query part fun ds => .ok (ds.get? name)
  save d := .update part fun ds => (ds.save d).map ((), ·)
  upsert d := .update part fun ds => .ok ((), ds.upsert d)
  delete name := .update part fun ds => .ok (ds.get? name, ds.erase name)
  findAll := .query part fun ds => .ok ds.values

end StreamPipeline
