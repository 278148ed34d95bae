/-!
# Documents to be written

A `Tree` is what a YAML document says, without any choice of how to say it: texts, lists, and maps
whose entries stand in the order in which they are written.
-/

namespace StreamPipeline.Yaml

/-- Texts, lists and maps. -/
inductive Tree
  | text (s : String)
  | list (items : List Tree)
  | map (entries : List (String × Tree))
  deriving Inhabited

namespace Tree

/-- The map of a record: the fields that are present, in order. -/
def record (fields : List (String × Option Tree)) : Tree :=
  .map (fields.filterMap fun (k, t) => t.map (k, ·))

end Tree

end StreamPipeline.Yaml
