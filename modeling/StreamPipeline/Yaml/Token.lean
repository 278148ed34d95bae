/-!
# Tokens of YAML

What the reader first cuts a text into. Indentation has become brackets here: `blockMapStart` and
`blockListStart` open what `blockEnd` closes, and `key` stands in front of every key, whether the
text announced it or a colon behind it did.
-/

namespace StreamPipeline.Yaml

/-- A piece of a YAML text. -/
inductive Token
  | versionDirective (major minor : Nat)
  | tagDirective (handle expansion : String)
  | documentStart
  | documentEnd
  | blockListStart
  | blockMapStart
  | blockEnd
  | flowListStart
  | flowListEnd
  | flowMapStart
  | flowMapEnd
  | blockEntry
  | flowEntry
  | key
  | value
  | alias (name : String)
  | anchor (name : String)
  | tag (handle suffix : String)
  | scalar (isPlain : Bool) (text : String)
  deriving DecidableEq, Repr

end StreamPipeline.Yaml
