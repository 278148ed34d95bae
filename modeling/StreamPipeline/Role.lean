/-!
# Roles of stages

What a stage does with the data that flows through its pipeline.
-/

namespace StreamPipeline

/-- What a stage does with data. -/
inductive Role
  /-- Produces it. -/
  | source
  /-- Consumes and produces it. -/
  | processor
  /-- Consumes it. -/
  | sink
  deriving DecidableEq, Repr

namespace Role

/-- Every role. -/
def all : List Role := [source, processor, sink]

/-- The word for a role. -/
def word : Role → String
  | source => "source"
  | processor => "processor"
  | sink => "sink"

/-- The role that a word names. -/
def ofWord? (s : String) : Option Role := all.find? (·.word == s)

end Role

end StreamPipeline
