import StreamPipeline.Concurrent.Activity
import StreamPipeline.Duration
import StreamPipeline.Status
import StreamPipeline.StringMap

/-!
# Polling

A poller asks about several pipelines at once, so many at a time, and gives no query more than so
much time. Whatever happens to one query, the others are answered.
-/

namespace StreamPipeline

/-- What comes of a query. -/
inductive Answer
  | answered (result : Except Failure (List StageStatus))
  /-- The query ended without an answer, with what is known of why. -/
  | aborted (error : Option String := none)

/-- The status that follows from an answer. -/
def Answer.status : Answer → PipelineStatus
  | answered r => .ofResult r
  | aborted error => .noData ("status query aborted" ++ error.elim "" (": " ++ ·))

/-- How many queries run at once, and how long each of them may take. -/
structure Poller where
  slots : Nat
  limit : Duration
  deriving DecidableEq, Repr

namespace Poller

/-- The status of a pipeline whose query took too long. -/
def timedOut (p : Poller) : PipelineStatus :=
  .noData ("status query timed out after " ++ p.limit.render)

variable {σ : Type}

/-- The status that follows from a query within the time that it may take, which ends with a whole
millisecond. -/
def query (p : Poller) (source : Activity σ Answer) : Activity σ PipelineStatus :=
  .limit ((p.limit.nanos + 999999) / 1000000) source fun a =>
    .done (a.elim p.timedOut Answer.status)

/-- Asks about pipelines with queries that each give a status. -/
def pollWith (p : Poller) (query : String → Activity σ PipelineStatus) (names : List String) :
    Activity σ (StringMap PipelineStatus) :=
  let queries := (StringMap.ofList (names.map (·, ()))).keys.map fun name => do
    return (name, ← query name)
  .pool (max p.slots 1) (.ofList queries) fun l => .done (StringMap.ofList l)

/-- Asks about pipelines, each of them once. -/
def poll (p : Poller) (source : String → Activity σ Answer) (names : List String) :
    Activity σ (StringMap PipelineStatus) :=
  p.pollWith (fun name => p.query (source name)) names

end Poller

end StreamPipeline
