import StreamPipeline.Poller

/-!
# Scripted queries

A script says for each pipeline what a status query does. Running a poller on it shows, besides the
answers, which queries were made and how many of them were open at once.
-/

namespace StreamPipeline

/-- What a query does. -/
structure ScriptedQuery where
  /-- How long it takes, in milliseconds. -/
  delay : Nat := 0
  answer : Answer

/-- What was seen of queries. -/
structure QueryLog where
  /-- The pipelines that were asked about. -/
  asked : List String := []
  /-- The number of open queries. -/
  openNow : Nat := 0
  /-- The largest number of open queries there was. -/
  peak : Nat := 0

namespace QueryLog

/-- Notes the start of a query. -/
def start (l : QueryLog) (name : String) : QueryLog :=
  { asked := name :: l.asked, openNow := l.openNow + 1, peak := max l.peak (l.openNow + 1) }

/-- Notes the end of a query. -/
def finish (l : QueryLog) : QueryLog := { l with openNow := l.openNow - 1 }

end QueryLog

/-- What a script says for each pipeline. -/
abbrev Script := StringMap ScriptedQuery

/-- The query about a pipeline; about one that the script does not know there is no release. -/
def Script.source (s : Script) (name : String) : Activity QueryLog Answer :=
  match s.get? name with
  | some q => .sleep q.delay (.done q.answer)
  | none => .done (.answered (.error (.noRelease name)))

/-- Polls a script. -/
def Poller.pollScript (p : Poller) (s : Script) (names : List String) :
    Activity QueryLog (StringMap PipelineStatus) :=
  p.pollWith (fun name => do
    Activity.change (·.start name)
    let status ← p.query (s.source name)
    Activity.change QueryLog.finish
    return status) names

end StreamPipeline
