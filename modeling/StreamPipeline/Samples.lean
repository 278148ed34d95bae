import StreamPipeline.Definition.Draft
import StreamPipeline.Request

/-!
# Sample pipelines

Pipelines of a few stages, the apps that they use, and requests for one of the smallest.
-/

namespace StreamPipeline.Samples

/-- The artifact of a sample app. -/
def coordinate (app version : String) : Coordinate :=
  { name := app, kind := "maven", version, locator := "maven://apps:" ++ app ++ ":" ++ version }

/-- A pipeline that shows the time, under a name. -/
def timeLog (name : String) : Except Failure Definition :=
  Draft.build { name, text := "time | log", stages := [.ofApp "time", .ofApp "log"] }

/-- A pipeline that shows the time. -/
def ticktock : Except Failure Definition := timeLog "ticktock"

/-- A pipeline that shows requests. -/
def httpflow : Except Failure Definition :=
  Draft.build { name := "httpflow", text := "http | transform | log"
                stages := [.ofApp "http", .ofApp "transform", .ofApp "log"] }

/-- A pipeline that filters orders twice, the second time in a group that is told. -/
def tap : Draft :=
  { name := "tap", text := ":orders > filter | filter > :big"
    stages := [.ofApp "filter", (Stage.ofApp "filter").set Binding.group "again"]
    source := some "orders", target := some "big" }

/-- The sample apps. -/
def registry : Registry :=
  [("time", Role.source), ("http", .source), ("transform", .processor), ("log", .sink)].foldl
    (fun r e => r.register e.1 e.2 (coordinate e.1 "1.0.0")) {}

/-- A request for a stage of a sample app. -/
def request (stage : Stage) (role : Role) : Request :=
  { stage, role, coordinate := coordinate stage.app "1.0.0" }

/-- Requests for the pipeline that shows the time. -/
def ticktockRequests : List Request :=
  [request ((Stage.ofApp "time").set Binding.output "ticktock.time") .source,
    request ((Stage.ofApp "log").set Binding.input "ticktock.time") .sink]

/-- The pipeline that shows the time, with its stages bound to each other. -/
def bound : Definition := ⟨"ticktock", "time | log", ticktockRequests.map (·.stage)⟩

/-- What is said at its deployment, where two instances share what is shown. -/
def said : Properties :=
  .ofList [("app.time." ++ Partition.keyExpression, Partition.wholePayload),
    ("deployer.log." ++ Partition.count, "2")]

/-- What is said at an update, where there is one instance more and a new source. -/
def saidAnew : Properties :=
  .ofList [("deployer.log." ++ Partition.count, "3"), ("version.time", "2.0.0")]

/-- A pipeline in which requests are transformed twice. -/
def chain : Definition :=
  ⟨"chain", "http | transform | again: transform | log", Draft.wire "chain" none
    [.ofApp "http", .ofApp "transform", ⟨"again", "transform", ∅⟩, .ofApp "log"]⟩

/-- What makes its second transformation a partitioned consumer that partitions in turn. -/
def saidAmid : Properties :=
  .ofList [("app.again." ++ Partition.consumer, "true"), ("deployer.again." ++ Partition.count, "2"),
    ("app.again." ++ Partition.keyExpression, "id"), ("version.again", "2.0.0")]

/-- A pipeline of which the last stage is called as all stages are. -/
def starred : Definition :=
  ⟨"starred", "time | *: log", Draft.wire "starred" none [.ofApp "time", ⟨"*", "log", ∅⟩]⟩

/-- What is said about all its stages, and so about the last one by its label. -/
def saidToAll : Properties :=
  .ofList [("app.*.level", "INFO"), ("deployer.*.memory", "1g"), ("version.*", " 1.1.0 ")]

end StreamPipeline.Samples
