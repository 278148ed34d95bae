import StreamPipeline.Definition.Basic
import StreamPipeline.Text.Decimal

/-!
# Partitioned consumers

A stage is a partitioned consumer if the stage in front of it says by which key it partitions, or
if it says so itself and consumes from a destination. `propagate` passes the stages once from the
first on: a consumer is told that its input is partitioned, and the stage in front of it into how
many parts and by which key.
-/

namespace StreamPipeline

/-- A stage with what is said about it at deployment. -/
structure ResolvedStage where
  stage : Stage
  app : Settings := ∅
  deployer : Settings := ∅
  deriving DecidableEq

/-! ### The properties that partitioning reads and writes -/

namespace Partition

/-- The expression by which a producer partitions. -/
def keyExpression : String := "producer.partitionKeyExpression"

/-- The class by which a producer finds the key of a message. -/
def keyExtractor : String := "producer.partitionKeyExtractorClass"

/-- The class by which a producer chooses the part for a key. -/
def selectorClass : String := "producer.partitionSelectorClass"

/-- The expression by which a producer chooses the part for a key. -/
def selectorExpression : String := "producer.partitionSelectorExpression"

/-- Whether a consumer says itself that it is partitioned. -/
def consumer : String := "consumer.partitioned"

/-- The number of instances of a stage. -/
def count : String := "count"

/-- Where a consumer is told that its input is partitioned. -/
def inputPartitioned : String := "input.partitioned"

/-- Where a consumer is told how many instances share its input. -/
def inputCount : String := "input.instanceCount"

/-- Where a producer is told into how many parts to partition. -/
def outputCount : String := "output.partitionCount"

/-- Where a producer is told the expression to partition by. -/
def outputKeyExpression : String := "output.partitionKeyExpression"

/-- Where a producer is told the class that finds the key of a message. -/
def outputKeyExtractor : String := "output.partitionKeyExtractorClass"

/-- Where a producer is told the class that chooses the part for a key. -/
def outputSelectorClass : String := "output.partitionSelectorClass"

/-- Where a producer is told the expression that chooses the part for a key. -/
def outputSelectorExpression : String := "output.partitionSelectorExpression"

/-- The property by which a platform is asked to number the instances of a stage. -/
def indexed : String := "indexed"

/-- The expression by which is partitioned where no key is named. -/
def wholePayload : String := "payload"

/-- Whether partitioning writes an app property. -/
def isInjected (key : String) : Bool :=
  [inputPartitioned, inputCount, outputCount, outputKeyExpression, outputKeyExtractor,
    outputSelectorClass, outputSelectorExpression].contains key

end Partition

open StreamPipeline.Partition

namespace ResolvedStage

/-- An app property; what is said at deployment goes first. -/
def get? (s : ResolvedStage) (key : String) : Option String :=
  (s.app.get? key).or (s.stage.properties.get? key)

/-- Whether a text says yes. -/
def saysTrue (s : String) : Bool :=
  (Text.trim s).toList.map Char.toLower == "true".toList

/-- Whether the stage says by which key it partitions. -/
def declaresKey (s : ResolvedStage) : Bool :=
  (s.get? keyExpression).isSome || (s.get? keyExtractor).isSome

/-- Whether the stage says itself that it is a partitioned consumer. -/
def declaresConsumer (s : ResolvedStage) : Bool :=
  s.stage.hasInput && (s.get? consumer).any saysTrue

/-- The number of instances as it is said, to the app or else to the platform. -/
def givenCount? (s : ResolvedStage) : Option String :=
  (s.get? Partition.count).or (s.deployer.get? Partition.count)

/-- The number of instances, one if nothing is said. -/
def instanceCount (pipeline : String) (s : ResolvedStage) : Except Failure Nat :=
  match s.givenCount? with
  | none => .ok 1
  | some given =>
    match (Text.unsigned? UInt32.size (Text.trim given)).filter (0 < ·) with
    | some n => .ok n
    | none => .error (.invalid pipeline (.count s.stage.label given))

/-- Sets a property to a value if there is one. -/
def setOr (m : Settings) (key : String) : Option String → Settings
  | some v => m.insert key v
  | none => m

/-- The stage told that its input is partitioned. -/
def asConsumer (s : ResolvedStage) : ResolvedStage :=
  { s with
    app := setOr (s.app.insert inputPartitioned "true") inputCount (s.givenCount?.map Text.trim)
    deployer := s.deployer.insert indexed "true" }

/-- The expression by which a stage in front of a partitioned consumer partitions: the one that it
declares, or the whole payload if it declares no key at all. -/
def partitionExpression? (s : ResolvedStage) : Option String :=
  match s.get? keyExpression, s.get? keyExtractor with
  | some e, _ => some e
  | none, none => some wholePayload
  | none, some _ => none

/-- The stage told to partition its output into `n` parts. -/
def asProducer (n : Nat) (s : ResolvedStage) : ResolvedStage :=
  let app := s.app.insert outputCount (Nat.repr n)
  let app := setOr app outputKeyExpression s.partitionExpression?
  let app := setOr app outputKeyExtractor (s.get? keyExtractor)
  let app := setOr app outputSelectorClass (s.get? selectorClass)
  { s with app := setOr app outputSelectorExpression (s.get? selectorExpression) }

/-- Whether a stage behind `before` is a partitioned consumer. -/
def isConsumer (before : Option ResolvedStage) (s : ResolvedStage) : Bool :=
  before.any declaresKey || s.declaresConsumer

/-- Passes stages from the first on; `before` stands in front of them. What is told to the stages up
to a failure stands, and the result says whether there was one. -/
def propagateFrom (pipeline : String) (before : Option ResolvedStage) :
    List ResolvedStage → List ResolvedStage × Option Failure
  | [] => (before.toList, none)
  | s :: r =>
    if isConsumer before s then
      match s.instanceCount pipeline with
      | .error e => (before.toList ++ s :: r, some e)
      | .ok n =>
        let (rest, e) := propagateFrom pipeline (some s.asConsumer) r
        ((before.map (asProducer n)).toList ++ rest, e)
    else
      let (rest, e) := propagateFrom pipeline (some s) r
      (before.toList ++ rest, e)

/-- Tells partitioned consumers and the stages in front of them, in one pass. -/
def propagate (pipeline : String) (stages : List ResolvedStage) :
    List ResolvedStage × Option Failure :=
  propagateFrom pipeline none stages

/-- The stages after the pass, if there was no failure. -/
def propagated (pipeline : String) (stages : List ResolvedStage) :
    Except Failure (List ResolvedStage) :=
  match propagate pipeline stages with
  | (stages, none) => .ok stages
  | (_, some e) => .error e

end ResolvedStage

end StreamPipeline
