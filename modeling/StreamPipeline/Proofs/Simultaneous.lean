import StreamPipeline.Proofs.Consumers
import StreamPipeline.Proofs.Outcome

/-!
# The pass over stages, all stages at once

The pass reads a stage after it has written into it and into the stage in front of it, but nothing
that it writes is ever read. So what becomes of each stage can be said of the stages as they were:
`told` is a stage with what is due to it, as a partitioned consumer and as the stage in front of
one, and `toldBy` tells all stages at once what is due to them for the consumers in the first
places.

**`propagate_simultaneous`**: the pass fails just if some consumer has a count that is no positive
number, with what is wrong at the first of these places, and then all stages have been told what is
due for the consumers in front of that place, and no more. Otherwise they have been told what is due
for all consumers.
-/

namespace StreamPipeline.ResolvedStage

open StreamPipeline.Partition

variable {pipeline : String} {s : ResolvedStage} {before : Option ResolvedStage}
  {stages : List ResolvedStage} {i : Nat}

/-! ### Counts -/

/-- The number of instances of a stage: the positive number that is said, or one if nothing is. -/
def count? (s : ResolvedStage) : Option Nat :=
  s.givenCount?.elim (some 1) fun given =>
    (Text.unsigned? UInt32.size (Text.trim given)).filter (0 < ·)

/-- What is wrong with a stage whose count is said, but is no positive number. -/
def miscount? (pipeline : String) (s : ResolvedStage) : Option Failure :=
  match s.givenCount?, s.count? with
  | some given, none => some (.invalid pipeline (.count s.stage.label given))
  | _, _ => none

/-- A stage has a number of instances, or there is something wrong with its count. -/
theorem instanceCount_cases (pipeline : String) (s : ResolvedStage) :
    (∃ n, s.instanceCount pipeline = .ok n ∧ s.count? = some n ∧ s.miscount? pipeline = none) ∨
      ∃ e, s.instanceCount pipeline = .error e ∧ s.count? = none ∧
        s.miscount? pipeline = some e := by
  unfold instanceCount miscount? count?
  cases s.givenCount? with
  | none => simp
  | some given =>
      cases h : (Text.unsigned? UInt32.size (Text.trim given)).filter (0 < ·) <;> simp [h]

/-! ### What is due to a stage -/

/-- The app properties that are due to a stage by what it says, if it is a partitioned consumer and
if it stands in front of one with a number of instances. -/
def dues (s : ResolvedStage) (isConsumer : Bool) (parts : Option Nat) :
    List (String × Option String) :=
  [(inputPartitioned, if isConsumer then some "true" else none),
    (inputCount, if isConsumer then s.givenCount?.map Text.trim else none),
    (outputCount, parts.map Nat.repr),
    (outputKeyExpression, parts.bind fun _ => s.partitionExpression?),
    (outputKeyExtractor, parts.bind fun _ => s.get? keyExtractor),
    (outputSelectorClass, parts.bind fun _ => s.get? selectorClass),
    (outputSelectorExpression, parts.bind fun _ => s.get? selectorExpression)]

/-- The stage with what is due to it, and as it was in all else. -/
def told (s : ResolvedStage) (isConsumer : Bool) (parts : Option Nat) : ResolvedStage :=
  { s with
    app := (s.dues isConsumer parts).foldl (fun m e => setOr m e.1 e.2) s.app
    deployer := setOr s.deployer indexed (if isConsumer then some "true" else none) }

theorem told_false_none (s : ResolvedStage) : s.told false none = s :=
  rfl

theorem told_true_none (s : ResolvedStage) : s.told true none = s.asConsumer :=
  rfl

/-- What is due to a stage in front of a consumer goes by what the stage said before it was told
anything. -/
theorem asProducer_told (s : ResolvedStage) (isConsumer : Bool) (n : Nat) :
    (s.told isConsumer none).asProducer n = s.told isConsumer (some n) := by
  cases isConsumer with
  | false => rfl
  | true =>
      rw [told_true_none]
      unfold asProducer partitionExpression?
      simp only [get?_asConsumer (s := s) (show isInjected keyExpression = false by decide),
        get?_asConsumer (s := s) (show isInjected keyExtractor = false by decide),
        get?_asConsumer (s := s) (show isInjected selectorClass = false by decide),
        get?_asConsumer (s := s) (show isInjected selectorExpression = false by decide)]
      rfl

theorem declaresKey_told (s : ResolvedStage) (isConsumer : Bool) :
    (s.told isConsumer none).declaresKey = s.declaresKey := by
  cases isConsumer with
  | false => rfl
  | true => exact declaresKey_asConsumer s

/-- Telling a stage what is due to it keeps what partitioning does not write. -/
theorem keeps_told (s : ResolvedStage) (isConsumer : Bool) (parts : Option Nat) :
    Keeps s (s.told isConsumer parts) := by
  have hconsumer : Keeps s (s.told isConsumer none) := by
    cases isConsumer with
    | false => exact ⟨rfl, fun _ _ => rfl⟩
    | true => exact Keeps.asConsumer s
  cases parts with
  | none => exact hconsumer
  | some n => exact asProducer_told s isConsumer n ▸ hconsumer.asProducer n

theorem get?_deployer_told (s : ResolvedStage) (isConsumer : Bool) (parts : Option Nat)
    {key : String} (h : key ≠ indexed) :
    (s.told isConsumer parts).deployer.get? key = s.deployer.get? key :=
  (get?_setOr ..).trans (if_neg h)

/-! ### Places -/

/-- The stage in front of a place, where `before` stands in front of all stages. -/
def inFront (before : Option ResolvedStage) (stages : List ResolvedStage) :
    Nat → Option ResolvedStage
  | 0 => before
  | i + 1 => stages[i]?

/-- Whether a partitioned consumer stands at a place. -/
def consumerAt (before : Option ResolvedStage) (stages : List ResolvedStage) (i : Nat) : Bool :=
  stages[i]?.any (isConsumer (inFront before stages i))

/-- What is wrong at a place: a consumer stands there whose count is no positive number. -/
def faultAt? (pipeline : String) (before : Option ResolvedStage) (stages : List ResolvedStage)
    (i : Nat) : Option Failure :=
  if consumerAt before stages i then stages[i]?.bind (miscount? pipeline) else none

/-- Whether a partitioned consumer stands at a place, and the place is among the first `bound`. -/
def dueBy (bound : Nat) (before : Option ResolvedStage) (stages : List ResolvedStage) (i : Nat) :
    Bool :=
  decide (i < bound) && consumerAt before stages i

/-- The number of instances of the consumer that stands at a place among the first `bound`. -/
def partsBy (bound : Nat) (before : Option ResolvedStage) (stages : List ResolvedStage) (i : Nat) :
    Option Nat :=
  if dueBy bound before stages i then stages[i]?.bind count? else none

/-- All stages at once with what is due to them for the consumers in the first `bound` places. -/
def toldBy (bound : Nat) (before : Option ResolvedStage) (stages : List ResolvedStage) :
    List ResolvedStage :=
  stages.mapIdx fun i s => s.told (dueBy bound before stages i) (partsBy bound before stages (i + 1))

theorem inFront_cons (before : Option ResolvedStage) (s : ResolvedStage)
    (r : List ResolvedStage) (i : Nat) :
    inFront before (s :: r) (i + 1) = inFront (some s) r i := by
  cases i <;> rfl

theorem consumerAt_cons (before : Option ResolvedStage) (s : ResolvedStage)
    (r : List ResolvedStage) (i : Nat) :
    consumerAt before (s :: r) (i + 1) = consumerAt (some s) r i := by
  rw [consumerAt, consumerAt, inFront_cons, List.getElem?_cons_succ]

theorem faultAt?_cons (before : Option ResolvedStage) (s : ResolvedStage)
    (r : List ResolvedStage) (i : Nat) :
    faultAt? pipeline before (s :: r) (i + 1) = faultAt? pipeline (some s) r i := by
  rw [faultAt?, faultAt?, consumerAt_cons, List.getElem?_cons_succ]

theorem dueBy_cons (bound : Nat) (before : Option ResolvedStage) (s : ResolvedStage)
    (r : List ResolvedStage) (i : Nat) :
    dueBy (bound + 1) before (s :: r) (i + 1) = dueBy bound (some s) r i := by
  simp [dueBy, consumerAt_cons]

theorem partsBy_cons (bound : Nat) (before : Option ResolvedStage) (s : ResolvedStage)
    (r : List ResolvedStage) (i : Nat) :
    partsBy (bound + 1) before (s :: r) (i + 1) = partsBy bound (some s) r i := by
  rw [partsBy, partsBy, dueBy_cons, List.getElem?_cons_succ]

theorem toldBy_zero (before : Option ResolvedStage) (stages : List ResolvedStage) :
    toldBy 0 before stages = stages := by
  refine List.ext_getElem? fun i => ?_
  simp [toldBy, dueBy, partsBy, told_false_none]

theorem toldBy_cons (bound : Nat) (before : Option ResolvedStage) (s : ResolvedStage)
    (r : List ResolvedStage) :
    toldBy (bound + 1) before (s :: r) =
      s.told (isConsumer before s) (partsBy bound (some s) r 0) :: toldBy bound (some s) r := by
  have hhead : dueBy (bound + 1) before (s :: r) 0 = isConsumer before s := by
    simp [dueBy, consumerAt, inFront]
  rw [toldBy, List.mapIdx_cons]
  simp only [hhead, dueBy_cons, partsBy_cons]
  rfl

/-! ### What is due depends on neighbours only -/

/-- Who is a consumer goes by the stage at the place and the one in front of it. -/
theorem consumerAt_congr {stages' : List ResolvedStage} (h : stages[i]? = stages'[i]?)
    (hfront : inFront before stages i = inFront before stages' i) :
    consumerAt before stages i = consumerAt before stages' i := by
  rw [consumerAt, consumerAt, h, hfront]

theorem dueBy_congr {bound : Nat} {stages' : List ResolvedStage} (h : stages[i]? = stages'[i]?)
    (hfront : inFront before stages i = inFront before stages' i) :
    dueBy bound before stages i = dueBy bound before stages' i := by
  rw [dueBy, dueBy, consumerAt_congr h hfront]

theorem partsBy_congr {bound : Nat} {stages' : List ResolvedStage} (h : stages[i]? = stages'[i]?)
    (hfront : inFront before stages i = inFront before stages' i) :
    partsBy bound before stages i = partsBy bound before stages' i := by
  rw [partsBy, partsBy, dueBy_congr h hfront, h]

/-! ### One step of the pass -/

/-- Whether a stage is a consumer goes by what the stage in front of it said before it was told that
it is one. -/
theorem isConsumer_told (before : Option ResolvedStage) (isTold : Bool) (s : ResolvedStage) :
    isConsumer (before.map (·.told isTold none)) s = isConsumer before s := by
  cases before with
  | none => rfl
  | some b => simp [isConsumer, declaresKey_told]

theorem faultAt?_zero (before : Option ResolvedStage) (s : ResolvedStage)
    (r : List ResolvedStage) : faultAt? pipeline before (s :: r) 0 =
      if isConsumer before s then s.miscount? pipeline else none :=
  rfl

theorem partsBy_zero (bound : Nat) (before : Option ResolvedStage) (s : ResolvedStage)
    (r : List ResolvedStage) : partsBy (bound + 1) before (s :: r) 0 =
      if isConsumer before s then s.count? else none := by
  simp [partsBy, dueBy, consumerAt, inFront]

/-- The pass ends at a stage with which something is wrong. -/
theorem propagateFrom_of_fault {isTold : Bool} {r : List ResolvedStage} {e : Failure}
    (h : faultAt? pipeline before (s :: r) 0 = some e) :
    propagateFrom pipeline (before.map (·.told isTold none)) (s :: r) =
      ((before.map (·.told isTold none)).toList ++ s :: r, some e) := by
  rw [faultAt?_zero] at h
  rw [propagateFrom, isConsumer_told]
  split at h
  · rcases s.instanceCount_cases pipeline with ⟨n, -, -, hfine⟩ | ⟨e', hn, -, hfault⟩
    · cases hfine.symm.trans h
    · cases hfault.symm.trans h
      rw [if_pos ‹_›, hn]
  · cases h

/-- The pass goes on behind a stage with which nothing is wrong: it tells that stage whether it is a
consumer, and the stage in front of it into how many parts to partition then. -/
theorem propagateFrom_of_fine {isTold : Bool} {r : List ResolvedStage}
    (h : faultAt? pipeline before (s :: r) 0 = none) :
    propagateFrom pipeline (before.map (·.told isTold none)) (s :: r) =
      ((before.map (·.told isTold (if isConsumer before s then s.count? else none))).toList ++
          (propagateFrom pipeline (some (s.told (isConsumer before s) none)) r).1,
        (propagateFrom pipeline (some (s.told (isConsumer before s) none)) r).2) := by
  rw [faultAt?_zero] at h
  rw [propagateFrom, isConsumer_told]
  cases hs : isConsumer before s with
  | false => rfl
  | true =>
      rw [hs, if_pos rfl] at h
      rcases s.instanceCount_cases pipeline with ⟨n, hn, hcount, -⟩ | ⟨e, -, -, hfault⟩
      · simp only [if_true, hn, hcount, Option.map_map, Function.comp_def, asProducer_told]
        rfl
      · cases hfault.symm.trans h

/-! ### The whole pass -/

/-- The pass comes to a place: nothing is wrong in front of it, and it is behind all stages or
something is wrong there. -/
structure ComesTo (pipeline : String) (before : Option ResolvedStage) (stages : List ResolvedStage)
    (bound : Nat) : Prop where
  fine : ∀ i < bound, faultAt? pipeline before stages i = none
  le : bound ≤ stages.length
  fault : bound < stages.length → ∃ e, faultAt? pipeline before stages bound = some e

theorem ComesTo.tail {bound : Nat} {r : List ResolvedStage}
    (h : ComesTo pipeline before (s :: r) (bound + 1)) : ComesTo pipeline (some s) r bound where
  fine i hi := (faultAt?_cons before s r i).symm.trans (h.fine (i + 1) (Nat.succ_lt_succ hi))
  le := Nat.le_of_succ_le_succ h.le
  fault hlt := by
    rw [← faultAt?_cons before]
    exact h.fault (Nat.succ_lt_succ hlt)

/-- The pass tells all stages what is due to them for the consumers in front of the place to which it
comes. The stage in front of all has been told by now whether it is a consumer itself. -/
theorem propagateFrom_eq_toldBy {bound : Nat} (isTold : Bool)
    (h : ComesTo pipeline before stages bound) :
    propagateFrom pipeline (before.map (·.told isTold none)) stages =
      ((before.map (·.told isTold (partsBy bound before stages 0))).toList ++
        toldBy bound before stages, faultAt? pipeline before stages bound) := by
  induction stages generalizing before bound isTold with
  | nil =>
      obtain rfl : bound = 0 := Nat.le_zero.1 h.le
      simp [propagateFrom, toldBy, faultAt?, partsBy, dueBy]
  | cons s r ih =>
      cases bound with
      | zero =>
          obtain ⟨e, he⟩ := h.fault (Nat.zero_lt_succ _)
          rw [propagateFrom_of_fault he, toldBy_zero, he]
          simp [partsBy, dueBy]
      | succ bound =>
          have hrest : propagateFrom pipeline (some (s.told (isConsumer before s) none)) r = _ :=
            ih (isConsumer before s) h.tail
          rw [propagateFrom_of_fine (h.fine 0 (Nat.zero_lt_succ _)), hrest, toldBy_cons,
            faultAt?_cons, partsBy_zero]
          rfl

theorem lt_of_faultAt? {e : Failure} (h : faultAt? pipeline before stages i = some e) :
    i < stages.length := by
  by_contra hge
  simp [faultAt?, List.getElem?_eq_none (Nat.le_of_not_lt hge)] at h

theorem propagate_of_foremost {e : Failure}
    (h : Except.Foremost (faultAt? pipeline none stages) i e) :
    propagate pipeline stages = (toldBy i none stages, some e) := by
  have hpass := propagateFrom_eq_toldBy false
    ⟨h.before, Nat.le_of_lt (lt_of_faultAt? h.here), fun _ => ⟨e, h.here⟩⟩
  rw [h.here] at hpass
  exact hpass

theorem propagate_of_fine (h : ∀ i, faultAt? pipeline none stages i = none) :
    propagate pipeline stages = (toldBy stages.length none stages, none) := by
  have hpass := propagateFrom_eq_toldBy false
    ⟨fun i _ => h i, Nat.le_refl _, fun hlt => absurd hlt (Nat.lt_irrefl _)⟩
  rw [h] at hpass
  exact hpass

/-! ### A pass that does not fail -/

/-- The number of instances of the partitioned consumer that stands at a place. -/
def partsAt? (before : Option ResolvedStage) (stages : List ResolvedStage) (i : Nat) : Option Nat :=
  if consumerAt before stages i then stages[i]?.bind count? else none

theorem dueBy_length (before : Option ResolvedStage) (stages : List ResolvedStage) (i : Nat) :
    dueBy stages.length before stages i = consumerAt before stages i := by
  by_cases hi : i < stages.length
  · simp [dueBy, hi]
  · simp [dueBy, consumerAt, hi]

theorem partsBy_length (before : Option ResolvedStage) (stages : List ResolvedStage) (i : Nat) :
    partsBy stages.length before stages i = partsAt? before stages i := by
  rw [partsBy, dueBy_length, partsAt?]

theorem partsAt?_congr {stages' : List ResolvedStage} (h : stages[i]? = stages'[i]?)
    (hfront : inFront before stages i = inFront before stages' i) :
    partsAt? before stages i = partsAt? before stages' i := by
  rw [partsAt?, partsAt?, consumerAt_congr h hfront, h]

/-- In a pass that does not fail, nothing is wrong anywhere. -/
theorem fine_of_propagated {told : List ResolvedStage} (h : propagated pipeline stages = .ok told) :
    ∀ i, faultAt? pipeline none stages i = none := by
  rcases Except.fine_or_foremost (faultAt? pipeline none stages) with hfine | ⟨i, e, hfirst⟩
  · exact hfine
  · have herror : propagated pipeline stages = .error e :=
      propagated_eq_error_iff.2 (by rw [propagate_of_foremost hfirst])
    cases herror.symm.trans h

/-- A pass that does not fail tells each stage what is due to it for all consumers. -/
theorem getElem?_propagated {told : List ResolvedStage}
    (h : propagated pipeline stages = .ok told) (i : Nat) : told[i]? = stages[i]?.map fun s =>
      s.told (consumerAt none stages i) (partsAt? none stages (i + 1)) := by
  have hpass := propagated_eq_ok_iff.1 h
  rw [propagate_of_fine (fine_of_propagated h)] at hpass
  obtain rfl : toldBy stages.length none stages = told := congrArg Prod.fst hpass
  rw [toldBy, List.getElem?_mapIdx]
  simp only [dueBy_length, partsBy_length]

/-! ### All that the pass comes to -/

/-- **The pass in place comes to the same as one over all stages at once.** It fails just if a
partitioned consumer has a count that is no positive number. If the first such consumer stands at a
place, the failure says what is wrong there, and the stages have been told what is due to them, as
they were, for the consumers in front of that place. If there is none, they have been told what is
due to them for all consumers. -/
theorem propagate_simultaneous (pipeline : String) (stages : List ResolvedStage) :
    ((∃ e, (propagate pipeline stages).2 = some e) ↔
      ∃ i e, faultAt? pipeline none stages i = some e) ∧
    (∀ i e, Except.Foremost (faultAt? pipeline none stages) i e →
      propagate pipeline stages = (toldBy i none stages, some e)) ∧
    ((∀ i, faultAt? pipeline none stages i = none) →
      propagate pipeline stages = (toldBy stages.length none stages, none)) := by
  refine ⟨⟨fun ⟨e, he⟩ => ?_, fun ⟨i, e, he⟩ => ?_⟩, fun i e h => propagate_of_foremost h,
    propagate_of_fine⟩
  · rcases Except.fine_or_foremost (faultAt? pipeline none stages) with hfine | ⟨i, e, hfirst⟩
    · rw [propagate_of_fine hfine] at he
      cases he
    · exact ⟨i, e, hfirst.here⟩
  · obtain ⟨j, e, hfirst⟩ := Except.exists_foremost he
    exact ⟨e, by rw [propagate_of_foremost hfirst]⟩

/-- The stage in front of a consumer whose count cannot be read is not told to partition, though it
has been told that it is a consumer itself. -/
example :
    let stages : List ResolvedStage :=
      [⟨.ofApp "http", .ofList [(keyExpression, "id")], ∅⟩,
        ⟨.ofApp "transform", .ofList [(keyExpression, "id")], .ofList [(count, "2")]⟩,
        ⟨.ofApp "log", .ofList [(count, "many")], ∅⟩]
    ((propagate "chain" stages).1.map fun s =>
        (s.app.get? inputPartitioned, s.app.get? outputCount)) =
      [(none, some "2"), (some "true", none), (none, none)] ∧
    (propagate "chain" stages).2 = some (.invalid "chain" (.count "log" "many")) := by
  decide

end StreamPipeline.ResolvedStage
