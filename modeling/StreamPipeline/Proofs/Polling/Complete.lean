import StreamPipeline.Deploy.Direct
import StreamPipeline.Proofs.Polling.Timed

/-!
# What polls tell

A query of a poll has an outcome: an answer of its source, or nothing within its time. The status of
a pipeline follows from the outcome of its own query (`Poller.statusAfter`), and a deployer takes
the state of a pipeline from the same reports (`Deployer.stateAfter`).

**Polls are complete** (`Poller.poll_complete`). Whatever the outcomes, and in whatever order
queries start and finish, each pipeline is asked about once with no more queries in flight than
there are slots, and has one entry, which follows from the outcome of its own query. Where that is
an answer, the entry has no error just if the deployer knows the state, and then it tells that
state.
-/

namespace StreamPipeline

/-! ### The state that a deployer sees -/

namespace Deployer

/-- The state of a pipeline whose stages report, or fail to. -/
def stateAfter : Except Failure (List StageStatus) → Except Failure State
  | .ok stages => .ok (PipelineStatus.ofStages stages).state
  | .error e => if e.isNoRelease then .ok .undeployed else .error e

/-- A deployer learns the state of a pipeline from what its stages report. -/
theorem outcome_stateOf {σ : Type} (statuses : Call σ (List StageStatus)) :
    (stateOf statuses).outcome = statuses.outcome.bind fun r => .done (stateAfter r) := by
  refine (Activity.bind_bind statuses.outcome _ _).trans (congrArg _ (funext fun r => ?_))
  cases r with
  | ok stages => rfl
  | error e =>
      show ((if e.isNoRelease then return .undeployed else throw e) : Call σ State) = _
      simp only [stateAfter]
      split <;> rfl

/-- A deployer that is asked in a poll answers with what the stages report. -/
def source {σ : Type} (d : Deployer σ) (name : String) : Activity σ Answer := do
  return .answered (← (d.statuses name).outcome)

theorem mayGive_source_iff {σ : Type} (d : Deployer σ) (name : String) (a : Answer) :
    (d.source name).MayGive a ↔ ∃ r, (d.statuses name).outcome.MayGive r ∧ a = .answered r :=
  Activity.mayGive_bind_iff.trans (exists_congr fun _ => and_congr_right' Activity.mayGive_done_iff)

end Deployer

/-- **A status has no error just if the state is known, and then it tells the state.** -/
theorem Answer.status_answered (r : Except Failure (List StageStatus)) :
    ((Answer.answered r).status.error = none ↔ ∃ st, Deployer.stateAfter r = .ok st) ∧
      ∀ st, Deployer.stateAfter r = .ok st → (Answer.answered r).status.state = st := by
  cases r with
  | ok stages =>
      refine ⟨iff_of_true rfl ⟨_, rfl⟩, fun st h => ?_⟩
      exact Except.ok.inj h
  | error e =>
      cases e with
      | noRelease name =>
          refine ⟨iff_of_true rfl ⟨_, rfl⟩, fun st h => ?_⟩
          exact Except.ok.inj h
      | _ => exact ⟨iff_of_false nofun nofun, nofun⟩

namespace Poller

variable {σ : Type} {p : Poller} {source : String → Activity σ Answer} {names : List String}
  {qs : Queries σ} {c : Course}

/-! ### Outcomes -/

/-- A query may end so: with an answer of its source, or without one in time. -/
def MayCome (source : Activity σ Answer) (o : Option Answer) : Prop :=
  ∀ a, o = some a → source.MayGive a

/-- The status that follows from the outcome of a query. -/
def statusAfter (p : Poller) (o : Option Answer) : PipelineStatus := o.elim p.timedOut Answer.status

theorem mayGive_query_iff [Nonempty σ] {source : Activity σ Answer} {status : PipelineStatus} :
    (p.query source).MayGive status ↔ ∃ o, MayCome source o ∧ status = p.statusAfter o := by
  simp only [query, Activity.mayGive_limit_iff, Activity.mayGive_done_iff, MayCome, statusAfter]

/-- The queries of a poll. -/
def queries (p : Poller) (source : String → Activity σ Answer) (name : String) :
    Activity σ PipelineStatus :=
  p.query (source name)

theorem limited_queries (n : String) : (p.queries source n).Limited := .limit _ _ fun _ => .done _

theorem result?_queries (n : String) : (p.queries source n).result? = none := rfl

/-! ### Polls -/

/-- What holds of a poll at any moment: the slots are kept to, and no pipeline is asked about twice
or without being named. -/
structure Restrained (p : Poller) (names : List String) (qs : Queries σ) (c : Course) : Prop where
  inFlight : inFlight qs ≤ max p.slots 1
  once : c.asked.Nodup
  named : ∀ n ∈ c.asked, n ∈ names

/-- What a poll has come to at its end: each pipeline was asked about once, and it has one entry,
which follows from the outcome of its own query, whatever the order in which these were learnt. -/
structure Answered (p : Poller) (source : String → Activity σ Answer) (names : List String)
    (qs : Queries σ) (c : Course) : Prop where
  asked : c.asked.Perm names.dedup
  keys : c.result.keys.Perm names.dedup
  unordered : ∀ l : List (String × PipelineStatus), l.Perm c.learnt → .ofList l = c.result
  own : ∀ n ∈ names, ∃ o, MayCome (source n) o ∧ (n, .ended (p.statusAfter o)) ∈ qs ∧
    c.result.get? n = some (p.statusAfter o)

theorem Schedule.restrained {query : String → Activity σ PipelineStatus}
    (t : p.Schedule query names qs c) : Restrained p names qs c :=
  ⟨t.orderly.inFlight, t.orderly.nodup_asked.1, t.orderly.nodup_asked.2⟩

theorem Schedule.answered [Nonempty σ] (t : p.Schedule (p.queries source) names qs c)
    (hfinished : Finished qs) : Answered p source names qs c where
  asked := (t.orderly.perm_of_finished hfinished).1
  keys := t.perm_keys hfinished
  unordered _ hl := t.result_eq hfinished hl
  own n hn := by
    obtain ⟨status, hended, hgive, hentry⟩ := t.exists_status hfinished hn
    obtain ⟨o, ho, rfl⟩ := mayGive_query_iff.1 hgive
    exact ⟨o, ho, hended, hentry⟩

/-- Pipelines may be asked about in any order, and with all outcomes that their queries may have. -/
theorem exists_answered [Nonempty σ] (p : Poller) {order : List String}
    {outcome : String → Option Answer} (horder : order.Perm names.dedup)
    (h : ∀ n ∈ names, MayCome (source n) (outcome n)) :
    ∃ qs c, p.Schedule (p.queries source) names qs c ∧ Finished qs ∧ c.asked = order ∧
      ∀ n ∈ names, c.result.get? n = some (p.statusAfter (outcome n)) := by
  have hgive : ∀ n ∈ names, (p.queries source n).MayGive (p.statusAfter (outcome n)) :=
    fun n hn => mayGive_query_iff.2 ⟨outcome n, h n hn, rfl⟩
  have t := exists_schedule p horder hgive
  have hfinished : Finished ((distinct names).map fun n =>
      (n, (.ended (p.statusAfter (outcome n)) : Phase σ))) := fun q hq => by
    obtain ⟨n, -, rfl⟩ := List.mem_map.1 hq
    exact ⟨_, rfl⟩
  refine ⟨_, _, t, hfinished, rfl, fun n hn => ?_⟩
  obtain ⟨status, hended, -, hentry⟩ := t.exists_status hfinished hn
  obtain ⟨m, -, hm⟩ := List.mem_map.1 hended
  cases hm
  exact hentry

/-- Whatever becomes of a poll is what a schedule has come to. -/
theorem exists_schedule_of_poll {s s' : σ} {q : Activity σ (StringMap PipelineStatus)}
    (h : Relation.ReflTransGen Activity.Next (p.poll source names, s) (q, s')) :
    ∃ qs c, p.Schedule (p.queries source) names qs c ∧
      (q = p.polling (p.queries source) qs ∨ q = .done c.result ∧ Finished qs) := by
  obtain ⟨qs, c, t, hq⟩ := exists_schedule_of_steps result?_queries h
  exact ⟨qs, c, t, hq.imp And.left id⟩

/-- **Polls are complete, isolated and consistent with deployers.** Of any pipelines that are named,
however often, and whatever becomes of the queries:

* in whatever order queries start and finish, a poll keeps to its slots and asks about no pipeline
  twice; it is never stuck before its end, where each pipeline has one entry, which follows from the
  outcome of its own query;
* no poll goes on for ever;
* each order and all outcomes are possible, and lead to the entries that follow from the outcomes;
* at any moment what is left of the poll is what is left of its queries in one of these orders, and
  a run of the poll comes to its end and gives what has been learnt there;
* the entry that follows from an answer has no error just if the state of the pipeline follows from
  that answer, and then it tells this state. What a deployer that is asked answers is what its
  stages report, and from this it takes the state that it tells by itself. -/
theorem poll_complete (p : Poller) (source : String → Activity σ Answer) (names : List String)
    (s : σ) :
    (∀ qs c, p.Schedule (p.queries source) names qs c → Restrained p names qs c ∧
      (Finished qs → Answered p source names qs c) ∧
      (Finished qs ∨ ∃ qs' c', p.Turn (p.queries source) qs c qs' c')) ∧
    (∀ run : ℕ → Queries σ × Course, ¬ ∀ k, p.Turn (p.queries source)
      (run k).1 (run k).2 (run (k + 1)).1 (run (k + 1)).2) ∧
    (∀ (order : List String) (outcome : String → Option Answer), order.Perm names.dedup →
      (∀ n ∈ names, MayCome (source n) (outcome n)) →
      ∃ qs c, p.Schedule (p.queries source) names qs c ∧ Finished qs ∧ c.asked = order ∧
        ∀ n ∈ names, c.result.get? n = some (p.statusAfter (outcome n))) ∧
    ((∀ q s', Relation.ReflTransGen Activity.Next (p.poll source names, s) (q, s') →
        ∃ qs c, p.Schedule (p.queries source) names qs c ∧
          (q = p.polling (p.queries source) qs ∨ q = .done c.result ∧ Finished qs)) ∧
      (∃ m s', (p.poll source names).Gives s m s') ∧
      ∀ m s', (p.poll source names).Gives s m s' →
        ∃ qs c, p.Schedule (p.queries source) names qs c ∧ Finished qs ∧ m = c.result) ∧
    (∀ r, ((Answer.answered r).status.error = none ↔ ∃ st, Deployer.stateAfter r = .ok st) ∧
      ∀ st, Deployer.stateAfter r = .ok st → (Answer.answered r).status.state = st) ∧
    (∀ (d : Deployer σ) n a, (d.source n).MayGive a ↔
      ∃ r, (d.statuses n).outcome.MayGive r ∧ a = .answered r) ∧
    (∀ (l : Lifecycle σ) n, (l.deployer.state n).outcome =
      (l.deployer.statuses n).outcome.bind fun r => .done (Deployer.stateAfter r)) ∧
    ∀ (d : Direct σ) n, (d.deployer.state n).outcome =
      (d.deployer.statuses n).outcome.bind fun r => .done (Deployer.stateAfter r) := by
  have : Nonempty σ := ⟨s⟩
  refine ⟨fun qs c t => ⟨t.restrained, t.answered, t.exists_turn limited_queries⟩, not_forever, ?_,
    ⟨?_, ?_, ?_⟩, Answer.status_answered, Deployer.mayGive_source_iff, ?_, ?_⟩
  · exact fun order outcome horder h => exists_answered p horder h
  · exact fun q s' h => exists_schedule_of_poll h
  · exact exists_gives_pollWith p limited_queries names s
  · exact fun m s' h => exists_schedule_of_gives result?_queries h
  · exact fun l n => Deployer.outcome_stateOf (l.manager.status n)
  · exact fun d n => Deployer.outcome_stateOf (d.statuses n)

/-- What is asked about two pipelines: one has stages, of which one is still starting; of any other
name it takes a while until it is clear that there is no release. -/
def mixedSource (name : String) : Activity Unit Answer :=
  if name = "mixed" then
    return .answered (.ok [⟨"time", "mixed.time", .deployed⟩, ⟨"log", "mixed.log", .deploying⟩])
  else do
    Activity.pause 20
    return .answered (.error (.noRelease name))

/-- With a pool of no size there is one slot, and a name that comes twice is asked about once. -/
theorem poll_complete_mixed : ∃ qs c,
    Schedule ⟨0, .ofMillis 500⟩ (queries ⟨0, .ofMillis 500⟩ mixedSource)
      ["mixed", "gone", "mixed"] qs c ∧ Finished qs ∧ c.asked.Perm ["gone", "mixed"] ∧
    (c.result.get? "mixed").map (·.state) = some .deploying ∧
    c.result.get? "gone" = some .undeployed := by
  obtain ⟨hschedule, -, -, ⟨-, ⟨m, s', hm⟩, hgives⟩, -⟩ :=
    poll_complete ⟨0, .ofMillis 500⟩ mixedSource ["mixed", "gone", "mixed"] ()
  obtain ⟨qs, c, t, hfinished, rfl⟩ := hgives m s' hm
  refine ⟨qs, c, t, hfinished, ?_, ?_⟩
  · exact ((hschedule qs c t).2.1 hfinished).asked
  · have hrun : (Activity.run 3 (poll ⟨0, .ofMillis 500⟩ mixedSource ["mixed", "gone", "mixed"])
        ()).map (·.1.toList) = some [("gone", .undeployed), ("mixed", .ofStages
          [⟨"time", "mixed.time", .deployed⟩, ⟨"log", "mixed.log", .deploying⟩])] := by
      decide +kernel
    obtain ⟨⟨m, s⟩, hm', hl⟩ := Option.map_eq_some_iff.1 hrun
    obtain ⟨rfl, -⟩ := hm.unique ⟨3, hm'⟩
    rw [StringMap.get?, StringMap.get?, show c.result.entries = _ from hl]
    exact ⟨rfl, rfl⟩

end Poller

end StreamPipeline
