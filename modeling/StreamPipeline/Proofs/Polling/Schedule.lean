import StreamPipeline.Poller
import StreamPipeline.Proofs.Concurrent.Interleaving
import StreamPipeline.Proofs.Concurrent.Progress
import StreamPipeline.Proofs.StringMap

/-!
# Schedules of a poll

A poll has one query for each pipeline that it is asked about. A query waits until it is started,
which takes a free slot. It is underway until nothing is left of it, and then its status is learnt
(`Moves`). One query moves at a time (`Turn`), any of them, whatever others do to the state in the
meantime. So each order in which queries may start and finish is a `Schedule`.

What has been asked and learnt is always in order (`Schedule.orderly`): no pipeline is asked about
twice, the slots are kept to, and what is left of a query comes from that query.

* `Schedule.exists_turn`: queries with limits are never stuck.
* `not_forever`: no poll goes on for ever.
* `Schedule.exists_status`: **each pipeline has one entry, which is a status that its own query may
  give.**
* `exists_schedule`: queries may be started in any order, and give any statuses that they may give.
-/

namespace StreamPipeline.Poller

open Activity (Behind Becomes MayGive Limited)

variable {σ : Type}

/-- How far a query is. -/
inductive Phase (σ : Type)
  | waiting
  | underway (left : Activity σ PipelineStatus)
  | ended (status : PipelineStatus)

/-- The queries of a poll, by pipeline. -/
abbrev Queries (σ : Type) := List (String × Phase σ)

/-- What has happened in a poll, in order: whom it has asked about, and what it has learnt. -/
structure Course where
  asked : List String := []
  learnt : List (String × PipelineStatus) := []

namespace Phase

def isStarted : Phase σ → Bool
  | waiting => false
  | underway _ => true
  | ended _ => true

def isUnderway : Phase σ → Bool
  | waiting => false
  | underway _ => true
  | ended _ => false

def status? : Phase σ → Option PipelineStatus
  | waiting => none
  | underway _ => none
  | ended status => some status

@[simp] theorem isStarted_waiting : (waiting : Phase σ).isStarted = false := rfl

@[simp] theorem isUnderway_waiting : (waiting : Phase σ).isUnderway = false := rfl

@[simp] theorem status?_waiting : (waiting : Phase σ).status? = none := rfl

/-- The query may have come this far. -/
def StemsFrom (query : Activity σ PipelineStatus) : Phase σ → Prop
  | waiting => True
  | underway left => query.Becomes left
  | ended status => query.MayGive status

end Phase

/-- How many queries are in flight. -/
def inFlight (qs : Queries σ) : Nat := qs.countP (·.2.isUnderway)

/-- All queries have come to their ends. -/
def Finished (qs : Queries σ) : Prop := ∀ q ∈ qs, ∃ status, q.2 = .ended status

/-- The status of a query that has come to its end, with its pipeline. -/
def learnt? (q : String × Phase σ) : Option (String × PipelineStatus) := q.2.status?.map (q.1, ·)

/-- The names of a list, each of them once. -/
def distinct (names : List String) : List String := (StringMap.ofList (names.map (·, ()))).keys

/-- What a poll gives when it has learnt this. -/
def Course.result (c : Course) : StringMap PipelineStatus := .ofList c.learnt

/-- One thing happens to a query, which is started only where there is a `free` slot. -/
inductive Moves (query : String → Activity σ PipelineStatus) (free : Prop) :
    String × Phase σ → Course → String × Phase σ → Course → Prop
  | starts {name : String} {c : Course} (h : free) :
      Moves query free (name, .waiting) c (name, .underway (query name))
        { c with asked := c.asked ++ [name] }
  | acts {name : String} {left left' : Activity σ PipelineStatus} {c : Course}
      (h : left'.Behind left) :
      Moves query free (name, .underway left) c (name, .underway left') c
  | ends {name : String} {status : PipelineStatus} {c : Course} :
      Moves query free (name, .underway (.done status)) c (name, .ended status)
        { c with learnt := c.learnt ++ [(name, status)] }

/-- One of the queries moves. -/
def Turn (p : Poller) (query : String → Activity σ PipelineStatus) (qs : Queries σ) (c : Course)
    (qs' : Queries σ) (c' : Course) : Prop :=
  OneOf (Moves query (inFlight qs < max p.slots 1)) qs c qs' c'

/-- What a poll may come to. -/
inductive Schedule (p : Poller) (query : String → Activity σ PipelineStatus)
    (names : List String) : Queries σ → Course → Prop
  | start : Schedule p query names ((distinct names).map (·, .waiting)) {}
  | turn {qs qs' : Queries σ} {c c' : Course} (t : Schedule p query names qs c)
      (h : p.Turn query qs c qs' c') : Schedule p query names qs' c'

variable {p : Poller} {query : String → Activity σ PipelineStatus} {names : List String}
  {qs qs' : Queries σ} {c c' : Course}

theorem perm_distinct (names : List String) : (distinct names).Perm names.dedup := by
  have h := StringMap.perm_keys_ofList (names.map (·, ()))
  rwa [List.map_map, show ((·.1) ∘ fun n : String => (n, ())) = id from rfl, List.map_id] at h

theorem nodup_distinct (names : List String) : (distinct names).Nodup := StringMap.nodup_keys _

theorem mem_distinct {n : String} : n ∈ distinct names ↔ n ∈ names :=
  (perm_distinct names).mem_iff.trans List.mem_dedup

theorem inFlight_eq_zero (h : ∀ q ∈ qs, q.2.isUnderway = false) : inFlight qs = 0 :=
  List.countP_eq_zero.2 fun q hq => by simp [h q hq]

@[simp] theorem inFlight_waiting {n : String} : inFlight ((n, .waiting) :: qs) = inFlight qs :=
  List.countP_cons_of_neg (by simp)

@[simp] theorem inFlight_underway {n : String} {left : Activity σ PipelineStatus} :
    inFlight ((n, .underway left) :: qs) = inFlight qs + 1 :=
  List.countP_cons_of_pos rfl

@[simp] theorem inFlight_ended {n : String} {status : PipelineStatus} :
    inFlight ((n, .ended status) :: qs) = inFlight qs :=
  List.countP_cons_of_neg (by simp [Phase.isUnderway])

theorem inFlight_perm (h : qs.Perm qs') : inFlight qs = inFlight qs' := h.countP_eq _

/-! ### What holds on the way -/

/-- A poll is in order: it has the queries that it should have, what it has asked and learnt is
what these have come to, no more queries are in flight than there are slots, and what is left of a
query comes from that query. -/
structure Orderly (p : Poller) (query : String → Activity σ PipelineStatus) (names : List String)
    (qs : Queries σ) (c : Course) : Prop where
  names : qs.map (·.1) = distinct names
  asked : c.asked.Perm ((qs.filter (·.2.isStarted)).map (·.1))
  learnt : c.learnt.Perm (qs.filterMap learnt?)
  inFlight : inFlight qs ≤ max p.slots 1
  stems : ∀ q ∈ qs, q.2.StemsFrom (query q.1)

theorem Orderly.turn (h : Orderly p query names qs c) (hturn : p.Turn query qs c qs' c') :
    Orderly p query names qs' c' := by
  have hnames : qs'.map (·.1) = distinct names :=
    (hturn.map_eq fun _ _ _ _ hmove => by cases hmove <;> rfl).trans h.names
  obtain ⟨q, q', rest, hqs, hqs', hmove⟩ := OneOf.perm hturn
  have hasked := h.asked.trans ((hqs.filter _).map _)
  have hasked' := ((hqs'.filter (·.2.isStarted)).map (·.1)).symm
  have hlearnt := h.learnt.trans (hqs.filterMap _)
  have hlearnt' := (hqs'.filterMap learnt?).symm
  have hflight := inFlight_perm hqs ▸ h.inFlight
  have hstems := h.stems q (hqs.mem_iff.2 (.head _))
  -- only the query that moves has to be looked at
  have hstems' (hq' : q'.2.StemsFrom (query q'.1)) : ∀ r ∈ qs', r.2.StemsFrom (query r.1) := by
    intro r hr
    rcases List.mem_cons.1 (hqs'.mem_iff.1 hr) with rfl | hr
    · exact hq'
    · exact h.stems r (hqs.mem_iff.2 (.tail _ hr))
  cases hmove with
  | starts hfree =>
      refine ⟨hnames, ?_, hlearnt.trans hlearnt', ?_, hstems' (.refl _)⟩
      · exact (List.perm_append_singleton _ _).trans ((hasked.cons _).trans hasked')
      · rw [inFlight_perm hqs, inFlight_waiting] at hfree
        rwa [inFlight_perm hqs', inFlight_underway]
  | acts hleft =>
      refine ⟨hnames, hasked.trans hasked', hlearnt.trans hlearnt', ?_,
        hstems' (Becomes.tail hstems hleft)⟩
      rw [inFlight_underway] at hflight
      rwa [inFlight_perm hqs', inFlight_underway]
  | ends =>
      refine ⟨hnames, hasked.trans hasked', ?_, ?_, hstems' hstems⟩
      · exact (List.perm_append_singleton _ _).trans ((hlearnt.cons _).trans hlearnt')
      · rw [inFlight_underway] at hflight
        rw [inFlight_perm hqs', inFlight_ended]
        exact Nat.le_of_succ_le hflight

/-- **A poll is always in order.** -/
theorem Schedule.orderly (t : Schedule p query names qs c) : Orderly p query names qs c := by
  induction t with
  | start =>
      refine ⟨by simp [Function.comp_def], ?_, ?_, ?_, ?_⟩
      · simp
      · simp [learnt?]
      · rw [inFlight_eq_zero (by simp)]
        exact Nat.zero_le _
      · intro q hq
        obtain ⟨n, -, rfl⟩ := List.mem_map.1 hq
        trivial
  | turn _ h ih => exact ih.turn h

/-- No pipeline is asked about twice, and none that is not among the names. -/
theorem Orderly.nodup_asked (h : Orderly p query names qs c) :
    c.asked.Nodup ∧ ∀ n ∈ c.asked, n ∈ names := by
  have hsub : ((qs.filter (·.2.isStarted)).map (·.1)).Sublist (distinct names) :=
    h.names ▸ List.filter_sublist.map _
  refine ⟨h.asked.nodup_iff.2 (hsub.nodup (nodup_distinct names)), fun n hn => ?_⟩
  exact mem_distinct.1 (hsub.subset (h.asked.mem_iff.1 hn))

/-! ### No poll is stuck or goes on for ever -/

/-- Queries with limits can move until all of them have come to their ends. -/
theorem Schedule.exists_turn [Nonempty σ] (hquery : ∀ n, (query n).Limited)
    (t : Schedule p query names qs c) : Finished qs ∨ ∃ qs' c', p.Turn query qs c qs' c' := by
  by_cases hunderway : ∃ q ∈ qs, q.2.isUnderway = true
  · obtain ⟨⟨n, ph⟩, hq, hph⟩ := hunderway
    cases ph with
    | waiting | ended => cases hph
    | underway left =>
        have hlimited : left.Limited := (hquery n).becomes (t.orderly.stems _ hq)
        obtain ⟨q', c', hmove⟩ : ∃ q' c', Moves query (inFlight qs < max p.slots 1)
            (n, .underway left) c q' c' := by
          rcases hlimited.exists_behind with ⟨status, rfl⟩ | ⟨left', hleft⟩
          · exact ⟨_, _, .ends⟩
          · exact ⟨_, _, .acts hleft⟩
        obtain ⟨qs', h⟩ := OneOf.exists_of_mem hq hmove
        exact .inr ⟨qs', c', h⟩
  · have hnone : ∀ q ∈ qs, q.2.isUnderway = false := fun q hq => by
      simpa using fun h => hunderway ⟨q, hq, h⟩
    by_cases hwaiting : ∃ q ∈ qs, q.2.isStarted = false
    · obtain ⟨⟨n, ph⟩, hq, hph⟩ := hwaiting
      cases ph with
      | underway | ended => cases hph
      | waiting =>
          have hfree : inFlight qs < max p.slots 1 := by
            rw [inFlight_eq_zero hnone]
            exact Nat.lt_of_lt_of_le Nat.zero_lt_one (Nat.le_max_right ..)
          have hmove : Moves query (inFlight qs < max p.slots 1) (n, .waiting) c _ _ :=
            .starts hfree
          obtain ⟨qs', h⟩ := OneOf.exists_of_mem hq hmove
          exact .inr ⟨qs', _, h⟩
    · refine .inl fun q hq => ?_
      obtain ⟨n, ph⟩ := q
      cases ph with
      | waiting => exact absurd ⟨_, hq, rfl⟩ hwaiting
      | underway left => cases hnone _ hq
      | ended status => exact ⟨status, rfl⟩

/-- The query `q'` may be left of `q` when it has moved. -/
def Later (query : String → Activity σ PipelineStatus) (q' q : String × Phase σ) : Prop :=
  ∃ c c', Moves query True q c q' c'

theorem acc_ended (n : String) (status : PipelineStatus) :
    Acc (Later query) (n, (.ended status : Phase σ)) :=
  ⟨_, fun _ ⟨_, _, h⟩ => by cases h⟩

theorem acc_underway (n : String) (left : Activity σ PipelineStatus) :
    Acc (Later query) (n, .underway left) := by
  induction Activity.acc_behind left with
  | intro left _ ih =>
      refine ⟨_, fun q' ⟨c, c', h⟩ => ?_⟩
      cases h with
      | acts hleft => exact ih _ hleft
      | ends => exact acc_ended n _

/-- Each move of a query leaves less to be done. -/
theorem acc_later (q : String × Phase σ) : Acc (Later query) q := by
  obtain ⟨n, ph⟩ := q
  cases ph with
  | ended status => exact acc_ended n status
  | underway left => exact acc_underway n left
  | waiting =>
      refine ⟨_, fun q' ⟨c, c', h⟩ => ?_⟩
      cases h with
      | starts => exact acc_underway n _

theorem Moves.imp {free free' : Prop} (hfree : free → free') {q q' : String × Phase σ}
    (h : Moves query free q c q' c') : Moves query free' q c q' c' := by
  cases h with
  | starts h => exact .starts (hfree h)
  | acts h => exact .acts h
  | ends => exact .ends

theorem wellFounded_turn (p : Poller) (query : String → Activity σ PipelineStatus) :
    WellFounded fun y x : Queries σ × Course => p.Turn query x.1 x.2 y.1 y.2 :=
  Subrelation.wf (fun h => h.imp fun _ _ _ _ hmove => hmove.imp fun _ => trivial)
    (OneOf.wellFounded ⟨acc_later⟩)

/-- **No poll goes on for ever.** -/
theorem not_forever (run : ℕ → Queries σ × Course) :
    ¬ ∀ n, p.Turn query (run n).1 (run n).2 (run (n + 1)).1 (run (n + 1)).2 :=
  fun h =>
  (wellFounded_iff_isEmpty_descending_chain.1 (wellFounded_turn p query)).false ⟨run, h⟩

/-! ### What comes of a poll -/

/-- A poll that has come to its end has learnt one status from each query. -/
theorem map_learnt_of_finished (h : Finished qs) :
    (qs.filterMap learnt?).map (·.1) = qs.map (·.1) := by
  induction qs with
  | nil => rfl
  | cons q qs ih =>
      obtain ⟨n, ph⟩ := q
      obtain ⟨status, rfl⟩ : ∃ status, ph = .ended status := h _ (.head _)
      exact congrArg (n :: ·) (ih fun r hr => h r (.tail _ hr))

theorem filter_isStarted_of_finished (h : Finished qs) : qs.filter (·.2.isStarted) = qs :=
  List.filter_eq_self.2 fun q hq => by
    obtain ⟨status, hstatus⟩ := h q hq
    rw [hstatus]
    rfl

/-- At its end a poll has asked about each pipeline once, and learnt its status once. -/
theorem Orderly.perm_of_finished (h : Orderly p query names qs c) (hfinished : Finished qs) :
    c.asked.Perm names.dedup ∧ (c.learnt.map (·.1)).Perm names.dedup := by
  have hasked := h.asked
  have hlearnt := h.learnt.map (·.1)
  rw [filter_isStarted_of_finished hfinished, h.names] at hasked
  rw [map_learnt_of_finished hfinished, h.names] at hlearnt
  exact ⟨hasked.trans (perm_distinct names), hlearnt.trans (perm_distinct names)⟩

/-- The order in which statuses are learnt does not matter. -/
theorem Schedule.result_eq (t : Schedule p query names qs c) (hfinished : Finished qs)
    {l : List (String × PipelineStatus)} (hl : l.Perm c.learnt) : .ofList l = c.result := by
  have hnodup : (l.map (·.1)).Nodup := by
    have hperm := (hl.map (·.1)).trans (t.orderly.perm_of_finished hfinished).2
    exact hperm.nodup_iff.2 (List.nodup_dedup names)
  exact StringMap.ofList_perm hl hnodup

/-- **A poll that has come to its end has one entry for each pipeline.** -/
theorem Schedule.perm_keys (t : Schedule p query names qs c) (hfinished : Finished qs) :
    c.result.keys.Perm names.dedup := by
  have hlearnt := (t.orderly.perm_of_finished hfinished).2
  have hkeys := StringMap.perm_keys_ofList c.learnt
  rw [(hlearnt.nodup_iff.2 (List.nodup_dedup names)).dedup] at hkeys
  exact hkeys.trans hlearnt

/-- **Each entry is a status that the pipeline's own query may give.** -/
theorem Schedule.exists_status (t : Schedule p query names qs c) (hfinished : Finished qs)
    {n : String} (hn : n ∈ names) :
    ∃ status, (n, .ended status) ∈ qs ∧ (query n).MayGive status ∧
      c.result.get? n = some status := by
  have ho := t.orderly
  obtain ⟨⟨_, ph⟩, hq, rfl⟩ : ∃ q ∈ qs, q.1 = n :=
    List.mem_map.1 (ho.names ▸ mem_distinct.2 hn)
  obtain ⟨status, rfl⟩ : ∃ status, ph = .ended status := hfinished _ hq
  refine ⟨status, hq, ho.stems _ hq, ?_⟩
  have hmem : (_, status) ∈ c.learnt :=
    ho.learnt.mem_iff.2 (List.mem_filterMap.2 ⟨_, hq, rfl⟩)
  have hnodup := (ho.perm_of_finished hfinished).2.nodup_iff.2 (List.nodup_dedup names)
  exact StringMap.get?_ofList_of_mem hnodup hmem

/-! ### Every order is a schedule -/

variable {before after : Queries σ} {n : String}

theorem Schedule.starts (t : Schedule p query names (before ++ (n, .waiting) :: after) c)
    (hfree : inFlight (before ++ (n, .waiting) :: after) < max p.slots 1) :
    Schedule p query names (before ++ (n, .underway (query n)) :: after)
      { c with asked := c.asked ++ [n] } :=
  t.turn (.between (.starts hfree) before after)

theorem Schedule.becomes {left left' : Activity σ PipelineStatus}
    (t : Schedule p query names (before ++ (n, .underway left) :: after) c)
    (h : left.Becomes left') :
    Schedule p query names (before ++ (n, .underway left') :: after) c := by
  induction h with
  | refl => exact t
  | tail _ hstep ih => exact ih.turn (.between (.acts hstep) before after)

theorem Schedule.ends {status : PipelineStatus}
    (t : Schedule p query names (before ++ (n, .underway (.done status)) :: after) c) :
    Schedule p query names (before ++ (n, .ended status) :: after)
      { c with learnt := c.learnt ++ [(n, status)] } :=
  t.turn (.between .ends before after)

/-- Those that have been asked have come to their ends, and the others wait. -/
def settled (status : String → PipelineStatus) (asked : List String) (n : String) :
    String × Phase σ :=
  (n, if n ∈ asked then .ended (status n) else .waiting)

theorem inFlight_settled (status : String → PipelineStatus) (asked l : List String) :
    inFlight (l.map (settled status asked) : Queries σ) = 0 := by
  refine inFlight_eq_zero fun q hq => ?_
  obtain ⟨n, -, rfl⟩ := List.mem_map.1 hq
  simp only [settled]
  split <;> rfl

theorem map_settled_append {status : String → PipelineStatus} {asked l : List String}
    (h : n ∉ l) : (l.map (settled status (asked ++ [n])) : Queries σ) =
      l.map (settled status asked) :=
  List.map_congr_left fun m hm => by
    have hne : m ≠ n := fun heq => h (heq ▸ hm)
    simp [settled, hne]

/-- A pipeline that waits can be asked about when no query is underway. -/
theorem Schedule.asks {status : String → PipelineStatus} {asked : List String}
    {learnt : List (String × PipelineStatus)}
    (t : Schedule p query names ((distinct names).map (settled status asked)) ⟨asked, learnt⟩)
    (hn : n ∈ names) (hnew : n ∉ asked) (h : (query n).MayGive (status n)) :
    Schedule p query names ((distinct names).map (settled status (asked ++ [n])))
      ⟨asked ++ [n], learnt ++ [(n, status n)]⟩ := by
  have hfree : inFlight ((distinct names).map (settled status asked) : Queries σ) <
      max p.slots 1 := by
    rw [inFlight_settled]
    exact Nat.lt_of_lt_of_le Nat.zero_lt_one (Nat.le_max_right ..)
  obtain ⟨before, after, hnames⟩ := List.append_of_mem (mem_distinct.2 hn)
  have hother : n ∉ before ∧ n ∉ after := by
    have hnodup := hnames ▸ nodup_distinct names
    rw [List.nodup_middle, List.nodup_cons, List.mem_append, not_or] at hnodup
    exact hnodup.1
  rw [hnames, List.map_append, List.map_cons] at t hfree ⊢
  rw [map_settled_append hother.1, map_settled_append hother.2]
  have hwaits : (settled status asked n : String × Phase σ) = (n, .waiting) := by
    simp [settled, hnew]
  have hends : (settled status (asked ++ [n]) n : String × Phase σ) = (n, .ended (status n)) := by
    simp [settled]
  rw [hwaits] at t hfree
  rw [hends]
  exact ((t.starts hfree).becomes h).ends

/-- **Queries may be started in any order, and give whatever statuses they may give.** -/
theorem exists_schedule (p : Poller) {status : String → PipelineStatus} {order : List String}
    (horder : order.Perm names.dedup) (h : ∀ n ∈ names, (query n).MayGive (status n)) :
    Schedule p query names ((distinct names).map fun n => (n, .ended (status n)))
      ⟨order, order.map fun n => (n, status n)⟩ := by
  have hnodup : order.Nodup := horder.nodup_iff.2 (List.nodup_dedup names)
  have hmem : ∀ n, n ∈ order ↔ n ∈ names := fun n => horder.mem_iff.trans List.mem_dedup
  have hall : ∀ asked rest, asked ++ rest = order →
      Schedule p query names ((distinct names).map (settled status asked))
        ⟨asked, asked.map fun n => (n, status n)⟩ := by
    intro asked
    induction asked using List.reverseRecOn with
    | nil => exact fun _ _ => .start
    | append_singleton asked n ih =>
        intro rest hrest
        have hnew : n ∉ asked := by
          have hasked := (List.nodup_append.1 (hrest ▸ hnodup)).1
          rw [List.nodup_append] at hasked
          exact fun hn => hasked.2.2 n hn n (.head _) rfl
        have hn : n ∈ names := (hmem n).1 (hrest ▸ by simp)
        rw [List.map_append]
        exact (ih ([n] ++ rest) (by rw [← List.append_assoc, hrest])).asks hn hnew (h n hn)
  have hsettled := hall order [] (List.append_nil order)
  have hended : ((distinct names).map (settled status order) : Queries σ) =
      (distinct names).map fun n => (n, .ended (status n)) :=
    List.map_congr_left fun n hn => by simp [settled, (hmem n).2 (mem_distinct.1 hn)]
  exact hended ▸ hsettled

end StreamPipeline.Poller
