import StreamPipeline.Proofs.Concurrent.Timed
import StreamPipeline.Proofs.Polling.Schedule

/-!
# Polls in time

The pool of a poll gives its slots to the first queries that have not come to their ends. So the
queries that are underway are among these (`Fits`), and whenever something happens in the pool, one
query moves as in a schedule (`Fits.advances`). **Whatever becomes of a poll is what a schedule has
come to** (`exists_schedule_of_steps`), and a poll with limits comes to its end
(`exists_gives_pollWith`).
-/

namespace StreamPipeline.Poller

open Activity (Advances AdvancesAll Next Limited LimitedAll results?)
open Relation (ReflTransGen)

variable {σ : Type} {p : Poller} {query : String → Activity σ PipelineStatus}
  {names : List String} {qs qs' : Queries σ} {c : Course}

/-- What is left of a query. -/
def Phase.left (query : Activity σ PipelineStatus) : Phase σ → Activity σ PipelineStatus
  | waiting => query
  | underway left => left
  | ended status => .done status

/-- How far a query is that was started. -/
def Phase.of (left : Activity σ PipelineStatus) : Phase σ :=
  match left.result? with
  | some status => .ended status
  | none => .underway left

/-- The part of a poll that a query is. -/
def part (query : String → Activity σ PipelineStatus) (q : String × Phase σ) :
    Activity σ (String × PipelineStatus) :=
  (q.2.left (query q.1)).bind fun status => .done (q.1, status)

/-- The queries that are underway are among the first ones that have not come to their ends, as
many as there are slots, and something is left of each of them. -/
inductive Fits : Nat → Queries σ → Prop
  | nil {slots : Nat} : Fits slots []
  | ended {slots : Nat} {n : String} {status : PipelineStatus} {qs : Queries σ}
      (h : Fits slots qs) : Fits slots ((n, .ended status) :: qs)
  | waiting {slots : Nat} {n : String} {qs : Queries σ} (h : Fits (slots - 1) qs) :
      Fits slots ((n, .waiting) :: qs)
  | underway {slots : Nat} {n : String} {left : Activity σ PipelineStatus} {qs : Queries σ}
      (hleft : left.result? = none) (h : Fits slots qs) :
      Fits (slots + 1) ((n, .underway left) :: qs)

theorem Fits.mono {slots : Nat} (h : Fits slots qs) : Fits (slots + 1) qs := by
  induction h with
  | nil => exact .nil
  | ended _ ih => exact .ended ih
  | @waiting slots n qs h ih =>
      cases slots with
      | zero => exact .waiting h
      | succ slots => exact .waiting ih
  | underway hleft _ ih => exact .underway hleft ih

theorem Fits.inFlight_le {slots : Nat} (h : Fits slots qs) : inFlight qs ≤ slots := by
  induction h with
  | nil => exact Nat.zero_le _
  | ended _ ih => rwa [inFlight_ended]
  | waiting _ ih =>
      rw [inFlight_waiting]
      exact Nat.le_trans ih (Nat.sub_le ..)
  | underway _ _ ih =>
      rw [inFlight_underway]
      exact Nat.succ_le_succ ih

theorem fits_waiting (slots : Nat) (names : List String) :
    Fits slots (names.map (·, (.waiting : Phase σ))) := by
  induction names generalizing slots with
  | nil => exact .nil
  | cons n names ih => exact .waiting (ih _)

/-- One thing happens to a query, which is started before that if it waits. -/
inductive Shifts (query : String → Activity σ PipelineStatus) (free : Prop) :
    String × Phase σ → σ → String × Phase σ → σ → Prop
  | starts {n : String} {left : Activity σ PipelineStatus} {s s' : σ} (hfree : free)
      (h : (query n).Advances s left s') : Shifts query free (n, .waiting) s (n, .of left) s'
  | acts {n : String} {left left' : Activity σ PipelineStatus} {s s' : σ}
      (h : left.Advances s left' s') :
      Shifts query free (n, .underway left) s (n, .of left') s'

theorem Shifts.imp {free free' : Prop} (hfree : free → free') {q q' : String × Phase σ} {s s' : σ}
    (h : Shifts query free q s q' s') : Shifts query free' q s q' s' := by
  cases h with
  | starts h hleft => exact .starts (hfree h) hleft
  | acts hleft => exact .acts hleft

theorem left_of (query left : Activity σ PipelineStatus) : (Phase.of left).left query = left := by
  unfold Phase.of
  split
  · next h => exact (Activity.eq_done_of_result? h).symm
  · rfl

theorem Fits.of {slots : Nat} (h : Fits slots qs) (n : String)
    (left : Activity σ PipelineStatus) : Fits (slots + 1) ((n, .of left) :: qs) := by
  unfold Phase.of
  split
  · exact .ended h.mono
  · next hleft => exact .underway hleft h

theorem result?_part_waiting (hquery : ∀ n, (query n).result? = none) (n : String) :
    (part query (n, .waiting)).result? = none :=
  Activity.result?_bind (hquery n) _

theorem result?_part_underway {n : String} {left : Activity σ PipelineStatus}
    (h : left.result? = none) : (part query (n, .underway left)).result? = none :=
  Activity.result?_bind h _

/-- What happens to a part of the poll happens to a query. -/
theorem advances_part {q : String × Phase σ} {s s' : σ} {part' : Activity σ _}
    (h : (part query q).Advances s part' s') :
    ∃ left, (q.2.left (query q.1)).Advances s left s' ∧ part' = part query (q.1, .of left) := by
  rcases Activity.advances_bind h with ⟨status, hstatus⟩ | ⟨left, rfl, hleft⟩
  · rw [part, hstatus] at h
    cases h
  · refine ⟨left, hleft, ?_⟩
    rw [part, left_of]

/-- **What happens in the pool of a poll happens to one of the queries**, which is underway or has a
free slot. -/
theorem Fits.advances (hquery : ∀ n, (query n).result? = none) {slots : Nat} (h : Fits slots qs)
    {parts : Activities σ _} {s s' : σ}
    (hstep : AdvancesAll slots (.ofList (qs.map (part query))) s parts s') :
    ∃ qs', parts = .ofList (qs'.map (part query)) ∧ Fits slots qs' ∧
      OneOf (Shifts query (inFlight qs < slots)) qs s qs' s' := by
  induction h generalizing parts with
  | nil => cases hstep
  | @ended slots n status qs h ih =>
      rw [List.map_cons, Activities.ofList] at hstep
      cases hstep with
      | head hhead => cases (hhead : (Activity.done (n, status)).Advances _ _ _)
      | tail htail =>
          obtain ⟨qs', rfl, hfits, hqs⟩ := ih htail
          exact ⟨_, rfl, .ended hfits, .tail (by rwa [inFlight_ended])⟩
  | @waiting slots n qs h ih =>
      rw [List.map_cons, Activities.ofList] at hstep
      cases hstep with
      | head hhead =>
          obtain ⟨left, hleft, rfl⟩ := advances_part hhead
          refine ⟨(n, .of left) :: qs, rfl, h.of n left, .head (.starts ?_ hleft)⟩
          rw [inFlight_waiting]
          exact Nat.lt_succ_of_le h.inFlight_le
      | tail htail =>
          rw [result?_part_waiting hquery n] at htail
          obtain ⟨qs', rfl, hfits, hqs⟩ := ih htail
          refine ⟨(n, .waiting) :: qs', rfl, .waiting hfits, .tail (hqs.imp ?_)⟩
          intro _ _ _ _ hshift
          rw [inFlight_waiting]
          exact hshift.imp Nat.lt_succ_of_lt
  | @underway slots n left qs hleft h ih =>
      rw [List.map_cons, Activities.ofList] at hstep
      cases hstep with
      | head hhead =>
          obtain ⟨left', hleft', rfl⟩ := advances_part hhead
          exact ⟨(n, .of left') :: qs, rfl, h.of n left', .head (.acts hleft')⟩
      | tail htail =>
          rw [result?_part_underway hleft] at htail
          obtain ⟨qs', rfl, hfits, hqs⟩ := ih htail
          refine ⟨(n, .underway left) :: qs', rfl, .underway hleft hfits, .tail (hqs.imp ?_)⟩
          intro _ _ _ _ hshift
          rw [inFlight_underway]
          exact hshift.imp Nat.succ_lt_succ

/-! ### Runs -/

theorem Schedule.settles {before after : Queries σ} {n : String} {left : Activity σ PipelineStatus}
    (t : Schedule p query names (before ++ (n, .underway left) :: after) c) :
    ∃ c', Schedule p query names (before ++ (n, .of left) :: after) c' := by
  unfold Phase.of
  split
  · next hleft => exact ⟨_, (Activity.eq_done_of_result? hleft ▸ t).ends⟩
  · exact ⟨c, t⟩

theorem Schedule.shifts {s s' : σ} (t : Schedule p query names qs c)
    (h : OneOf (Shifts query (inFlight qs < max p.slots 1)) qs s qs' s') :
    ∃ c', Schedule p query names qs' c' := by
  obtain ⟨before, q, q', after, rfl, rfl, hshift⟩ := h.exists_between
  cases hshift with
  | starts hfree hleft =>
      exact ((t.starts hfree).becomes (.tail (.refl _) ⟨s, s', hleft⟩)).settles
  | acts hleft => exact (t.becomes (.tail (.refl _) ⟨s, s', hleft⟩)).settles

/-- When all parts of the poll have their results, all queries have come to their ends. -/
theorem Fits.eq_of_results? (hquery : ∀ n, (query n).result? = none) {slots : Nat}
    (h : Fits slots qs) {l : List (String × PipelineStatus)}
    (hl : results? (.ofList (qs.map (part query))) = some l) :
    qs = l.map fun e => (e.1, .ended e.2) := by
  induction h generalizing l with
  | nil =>
      cases hl
      rfl
  | @ended slots n status qs h ih =>
      obtain ⟨e, rest, he, hrest, rfl⟩ := Activity.results?_cons_iff.1 hl
      obtain rfl : (n, status) = e := Option.some.inj he
      exact congrArg ((n, .ended status) :: ·) (ih hrest)
  | @waiting slots n qs =>
      obtain ⟨e, rest, he, -, -⟩ := Activity.results?_cons_iff.1 hl
      cases (result?_part_waiting hquery n).symm.trans he
  | underway hleft =>
      obtain ⟨e, rest, he, -, -⟩ := Activity.results?_cons_iff.1 hl
      cases (result?_part_underway hleft).symm.trans he

/-- What is left of a poll that has come so far. -/
def polling (p : Poller) (query : String → Activity σ PipelineStatus) (qs : Queries σ) :
    Activity σ (StringMap PipelineStatus) :=
  .pool (max p.slots 1) (.ofList (qs.map (part query))) fun l => .done (StringMap.ofList l)

/-- At its start all queries of a poll wait. -/
theorem pollWith_eq (p : Poller) (query : String → Activity σ PipelineStatus)
    (names : List String) :
    p.pollWith query names = p.polling query ((distinct names).map (·, .waiting)) := by
  rw [polling, List.map_map]
  rfl

/-- A poll whose parts all have their results gives what it has learnt. -/
theorem Schedule.result_of_results? (hquery : ∀ n, (query n).result? = none)
    (t : Schedule p query names qs c) {slots : Nat} (hfits : Fits slots qs)
    {l : List (String × PipelineStatus)}
    (hl : results? (.ofList (qs.map (part query))) = some l) :
    Finished qs ∧ .ofList l = c.result := by
  have hqs := hfits.eq_of_results? hquery hl
  have hfinished : Finished qs := by
    rw [hqs]
    intro q hq
    obtain ⟨e, -, rfl⟩ := List.mem_map.1 hq
    exact ⟨e.2, rfl⟩
  have hlearnt : qs.filterMap learnt? = l := by
    rw [hqs, List.filterMap_map]
    exact List.filterMap_some
  exact ⟨hfinished, t.result_eq hfinished (hlearnt ▸ t.orderly.learnt.symm)⟩

/-- Whatever becomes of a poll is what a schedule has come to. -/
theorem exists_schedule_of_steps (hquery : ∀ n, (query n).result? = none) {s : σ}
    {y : Activity σ (StringMap PipelineStatus) × σ}
    (h : ReflTransGen Next (p.pollWith query names, s) y) :
    ∃ qs c, Schedule p query names qs c ∧
      (y.1 = p.polling query qs ∧ Fits (max p.slots 1) qs ∨
        y.1 = .done c.result ∧ Finished qs) := by
  induction h with
  | refl => exact ⟨_, _, .start, .inl ⟨pollWith_eq .., fits_waiting _ _⟩⟩
  | @tail y z _ hstep ih =>
      obtain ⟨q, s₁⟩ := y
      obtain ⟨q', s₂⟩ := z
      obtain ⟨qs, c, t, ⟨rfl, hfits⟩ | ⟨rfl, -⟩⟩ := ih
      · cases (hstep : (p.polling query qs).Advances s₁ q' s₂) with
        | among hparts =>
            obtain ⟨qs', rfl, hfits', hshift⟩ := hfits.advances hquery hparts
            obtain ⟨c', t'⟩ := t.shifts hshift
            exact ⟨qs', c', t', .inl ⟨rfl, hfits'⟩⟩
        | joined hl =>
            obtain ⟨hfinished, hresult⟩ := t.result_of_results? hquery hfits hl
            exact ⟨qs, c, t, .inr ⟨congrArg Activity.done hresult, hfinished⟩⟩
      · cases (hstep : (Activity.done c.result).Advances s₁ q' s₂)

/-- **What a poll gives is the result of a schedule.** -/
theorem exists_schedule_of_gives (hquery : ∀ n, (query n).result? = none) {s s' : σ}
    {m : StringMap PipelineStatus} (h : (p.pollWith query names).Gives s m s') :
    ∃ qs c, Schedule p query names qs c ∧ Finished qs ∧ m = c.result := by
  obtain ⟨n, hn⟩ := h
  obtain ⟨qs, c, t, ⟨hm, -⟩ | ⟨hm, hfinished⟩⟩ :=
    exists_schedule_of_steps hquery (Activity.steps_of_run hn)
  · cases hm
  · cases hm
    exact ⟨qs, c, t, hfinished, rfl⟩

/-- **A poll with limits comes to its end.** -/
theorem exists_gives_pollWith (p : Poller) (hquery : ∀ n, (query n).Limited)
    (names : List String) (s : σ) : ∃ m s', (p.pollWith query names).Gives s m s' := by
  rw [pollWith_eq]
  refine LimitedAll.exists_gives ?_ (Nat.lt_of_lt_of_le Nat.zero_lt_one (Nat.le_max_right ..)) _ s
  induction distinct names with
  | nil => exact .nil
  | cons n names ih => exact .cons ((hquery n).bind fun _ => .done _) ih

end StreamPipeline.Poller
