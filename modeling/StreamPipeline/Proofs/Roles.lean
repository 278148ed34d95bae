import StreamPipeline.Proofs.Typing
import StreamPipeline.Proofs.Wiring

/-!
# Roles of whole pipelines

A pipeline has no roles just if a stage that another one follows is bound to nothing, and then the
first such stage is at fault (`Definition.roles_eq_error_iff`). The role of a stage in a pipeline of
several is that of its place: data comes in at the first, goes out at the last, and passes through
those in between (`Definition.roleAt_first`, `Definition.roleAt_between`, `Definition.roleAt_last`).

**The roles of every definition** are said by place in `Definition.roles_by_place`; a definition
that is built has them, since each of its stages that another one follows publishes somewhere.
-/

namespace StreamPipeline

/-- The stage is bound to nothing at all. -/
def Stage.Unbound (s : Stage) : Prop := s.hasInput = false ∧ s.hasOutput = false

namespace Definition

variable {d : Definition} {i : Nat} {s : Stage} {role : Role} {e : Failure}

/-! ### The stage at fault -/

theorem untypedAt?_eq_some_iff : d.untypedAt? i = some e ↔
    ∃ s, d.stages[i]? = some s ∧ i + 1 < d.stages.length ∧ s.Unbound ∧
      e = .untyped d.name s.label := by
  unfold untypedAt? Stage.Unbound
  rw [Option.bind_eq_some_iff]
  refine exists_congr fun s => and_congr_right fun _ => ?_
  rw [Option.ite_none_right_eq_some, Option.some_inj, and_assoc, eq_comm (a := e)]

theorem roles_eq_error_iff : d.roles = .error e ↔ ∃ i, Except.Foremost d.untypedAt? i e := by
  refine ⟨fun h => ?_, fun ⟨_, hfirst⟩ => roles_eq_error hfirst⟩
  rcases Except.fine_or_foremost d.untypedAt? with hfine | ⟨i, e', hfirst⟩
  · obtain ⟨roles, hroles⟩ := exists_roles hfine
    cases h.symm.trans hroles
  · obtain rfl := Except.error.inj ((roles_eq_error hfirst).symm.trans h)
    exact ⟨i, hfirst⟩

theorem foremost_untypedAt?_iff : Except.Foremost d.untypedAt? i e ↔
    ∃ s, d.stages[i]? = some s ∧ i + 1 < d.stages.length ∧ s.Unbound ∧
      (∀ j t, j < i → d.stages[j]? = some t → ¬ t.Unbound) ∧ e = .untyped d.name s.label := by
  constructor
  · rintro ⟨here, before⟩
    obtain ⟨s, hs, hi, hunbound, rfl⟩ := untypedAt?_eq_some_iff.1 here
    refine ⟨s, hs, hi, hunbound, fun j t hj ht hbefore => ?_, rfl⟩
    have hfault := untypedAt?_eq_some_iff.2 ⟨t, ht, by omega, hbefore, rfl⟩
    cases (before j hj).symm.trans hfault
  · rintro ⟨s, hs, hi, hunbound, hbefore, rfl⟩
    refine ⟨untypedAt?_eq_some_iff.2 ⟨s, hs, hi, hunbound, rfl⟩, fun j hj => ?_⟩
    refine Option.eq_none_iff_forall_not_mem.2 fun e he => ?_
    obtain ⟨t, ht, -, hunbound, -⟩ := untypedAt?_eq_some_iff.1 he
    exact hbefore j t hj ht hunbound

/-! ### Roles of places -/

theorem roleAt_first (hlength : 2 ≤ d.stages.length) (h : d.roleAt 0 s = .ok role) :
    role = if s.hasInput then .processor else .source := by
  have hfollowed : d.stages.length - (0 + 1) ≠ 0 := by omega
  rw [roleAt, Stage.role, if_neg hfollowed] at h
  split at h
  · cases h
  · simpa using (Except.ok.inj h).symm

theorem roleAt_between (hfirst : 0 < i) (hlast : i + 1 < d.stages.length)
    (h : d.roleAt i s = .ok role) : role = .processor := by
  have hfollowed : d.stages.length - (i + 1) ≠ 0 := by omega
  rw [roleAt, Stage.role, if_neg hfollowed, decide_eq_true hfirst] at h
  split at h
  · cases h
  · simpa using (Except.ok.inj h).symm

theorem roleAt_last (hfirst : 0 < i) (hlast : i + 1 = d.stages.length)
    (h : d.roleAt i s = .ok role) : role = if s.hasOutput then .processor else .sink := by
  have hunfollowed : d.stages.length - (i + 1) = 0 := by omega
  rw [roleAt, Stage.role, if_pos hunfollowed, decide_eq_true hfirst] at h
  split at h
  · next hout => rw [if_pos hout]; exact (Except.ok.inj h).symm
  · next hout => rw [if_neg hout]; exact (Except.ok.inj h).symm

theorem length_of_roles {roles : List Role} (h : d.roles = .ok roles) :
    roles.length = d.stages.length := by
  rw [roles_eq_mapM] at h
  simpa using (congrArg List.length (Except.mapM_id_eq_ok_iff.1 h)).symm

theorem roleAt_of_roles {roles : List Role} (h : d.roles = .ok roles)
    (hs : d.stages[i]? = some s) (hrole : roles[i]? = some role) : d.roleAt i s = .ok role := by
  have hat := map_ok_getElem? h i
  rw [hs, hrole] at hat
  exact (Option.some.inj hat).symm

/-! ### Definitions that are built -/

/-- A stage that another one follows publishes somewhere, and so it has a role. -/
theorem exists_roles_of_build {draft : Draft} (h : draft.build = .ok d) :
    ∃ roles, d.roles = .ok roles := by
  obtain ⟨-, labelled, -, rfl⟩ := Draft.exists_of_build h
  refine exists_roles fun i => Option.eq_none_iff_forall_not_mem.2 fun e he => ?_
  obtain ⟨s, hs, hi, ⟨-, hout⟩, -⟩ := untypedAt?_eq_some_iff.1 he
  dsimp only at hs hi
  rw [Draft.length_joined] at hi
  obtain ⟨s', hs', hbound⟩ :=
    Draft.exists_joined draft (List.getElem?_eq_getElem (Nat.lt_of_succ_lt hi))
  obtain rfl := Option.some.inj (hs'.symm.trans hs)
  have hsome := hbound.output
  rw [if_pos hi] at hsome
  simp [Stage.hasOutput, hsome] at hout

/-- **The roles of every definition**, whether it is built or read.

* It has none just if a stage that another one follows is bound to nothing, and then the first such
  stage is named.
* Otherwise each stage has one. Of several stages the first one is a source unless it has an input,
  the last one a sink unless it has an output, and all others are processors; so only the first one
  can be a source, and only the last one a sink.
* Each definition that is built has roles. -/
theorem roles_by_place (d : Definition) :
    (∀ e, d.roles = .error e ↔ ∃ i s, d.stages[i]? = some s ∧ i + 1 < d.stages.length ∧
      s.Unbound ∧ (∀ j t, j < i → d.stages[j]? = some t → ¬ t.Unbound) ∧
      e = .untyped d.name s.label) ∧
    (∀ roles, d.roles = .ok roles → roles.length = d.stages.length ∧
      (2 ≤ d.stages.length → ∀ i s role, d.stages[i]? = some s → roles[i]? = some role →
        (i = 0 → role = if s.hasInput then .processor else .source) ∧
        (0 < i → i + 1 < d.stages.length → role = .processor) ∧
        (i + 1 = d.stages.length → role = if s.hasOutput then .processor else .sink) ∧
        (role = .source → i = 0) ∧ (role = .sink → i + 1 = d.stages.length))) ∧
    ∀ draft : Draft, draft.build = .ok d → ∃ roles, d.roles = .ok roles := by
  refine ⟨fun e => ?_, fun roles h => ⟨length_of_roles h, fun hlength i s role hs hrole => ?_⟩,
    fun draft h => exists_roles_of_build h⟩
  · simp only [roles_eq_error_iff, foremost_untypedAt?_iff]
  · have hat := roleAt_of_roles h hs hrole
    have hi := (List.getElem?_eq_some_iff.1 hs).1
    -- A stage is the first one, the last one, or in between.
    rcases Nat.eq_zero_or_pos i with rfl | hfirst
    · have hfirst := roleAt_first hlength hat
      refine ⟨fun _ => hfirst, fun h => absurd h (Nat.lt_irrefl 0), fun h => by omega, fun _ => rfl,
        fun hsink => ?_⟩
      rw [hfirst] at hsink
      split at hsink <;> cases hsink
    · have hne : i ≠ 0 := Nat.ne_of_gt hfirst
      rcases Nat.lt_or_eq_of_le (Nat.succ_le_of_lt hi) with hlast | hlast
      · obtain rfl := roleAt_between hfirst hlast hat
        exact ⟨fun h => absurd h hne, fun _ _ => rfl, fun h => absurd h (Nat.ne_of_lt hlast),
          nofun, nofun⟩
      · have hrole := roleAt_last hfirst hlast hat
        refine ⟨fun h => absurd h hne, fun _ h => absurd hlast (Nat.ne_of_lt h), fun _ => hrole,
          fun hsource => ?_, fun _ => hlast⟩
        rw [hrole] at hsource
        split at hsource <;> cases hsource

/-- In the sample pipeline of four stages the second transformation is a processor, and of two
filters between destinations that are told each has a role. -/
theorem roles_by_place_chain :
    (∃ roles, Samples.chain.roles = .ok roles ∧ roles[2]? = some .processor) ∧
      ∃ d, Samples.tap.build = .ok d ∧ ∃ roles, d.roles = .ok roles := by
  have hchain : Samples.chain.roles = .ok _ := rfl
  have hlength : 2 ≤ Samples.chain.stages.length := by decide
  have hplace := ((roles_by_place Samples.chain).2.1 _ hchain).2 hlength 2 _ _ rfl rfl
  have hbuild : Samples.tap.build = .ok _ := rfl
  exact ⟨⟨_, hchain, congrArg some (hplace.2.1 (by decide) (by decide))⟩, _, hbuild,
    (roles_by_place _).2.2 _ hbuild⟩

end Definition

end StreamPipeline
