import StreamPipeline.Proofs.Concurrent.Locked

/-!
# One task after another

What tasks do one after another is told by a relation between the results that there have been, in
order, and the state: it holds at first, each task alone leads from one list of results to the next,
and the locks do not matter to it (`InTurn`).

**Tasks under the lock of one name come to what they come to one after another**
(`LockTable.serialized`): however they take turns, they can be brought to their end, and there the
relation holds of their results in some order.
-/

namespace StreamPipeline

open Activity (Interleaves)

variable {σ α : Type} {table : Part σ LockTable} {bodies : List (Activity σ α)}
  {Q : List α → σ → Prop}

/-- What tasks with these bodies come to one after another is told by `Q`. -/
structure InTurn (table : Part σ LockTable) (bodies : List (Activity σ α))
    (Q : List α → σ → Prop) : Prop where
  lawful : table.Lawful
  spares : ∀ p ∈ bodies, p.Spares table
  unlocked : ∀ rs s t, Q rs s → Q rs (table.set t s)
  works : ∀ p ∈ bodies, ∀ rs s, Q rs s → ∃ a s', p.alone s = some (a, s') ∧ Q (rs ++ [a]) s'

/-- What a task has to do, once it has the lock. -/
def Phase.body? : Phase σ α → Option (Activity σ α)
  | outside body => some body
  | waiting _ body => some body
  | _ => none

theorem Locked.Step.body?_eq {x y : Locked σ α} {s s' : σ} (h : x.Step table s y s')
    {p : Activity σ α} (hp : y.phase.body? = some p) : x.phase.body? = some p := by
  cases h with
  | enter => exact hp
  | take | act | release | prune => cases hp

/-- The results that there have been, in order, are told by `Q`. A task that is inside leads to the
next ones, and where there is none inside they are those of the state. -/
def Results (Q : List α → σ → Prop) (xs : List (Locked σ α)) (s : σ) : Prop :=
  ∃ rs, rs.Perm (xs.filterMap (·.phase.result?)) ∧
    (∀ x ∈ xs, ∀ lock rest, x.phase = .inside lock rest →
      ∃ a s', rest.alone s = some (a, s') ∧ Q (rs ++ [a]) s') ∧
    ((∀ x ∈ xs, x.phase.holds? = none) → Q rs s)

/-- Tasks under the lock of one name are about to do one after another what they do. -/
structure Serial (table : Part σ LockTable) (bodies : List (Activity σ α))
    (Q : List α → σ → Prop) (name : String) (xs : List (Locked σ α)) (s : σ) : Prop where
  sound : (table.get s).Sound xs
  spares : ∀ x ∈ xs, x.Spares table
  named : ∀ x ∈ xs, x.name = name
  bodies : ∀ x ∈ xs, ∀ p, x.phase.body? = some p → p ∈ bodies
  results : Results Q xs s

namespace Serial

variable {name : String} {x y : Locked σ α} {xs ys : List (Locked σ α)} {s s' : σ}

theorem perm (h : Serial table bodies Q name xs s) (hp : xs.Perm ys) :
    Serial table bodies Q name ys s := by
  obtain ⟨rs, hrs, hinside, hfree⟩ := h.results
  refine ⟨h.sound.perm hp, fun x hx => h.spares x (hp.mem_iff.2 hx),
    fun x hx => h.named x (hp.mem_iff.2 hx), fun x hx => h.bodies x (hp.mem_iff.2 hx),
    rs, hrs.trans (hp.filterMap _), fun x hx => hinside x (hp.mem_iff.2 hx), fun hnone => ?_⟩
  exact hfree fun x hx => hnone x (hp.mem_iff.1 hx)

/-- Where one of the tasks is inside, none of the others is. -/
theorem not_inside (h : Serial table bodies Q name (x :: xs) s) {lock : Nat}
    (hx : x.phase.holds? = some lock) : ∀ z ∈ xs, ∀ l r, z.phase ≠ .inside l r := by
  intro z hz l r hz'
  have hname : z.name = x.name := (h.named z (.tail _ hz)).trans (h.named x (.head _)).symm
  have hnone := h.sound.alone_inside hx hz hname
  rw [hz'] at hnone
  cases hnone

/-- A task that is not inside does nothing but to the locks. -/
theorem results_set (hturn : InTurn table bodies Q) (h : Serial table bodies Q name (x :: xs) s)
    (t : LockTable) (hx : x.phase.holds? = none) (hy : y.phase.holds? = none)
    (hresult : y.phase.result? = x.phase.result?) : Results Q (y :: xs) (table.set t s) := by
  obtain ⟨rs, hrs, hinside, hfree⟩ := h.results
  refine ⟨rs, ?_, fun z hz lock rest hz' => ?_, fun hnone => ?_⟩
  · simpa only [List.filterMap_cons, hresult] using hrs
  · rcases List.mem_cons.1 hz with rfl | hz
    · rw [hz'] at hy
      cases hy
    · obtain ⟨a, s', ha, hQ⟩ := hinside z (.tail _ hz) lock rest hz'
      have hspares : rest.Spares table := by
        simpa [Locked.Spares, hz'] using h.spares z (.tail _ hz)
      refine ⟨a, table.set t s', ?_, hturn.unlocked _ _ _ hQ⟩
      rw [hspares.alone_set, ha]
      rfl
  · refine hturn.unlocked _ _ _ (hfree fun z hz => ?_)
    rcases List.mem_cons.1 hz with rfl | hz
    · exact hx
    · exact hnone z (.tail _ hz)

/-- A task that takes the lock finds nobody inside, and leads to the next results. -/
theorem results_take {n : String} {lock : Nat} {body : Activity σ α} {t : LockTable}
    (hturn : InTurn table bodies Q)
    (h : Serial table bodies Q name (⟨n, .waiting lock body⟩ :: xs) s)
    (ht : (table.get s).take? lock = some t) :
    Results Q (⟨n, .inside lock body⟩ :: xs) (table.set t s) := by
  have hfree : lock ∉ (table.get s).held := (LockTable.take?_eq_some_iff.1 ht).1
  have hnobody : ∀ z ∈ xs, z.phase.holds? = none := fun z hz =>
    h.sound.nobody_inside rfl hfree hz
      ((h.named z (.tail _ hz)).trans (h.named _ (.head _)).symm)
  obtain ⟨rs, hrs, -, hQ⟩ := h.results
  have hbody : body ∈ bodies := h.bodies _ (.head _) body rfl
  obtain ⟨a, s', ha, hQ'⟩ := hturn.works body hbody rs s (hQ fun z hz => by
    rcases List.mem_cons.1 hz with rfl | hz
    · rfl
    · exact hnobody z hz)
  refine ⟨rs, hrs, fun z hz l r hz' => ?_, fun hnone => ?_⟩
  · rcases List.mem_cons.1 hz with rfl | hz
    · cases hz'
      refine ⟨a, table.set t s', ?_, hturn.unlocked _ _ _ hQ'⟩
      rw [(hturn.spares body hbody).alone_set, ha]
      rfl
    · have hz'' := hnobody z hz
      rw [hz'] at hz''
      cases hz''
  · cases hnone _ (.head _)

/-- What a task does inside, it comes to the same. -/
theorem results_act {n : String} {lock : Nat} {rest rest' : Activity σ α}
    (h : Serial table bodies Q name (⟨n, .inside lock rest⟩ :: xs) s)
    (hact : rest.Step s rest' s') : Results Q (⟨n, .inside lock rest'⟩ :: xs) s' := by
  obtain ⟨rs, hrs, hinside, -⟩ := h.results
  refine ⟨rs, hrs, fun z hz l r hz' => ?_, fun hnone => ?_⟩
  · rcases List.mem_cons.1 hz with rfl | hz
    · cases hz'
      rw [hact.alone_eq]
      exact hinside _ (.head _) _ _ rfl
    · exact absurd hz' (h.not_inside rfl z hz l r)
  · cases hnone _ (.head _)

/-- A task that gives the lock back leaves its result. -/
theorem results_release {n : String} {lock : Nat} {a : α} (hturn : InTurn table bodies Q)
    (h : Serial table bodies Q name (⟨n, .inside lock (.done a)⟩ :: xs) s) :
    Results Q (⟨n, .leaving a⟩ :: xs) (table.modify (·.release lock) s) := by
  obtain ⟨rs, hrs, hinside, -⟩ := h.results
  obtain ⟨_, _, ha, hQ⟩ := hinside _ (.head _) _ _ rfl
  cases ha
  refine ⟨rs ++ [a], ?_, fun z hz l r hz' => ?_, fun _ => hturn.unlocked _ _ _ hQ⟩
  · exact (List.perm_append_singleton a rs).trans (hrs.cons a)
  · rcases List.mem_cons.1 hz with rfl | hz
    · cases hz'
    · exact absurd hz' (h.not_inside rfl z hz l r)

/-- **What one task does leaves it so.** -/
theorem change (hturn : InTurn table bodies Q) (h : Serial table bodies Q name (x :: xs) s)
    (hstep : x.Step table s y s') : Serial table bodies Q name (y :: xs) s' := by
  have hspares : x.Spares table := h.spares x (.head _)
  refine ⟨h.sound.change hturn.lawful hspares hstep, fun z hz => ?_, fun z hz => ?_,
    fun z hz p hp => ?_, ?_⟩
  · rcases List.mem_cons.1 hz with rfl | hz
    · exact hspares.step hturn.lawful hstep
    · exact h.spares z (.tail _ hz)
  · rcases List.mem_cons.1 hz with rfl | hz
    · exact hstep.name_eq.trans (h.named x (.head _))
    · exact h.named z (.tail _ hz)
  · rcases List.mem_cons.1 hz with rfl | hz
    · exact h.bodies x (.head _) p (hstep.body?_eq hp)
    · exact h.bodies z (.tail _ hz) p hp
  · cases hstep with
    | enter => exact h.results_set hturn _ rfl rfl rfl
    | take ht => exact h.results_take hturn ht
    | act hact => exact h.results_act hact
    | release => exact h.results_release hturn
    | prune => exact h.results_set hturn _ rfl rfl rfl

/-- **Some task can always act, until all have left.** -/
theorem exists_step (h : Serial table bodies Q name xs s) :
    (∀ x ∈ xs, ∃ a, x.phase = .left a) ∨ ∃ x ∈ xs, ∃ y s', x.Step table s y s' := by
  obtain ⟨rs, -, hinside, -⟩ := h.results
  by_cases hheld : (table.get s).held = []
  · -- whoever has not left can act, since no lock is taken
    by_cases hleft : ∀ x ∈ xs, ∃ a, x.phase = .left a
    · exact .inl hleft
    push Not at hleft
    obtain ⟨⟨n, phase⟩, hx, hleft⟩ := hleft
    refine .inr ⟨_, hx, ?_⟩
    cases phase with
    | outside body => exact ⟨_, _, .enter⟩
    | waiting lock body =>
        have hfree : lock ∉ (table.get s).held := by simp [hheld]
        exact ⟨_, _, .take (LockTable.take?_eq_some_iff.2 ⟨hfree, rfl⟩)⟩
    | inside lock rest =>
        have hin := (h.sound.of_holds hx rfl).1
        rw [hheld] at hin
        cases hin
    | leaving a => exact ⟨_, _, .prune⟩
    | left a => exact absurd rfl (hleft a)
  · -- whoever has the lock can go on
    obtain ⟨lock, hlock⟩ := List.exists_mem_of_ne_nil _ hheld
    obtain ⟨⟨n, phase⟩, hx, hholds⟩ := List.mem_filterMap.1 (h.sound.held.mem_iff.1 hlock)
    cases phase with
    | inside lock rest =>
        refine .inr ⟨_, hx, ?_⟩
        obtain ⟨a, s', ha, -⟩ := hinside _ hx _ _ rfl
        rcases Activity.exists_step_of_alone ha with ⟨b, rfl⟩ | ⟨rest', s'', hact⟩
        · exact ⟨_, _, .release⟩
        · exact ⟨_, _, .act hact⟩
    | _ => cases hholds

/-- The tasks take turns, from the outside of the lock on. -/
theorem of_idle (hturn : InTurn table bodies Q) (hidle : (table.get s).Idle) (hQ : Q [] s) :
    Serial table bodies Q name (bodies.map fun p => ⟨name, .outside p⟩) s := by
  have hout : ∀ x ∈ bodies.map (fun p => (⟨name, .outside p⟩ : Locked σ α)),
      x.name = name ∧ ∃ p ∈ bodies, x.phase = .outside p := fun x hx => by
    obtain ⟨p, hp, rfl⟩ := List.mem_map.1 hx
    exact ⟨rfl, p, hp, rfl⟩
  refine ⟨hidle.sound fun x hx => ?_, fun x hx => ?_, fun x hx => (hout x hx).1,
    fun x hx q hq => ?_, [], ?_, fun x hx lock rest hx' => ?_, fun _ => hQ⟩
  · obtain ⟨-, p, -, hp⟩ := hout x hx
    exact ⟨p, hp⟩
  · obtain ⟨-, p, hmem, hp⟩ := hout x hx
    simpa [Locked.Spares, hp] using hturn.spares p hmem
  · obtain ⟨-, p, hmem, hp⟩ := hout x hx
    rw [hp] at hq
    cases hq
    exact hmem
  · refine List.Perm.of_eq (List.filterMap_eq_nil_iff.2 fun x hx => ?_).symm
    obtain ⟨-, p, -, hp⟩ := hout x hx
    rw [hp]
    rfl
  · obtain ⟨-, p, -, hp⟩ := hout x hx
    cases hp.symm.trans hx'

end Serial

/-- Of tasks that have all left their results are left. -/
theorem Locked.map_activity_of_left {xs : List (Locked σ α)}
    (h : ∀ x ∈ xs, ∃ a, x.phase = .left a) :
    xs.map (activity table) = (xs.filterMap (·.phase.result?)).map .done := by
  induction xs with
  | nil => rfl
  | cons x xs ih =>
      obtain ⟨a, ha⟩ := h x (.head _)
      rw [List.map_cons, ih fun y hy => h y (.tail _ hy), activity_eq_done_iff.2 ha,
        List.filterMap_cons, ha]
      rfl

/-- Where nothing is left to do, all tasks have left. -/
theorem Locked.left_of_done {xs : List (Locked σ α)} {as : List α}
    (h : xs.map (activity table) = as.map .done) :
    (∀ x ∈ xs, ∃ a, x.phase = .left a) ∧ xs.filterMap (·.phase.result?) = as := by
  have hleft : ∀ x ∈ xs, ∃ a, x.phase = .left a := fun x hx => by
    have hmem : x.activity table ∈ as.map .done := h ▸ List.mem_map_of_mem hx
    obtain ⟨a, -, ha⟩ := List.mem_map.1 hmem
    exact ⟨a, activity_eq_done_iff.1 ha.symm⟩
  have hinj : Function.Injective (Activity.done : α → Activity σ α) :=
    fun _ _ => Activity.done.inj
  exact ⟨hleft, hinj.list_map ((map_activity_of_left hleft).symm.trans h)⟩

/-- **Tasks under the lock of one name come to what they come to one after another.** -/
theorem LockTable.serialized (hturn : InTurn table bodies Q) {name : String} {s s' : σ}
    (hidle : (table.get s).Idle) (hQ : Q [] s) {qs : List (Activity σ α)}
    (t : Interleaves (bodies.map (holding table name)) s qs s') :
    (∃ (as : List α) (s'' : σ), Interleaves qs s' (as.map .done) s'') ∧
    ∀ as : List α, qs = as.map .done → ∃ rs, rs.Perm as ∧ Q rs s' ∧ (table.get s').Idle := by
  have h₀ : Serial table bodies Q name (bodies.map fun p => ⟨name, .outside p⟩) s :=
    .of_idle hturn hidle hQ
  have hrun : ∀ {qs s'}, Interleaves (bodies.map (holding table name)) s qs s' →
      ∃ ys, qs = ys.map (Locked.activity table) ∧ Serial table bodies Q name ys s' := by
    intro qs s' t
    refine Locked.invariant (fun xs s ys s' h hturn' => ?_) h₀ ?_
    · obtain ⟨x, y, rest, hx, hy, hstep⟩ := hturn'.perm
      exact ((h.perm hx).change hturn hstep).perm hy.symm
    · rw [List.map_map]
      exact t
  constructor
  · refine Interleaves.exists_done (fun qs s' t => ?_) t
    obtain ⟨ys, rfl, hys⟩ := hrun t
    rcases hys.exists_step with hleft | ⟨x, hx, y, s'', hstep⟩
    · exact .inl ⟨_, Locked.map_activity_of_left hleft⟩
    · obtain ⟨rs, hrs⟩ := OneOf.exists_of_mem (List.mem_map_of_mem hx)
        (Locked.activity_step_iff.2 ⟨y, rfl, hstep⟩)
      exact .inr ⟨rs, s'', hrs⟩
  · rintro as rfl
    obtain ⟨ys, hys, hserial⟩ := hrun t
    obtain ⟨hleft, hresults⟩ := Locked.left_of_done hys.symm
    obtain ⟨rs, hrs, -, hfree⟩ := hserial.results
    refine ⟨rs, hresults ▸ hrs, hfree fun x hx => ?_, hserial.sound.idle hleft⟩
    obtain ⟨a, ha⟩ := hleft x hx
    rw [ha]
    rfl

end StreamPipeline
