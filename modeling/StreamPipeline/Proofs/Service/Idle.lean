import StreamPipeline.Proofs.Concurrent.Pruned
import StreamPipeline.Proofs.Service.Run
import StreamPipeline.Proofs.Service.Spared

/-!
# Operations and their locks

An operation that changes a pipeline does all that it does under the lock of that pipeline, and
spares the locks meanwhile (`Call.exists_held`). So it gives back just what it took: an operation
that starts where no lock is left leaves none (`Call.tidy_operation`), and on every run there is
none between operations (`World.Run.idle`). Operations at once have one lock for each pipeline, for
as long as one of them needs it (`World.operations_guarded`).
-/

namespace StreamPipeline

open World (Beside beside_locksPart lawful_locksPart locksPart)

/-- What follows when the lock was given back may as well be done before. -/
theorem LockTable.holding_map {σ α β : Type} (table : Part σ LockTable) (name : String)
    (body : Activity σ α) (f : α → β) :
    (holding table name body).bind (fun a => .done (f a)) =
      holding table name (body.bind fun a => .done (f a)) := by
  refine congrArg (Activity.act _) (funext fun lock => ?_)
  refine congrArg (Activity.act _) (funext fun _ => ?_)
  refine (Activity.bind_bind body _ _).trans (Eq.symm ?_)
  exact Activity.bind_bind body _ _

theorem Service.discard_locked {σ α : Type} (v : Service σ) (name : String) (c : Call σ α) :
    discard (v.locked name c) = v.locked name (discard c) := by
  have hdiscard : ∀ p : Activity σ (Except Failure α),
      (discard (Call.ofOutcome p)).outcome = p.bind fun r => .done (r.map fun _ => ()) := by
    intro p
    refine congrArg p.bind (funext fun r => ?_)
    cases r <;> rfl
  exact (hdiscard _).trans
    ((LockTable.holding_map ..).trans (congrArg _ (hdiscard c.outcome).symm))

namespace Call

/-- Where no lock is left before the call, none is left after it. -/
def Tidy {α : Type} (c : Call World α) : Prop :=
  ∀ w r w', c.alone w = some (r, w') → w.locks.Idle → w'.locks.Idle

variable {α : Type} {τ : Type} {q : Part World τ} {c : Configuration} {poller : Poller}
  {registry : Registry}

theorem Spares.tidy {c : Call World α} (h : c.Spares locksPart) : c.Tidy := by
  intro w r w' hw hidle
  have hlocks : w'.locks = w.locks := Activity.Spares.get_alone h lawful_locksPart hw
  rwa [hlocks]

/-- A lock that is taken where there is none is given back without a trace. -/
theorem idle_unlocking {w w₁ : World} (hidle : w.locks.Idle) {name : String}
    (hlocks : w₁.locks = (w.locking name).locks) : (w.unlocking w₁ name).locks.Idle := by
  have houtside : w.locks.Sound [(⟨name, .outside (.done ())⟩ : Locked World Unit)] :=
    hidle.sound fun x hx => ⟨.done (), by rw [List.mem_singleton.1 hx]⟩
  have hinside := houtside.enter.take (World.take?_locking hidle.held name)
  have hleft := (hinside.release (a := ())).prune
  rw [World.unlocking, hlocks]
  exact hleft.idle fun x hx => ⟨(), by rw [List.mem_singleton.1 hx]⟩

theorem tidy_locked {body : Call World α} (h : body.Spares locksPart) (name : String) :
    ((World.releaseService c poller registry).locked name body).Tidy := by
  intro w r w' hw hidle
  have halone := LockTable.alone_holding name body.outcome hidle.held
  obtain ⟨⟨_, w₁⟩, hbody, he⟩ := Option.map_eq_some_iff.1 (halone.symm.trans hw)
  cases he
  exact idle_unlocking hidle (Activity.Spares.get_alone h lawful_locksPart hbody)

/-! ### What operations do under their locks -/

theorem spares_remove (h : Beside q) (name : String) : (World.store.delete name).Spares q :=
  spares_noted h.calls _ (spares_update h.definitions fun ds =>
    .ok (ds.get? name, ds.erase name))

theorem spares_upsert (h : Beside q) (d : Definition) : (World.store.upsert d).Spares q :=
  spares_noted h.calls _ (spares_update h.definitions fun ds => .ok ((), ds.insert d.name d))

theorem spares_save (h : Beside q) (d : Definition) : (World.store.save d).Spares q :=
  spares_noted h.calls _ (spares_update h.definitions fun ds =>
    (ds.save d).map fun ds => ((), ds))

theorem spares_upgrade (h : Beside q) (u : Upgrade) : (World.manager.upgrade u).Spares q :=
  spares_noted h.calls _ (spares_update h.ledger (·.upgrade u))

theorem spares_rollback (h : Beside q) (name : String) (version : Nat) :
    (World.manager.rollback name version).Spares q :=
  spares_noted h.calls _ (spares_update h.ledger (·.rollback name version))

theorem spares_delete (h : Beside q) (name : String) : (World.manager.delete name).Spares q :=
  spares_noted h.calls _ (spares_update h.ledger (·.delete name))

theorem spares_deletePackage (h : Beside q) (name : String) :
    (World.manager.deletePackage name).Spares q :=
  spares_noted h.calls _ (spares_update h.ledger fun l => .ok ((), l.deletePackage name))

theorem spares_info (h : Beside q) (name : String) : (World.manager.info name).Spares q :=
  spares_noted h.calls _ (spares_query h.ledger (·.latest name))

theorem spares_reconcile (h : Beside q) (name : String) (m : Manifest) :
    ((World.lifecycle c).reconcile name m).Spares q := by
  refine spares_bind (spares_find h name) fun d? => ?_
  cases d? with
  | none => exact spares_pure _
  | some d => exact spares_upsert h _

theorem spares_lifecycleUpgrade (h : Beside q) (name : String) (p : Properties)
    (o : UpgradeOptions) : ((World.lifecycle c).upgrade name p o).Spares q := by
  refine spares_bind (spares_info h name) fun current => ?_
  have hrest : ∀ r : Package × Overrides, (do
      (World.lifecycle c).ensureUploaded r.1
      let released ← World.manager.upgrade (r.1.upgrade name r.2 o)
      (World.lifecycle c).reconcile name released.manifest
      return released).Spares q := fun r =>
    spares_bind (spares_ensureUploaded h r.1) fun _ =>
      spares_bind (spares_upgrade h _) fun released =>
        spares_bind (spares_reconcile h name _) fun _ => spares_pure released
  dsimp only
  split
  · exact spares_bind (spares_throw _) fun _ => spares_bind (spares_ofExcept _) hrest
  · exact spares_bind (spares_ofExcept _) hrest

theorem spares_lifecycleRollback (h : Beside q) (name : String) (version : Nat) :
    ((World.lifecycle c).rollback name version).Spares q :=
  spares_bind (spares_rollback h name version) fun r =>
    spares_bind (spares_reconcile h name _) fun _ => spares_pure r

theorem spares_stop (h : Beside q) (name : String) :
    ((World.lifecycle c).deployer.undeploy name).Spares q := by
  refine spares_tryCatch (spares_discard (spares_bind (spares_delete h name) fun r =>
    spares_bind (spares_deletePackage h _) fun _ => spares_pure r)) fun e => ?_
  split
  · exact spares_pure _
  · exact spares_throw e

/-! ### Operations -/

/-- What a call gives back may as well be dropped while the lock is held. -/
theorem exists_held_discard {body : Call World α} (h : body.Spares locksPart) (name : String) :
    ∃ held : Call World Unit, discard ((World.releaseService c poller registry).locked name body) =
      (World.releaseService c poller registry).locked name held ∧ held.Spares locksPart :=
  ⟨discard body, Service.discard_locked _ name body, spares_discard h⟩

/-- **An operation does all that it does under the lock of its pipeline**, where it spares the
locks. Only the creation of a definition needs none. -/
theorem exists_held (c : Configuration) (poller : Poller) (registry : Registry) (op : Operation)
    (hop : ∀ d, op ≠ .create d) :
    ∃ held : Call World Unit, op.call (World.releaseService c poller registry) =
      (World.releaseService c poller registry).locked op.name held ∧ held.Spares locksPart := by
  have h := beside_locksPart
  cases op with
  | create d => exact absurd rfl (hop d)
  | deploy name p =>
      exact exists_held_discard (spares_deployHeld spares_install_locksPart p h name) name
  | undeploy name =>
      refine ⟨_, rfl, spares_bind (spares_discard (spares_definition h name)) fun _ => ?_⟩
      exact spares_bind (spares_stop h name) fun _ => spares_emit h _
  | update name p o =>
      refine exists_held_discard (spares_bind (spares_discard (spares_definition h name))
        fun _ => ?_) name
      exact spares_bind (spares_lifecycleUpgrade h name p o) fun r =>
        spares_bind (spares_emit h _) fun _ => spares_pure r
  | rollback name version =>
      refine exists_held_discard (spares_bind (spares_discard (spares_definition h name))
        fun _ => ?_) name
      exact spares_bind (spares_lifecycleRollback h name version) fun r =>
        spares_bind (spares_emit h _) fun _ => spares_pure r
  | delete name =>
      refine exists_held_discard (spares_bind (spares_discard (spares_definition h name))
        fun _ => ?_) name
      refine spares_bind (spares_state h name) fun s => ?_
      dsimp only
      split
      -- a pipeline that was stopped is then removed as any other
      on_goal 1 =>
        refine spares_bind (spares_stop h name) fun _ => ?_
        refine spares_bind (spares_emit h _) fun _ => ?_
      all_goals
        refine spares_bind (spares_remove h name) fun d? => ?_
        cases d? with
        | none => exact spares_throw _
        | some d => exact spares_pure d

/-- **An operation leaves no lock behind.** -/
theorem tidy_operation (op : Operation) :
    (op.call (World.releaseService c poller registry)).Tidy := by
  by_cases hop : ∃ d, op = .create d
  · obtain ⟨d, rfl⟩ := hop
    exact Spares.tidy (spares_save beside_locksPart d)
  · obtain ⟨held, heq, hspares⟩ := exists_held c poller registry op fun d hd => hop ⟨d, hd⟩
    rw [heq]
    exact tidy_locked hspares op.name

end Call

/-- **Between the operations of a run no lock is left.** -/
theorem World.Run.idle {allowed : Content → Operation → Prop} {platforms : List Platform}
    {initial : State} {w : World} (t : Run allowed (fresh platforms initial) w) :
    w.locks.Idle := by
  induction t with
  | refl => exact ⟨rfl, rfl, rfl⟩
  | @operation w w' t c poller registry op r _ hop ih =>
      have hsettled := t.settled (settled_fresh platforms initial)
      obtain ⟨r', w'', hw, -⟩ := (Call.serves_operation op w hsettled.1 hsettled.2 rfl :
        (op.call (releaseService c poller registry)).Ends w _)
      cases (Activity.gives_iff_alone hw).1 hop
      exact Call.tidy_operation op w _ _ hw ih
  | reported _ _ _ _ ih => exact ih
  | disturbed _ _ ih => exact ih

/-! ### Operations at once -/

namespace World

variable {c : Configuration} {poller : Poller} {registry : Registry}

/-- Operations that change pipelines are tasks under the locks of these. -/
theorem exists_tasks (c : Configuration) (poller : Poller) (registry : Registry)
    {ops : List Operation} (hops : ∀ op ∈ ops, ∀ d, op ≠ .create d) :
    ∃ tasks : List (String × Activity World (Except Failure Unit)),
      (ops.map fun op => (op.call (releaseService c poller registry)).outcome) =
        tasks.map (fun task => LockTable.holding locksPart task.1 task.2) ∧
      tasks.map (·.1) = ops.map (·.name) ∧ ∀ task ∈ tasks, task.2.Spares locksPart := by
  induction ops with
  | nil => exact ⟨[], rfl, rfl, nofun⟩
  | cons op ops ih =>
      obtain ⟨tasks, htasks, hnames, hspares⟩ := ih fun o ho => hops o (.tail _ ho)
      obtain ⟨held, heq, hheld⟩ := Call.exists_held c poller registry op (hops op (.head _))
      refine ⟨(op.name, held.outcome) :: tasks, ?_, ?_, List.forall_mem_cons.2 ⟨hheld, hspares⟩⟩
      · rw [List.map_cons, List.map_cons, htasks, heq]
        rfl
      · rw [List.map_cons, List.map_cons, hnames]

/-- **Operations at once are guarded by their locks.** Whatever turns operations that change
pipelines take, and whatever they have come to, each pipeline has one lock at a time, which one of
them holds at most, and none once none of them needs it. -/
theorem operations_guarded {ops : List Operation} (hops : ∀ op ∈ ops, ∀ d, op ≠ .create d)
    {w w' : World} (hidle : w.locks.Idle) {qs : List (Activity World (Except Failure Unit))}
    (t : Activity.Interleaves
      (ops.map fun op => (op.call (releaseService c poller registry)).outcome) w qs w') :
    ∃ xs given, qs = xs.map (Locked.activity locksPart) ∧
      xs.map (·.name) = ops.map (·.name) ∧ w'.locks.Guarded xs given := by
  obtain ⟨tasks, htasks, hnames, hspares⟩ := exists_tasks c poller registry hops
  have hmap : tasks.map (fun task => LockTable.holding locksPart task.1 task.2) =
      (tasks.map fun task => Locked.task task.1 task.2).map (Locked.activity locksPart) := by
    rw [List.map_map]
    rfl
  rw [htasks, hmap] at t
  obtain ⟨xs, given, hxs, hturns⟩ := Locked.interleaves_iff.1 t
  refine ⟨xs, given, hxs, hturns.map_name_eq.trans ?_,
    LockTable.guarded_of_turns lawful_locksPart hspares hidle hturns⟩
  rw [← hnames, List.map_map]
  rfl

end World

end StreamPipeline
