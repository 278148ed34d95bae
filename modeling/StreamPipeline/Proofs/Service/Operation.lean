import StreamPipeline.Proofs.Concurrent.LockTable
import StreamPipeline.Proofs.Release.Lifecycle

/-!
# The operations of a service

An operation of a service that makes releases either is refused, or does what one of the few
constructors of `Transition` says, to the whole content of the world (`serves_operation`). From a
world in which no lock is held each operation comes to one result, with every lock free again.
-/

namespace StreamPipeline

/-- What a service can be asked to change. -/
inductive Operation
  | create (d : Definition)
  | deploy (name : String) (p : Properties)
  | undeploy (name : String)
  | update (name : String) (p : Properties) (o : UpgradeOptions)
  | rollback (name : String) (version : Nat)
  | delete (name : String)

/-- The name of the pipeline that an operation is about. -/
def Operation.name : Operation → String
  | create d => d.name
  | deploy name _ | undeploy name | update name _ _ | rollback name _ | delete name => name

/-- What is done for a deployment while the lock of the pipeline is held. -/
def Service.deployHeld {σ : Type} (v : Service σ) (name : String) (p : Properties) :
    Call σ Deployment := do
  let d ← v.definition name
  v.emit (.deployRequested name d.stages.length)
  let r ← tryCatch (v.deployDefinition d p) fun e => do
    v.emit (.deployFailed name e.kind.word e.message)
    throw e
  v.emit (.deployed name v.deployer.kind r.version r.ids)
  return r

theorem Service.deploy_eq {σ : Type} (v : Service σ) (name : String) (p : Properties) :
    v.deploy name p = v.locked name (v.deployHeld name p) :=
  rfl

/-- The call of an operation, without what it gives back. -/
def Operation.call {σ : Type} (v : Service σ) : Operation → Call σ Unit
  | create d => v.create d
  | deploy name p => discard (v.deploy name p)
  | undeploy name => v.undeploy name
  | update name p o => discard (v.update name p o)
  | rollback name version => discard (v.rollback name version)
  | delete name => discard (v.delete name)

namespace Content

/-- The content with more events. -/
def told (k : Content) (es : List Event) : Content := { k with events := k.events ++ es }

theorem told_told (k : Content) (es fs : List Event) : (k.told es).told fs = k.told (es ++ fs) := by
  simp [told]

theorem keeping_told (k : Content) (l : Ledger) (es : List Event) :
    (k.told es).keeping l = (k.keeping l).told es :=
  rfl

theorem installable_told {k : Content} {es : List Event} {c : Configuration} {d : Definition}
    {requests : List Request} {p : Properties} {package : Package} {l : Ledger} :
    (k.told es).Installable c d requests p package l ↔
      k.Installable c d requests p package l :=
  ⟨fun ⟨a, b, p, e⟩ => ⟨a, b, p, e⟩, fun ⟨a, b, p, e⟩ => ⟨a, b, p, e⟩⟩

/-- The content without a definition. -/
def forgetting (k : Content) (name : String) : Content :=
  { k with definitions := k.definitions.erase name }

end Content

/-- What an operation finds that keeps it from changing anything. -/
def Operation.Refused (k : Content) : Operation → Prop
  | create d => k.definitions.contains d.name = true
  | deploy name _ => k.definitions.get? name = none
  | undeploy name => k.definitions.get? name = none
  | update name p o => k.definitions.get? name = none ∨
      ∀ package values l, ¬ k.Upgradable name p o package values l
  | rollback name version => k.definitions.get? name = none ∨
      ∃ e, k.ledger.rollback name version = .error e
  | delete name => k.definitions.get? name = none ∨ ∃ e, k.state name = .error e

/-- What an operation can do to a content `k`, with its outcome and the content after it. -/
inductive Transition (c : Configuration) (registry : Registry) (k : Content) :
    Operation → Except Failure Unit → Content → Prop where
  /-- Nothing was done. -/
  | refused (op : Operation) (e : Failure) (h : op.Refused k) :
      Transition c registry k op (.error e) k
  | created (d : Definition) (h : k.definitions.contains d.name = false) :
      Transition c registry k (.create d) (.ok ())
        { k with definitions := k.definitions.insert d.name d }
  /-- A deployment was refused before anything was changed. -/
  | deployRefused (name : String) (p : Properties) (d : Definition) (e : Failure)
      (hd : k.definitions.get? name = some d)
      (h : ∀ requests package l, Request.build registry d p = .ok requests →
        ¬ k.Installable c d requests p package l) :
      Transition c registry k (.deploy name p) (.error e)
        (k.told [.deployRequested name d.stages.length, .deployFailed name e.kind.word e.message])
  /-- A package was made ready, but could not be installed. -/
  | deployFailed (name : String) (p : Properties) (d : Definition) (e : Failure)
      (requests : List Request) (package : Package) (l : Ledger)
      (hd : k.definitions.get? name = some d)
      (hrequests : Request.build registry d p = .ok requests)
      (hready : k.Installable c d requests p package l)
      (hfailed : l.install (package.installation c d p) = .error e) :
      Transition c registry k (.deploy name p) (.error e)
        ((k.keeping l).told
          [.deployRequested name d.stages.length, .deployFailed name e.kind.word e.message])
  | deployed (name : String) (p : Properties) (d : Definition) (requests : List Request)
      (package : Package) (l l' : Ledger) (r : Release) (ids : List String)
      (hd : k.definitions.get? name = some d)
      (hrequests : Request.build registry d p = .ok requests)
      (hready : k.Installable c d requests p package l)
      (hinstalled : l.install (package.installation c d p) = .ok (r, l')) :
      Transition c registry k (.deploy name p) (.ok ())
        ((k.keeping l').told
          [.deployRequested name d.stages.length, .deployed name "release" (some r.version) ids])
  | upgraded (name : String) (p : Properties) (o : UpgradeOptions) (d : Definition)
      (package : Package) (values : Overrides) (l l' : Ledger) (r : Release)
      (hd : k.definitions.get? name = some d) (hready : k.Upgradable name p o package values l)
      (hupgraded : l.upgrade (package.upgrade name values o) = .ok (r, l')) :
      Transition c registry k (.update name p o) (.ok ())
        (((k.keeping l').reconciled name r.manifest).told
          [.upgraded name r.version r.package.version])
  /-- A package was made ready, but the release could not be replaced. -/
  | upgradeFailed (name : String) (p : Properties) (o : UpgradeOptions) (d : Definition)
      (e : Failure) (package : Package) (values : Overrides) (l : Ledger)
      (hd : k.definitions.get? name = some d) (hready : k.Upgradable name p o package values l)
      (hfailed : l.upgrade (package.upgrade name values o) = .error e) :
      Transition c registry k (.update name p o) (.error e) (k.keeping l)
  | rolledBack (name : String) (version : Nat) (d : Definition) (l : Ledger) (r : Release)
      (hd : k.definitions.get? name = some d)
      (hrolled : k.ledger.rollback name version = .ok (r, l)) :
      Transition c registry k (.rollback name version) (.ok ())
        (((k.keeping l).reconciled name r.manifest).told [.rolledBack name r.version version])
  /-- Nothing was running. -/
  | idle (name : String) (d : Definition) (e : Failure) (hd : k.definitions.get? name = some d)
      (hdead : k.ledger.live name = .error e) :
      Transition c registry k (.undeploy name) (.ok ()) (k.told [.undeployed name])
  | undeployed (name : String) (d : Definition) (l : Ledger) (r : Release)
      (hd : k.definitions.get? name = some d) (hended : k.ledger.uninstall name = .ok (r, l)) :
      Transition c registry k (.undeploy name) (.ok ()) ((k.keeping l).told [.undeployed name])
  /-- A definition was removed that was taken to be undeployed. -/
  | forgotten (name : String) (d : Definition) (hd : k.definitions.get? name = some d)
      (hs : k.state name = .ok .undeployed) :
      Transition c registry k (.delete name) (.ok ()) (k.forgetting name)
  | deleted (name : String) (d : Definition) (s : State) (l : Ledger) (r : Release)
      (hd : k.definitions.get? name = some d) (hs : k.state name = .ok s) (hne : s ≠ .undeployed)
      (hended : k.ledger.uninstall name = .ok (r, l)) :
      Transition c registry k (.delete name) (.ok ())
        (((k.keeping l).told [.undeployed name]).forgetting name)

/-! ### Locks -/

/-- The world with the lock of a name taken by the only task there is. -/
def World.locking (w : World) (name : String) : World :=
  { w with locks := { (w.locks.enter name).2 with held := [(w.locks.enter name).1] } }

/-- Where no lock is held, the only task takes the lock of a name. -/
theorem World.take?_locking {w : World} (h : w.locks.held = []) (name : String) :
    (w.locks.enter name).2.take? (w.locks.enter name).1 = some (w.locking name).locks :=
  LockTable.take?_eq_some_iff.2 ⟨by simp [h], by simp [World.locking, h]⟩

/-- The world with that lock given back. -/
def World.unlocking (w w' : World) (name : String) : World :=
  { w' with locks := (w'.locks.release (w.locks.enter name).1).prune name }

/-- Where no lock is held, an activity need not wait for one. -/
theorem LockTable.alone_holding {α : Type} (name : String) (body : Activity World α) {w : World}
    (h : w.locks.held = []) :
    (holding World.locksPart name body).alone w =
      (body.alone (w.locking name)).map fun r => (r.1, w.unlocking r.2 name) := by
  refine (Activity.alone_bind _ _ w).trans ?_
  refine (Activity.alone_bind _ _ _).trans ?_
  show (((((w.locks.enter name).2.take? (w.locks.enter name).1).map _).map _).bind _).bind _ = _
  rw [World.take?_locking h name]
  refine (Activity.alone_bind _ _ _).trans ?_
  show (body.alone (w.locking name)).bind _ = _
  cases body.alone (w.locking name) <;> rfl

namespace Call

variable {α : Type} {c : Configuration} {poller : Poller} {registry : Registry} {k : Content}

/-- From whatever world with the content `k` in which no lock is held, the call comes to an outcome
and a content with `Q`, and no lock is held then. -/
def Serves (c : Call World α) (k : Content) (Q : Except Failure α → Content → Prop) : Prop :=
  ∀ w : World, w.calls.failing = [] → w.locks.held = [] → w.content = k → c.Ends w fun r w' =>
    w'.calls.failing = [] ∧ w'.locks.held = [] ∧ Q r w'.content

theorem Works.serves {c : Call World α} {Q : Except Failure α → Content → Prop}
    (h : c.Works k Q) : c.Serves k Q :=
  fun w hf hh hk => (h w hf hk).imp fun _ _ ⟨hf', hl, hQ⟩ => ⟨hf', hl ▸ hh, hQ⟩

theorem serves_locked {name : String} {body : Call World α}
    {Q : Except Failure α → Content → Prop} (h : body.Works k Q) :
    ((World.releaseService c poller registry).locked name body).Serves k Q := by
  intro w hf hh hk
  obtain ⟨r, w', hw, hf', hl, hQ⟩ := h (w.locking name) hf hk
  have hlocked : ((World.releaseService c poller registry).locked name body).alone w =
      some (r, w.unlocking w' name) := by
    refine (LockTable.alone_holding name _ hh).trans ?_
    exact congrArg (Option.map _) hw
  refine (ends_of_alone hlocked).2 ⟨hf', ?_, hQ⟩
  simp [World.unlocking, LockTable.release, hl, World.locking]

theorem serves_discard {c : Call World α} {Q : Except Failure Unit → Content → Prop}
    (h : c.Serves k fun r k' => Q (r.map fun _ => ()) k') : (discard c).Serves k Q :=
  fun w hf hh hk => ends_discard.2 (h w hf hh hk)

theorem works_emit {e : Event} {Q : Except Failure Unit → Content → Prop}
    (h : Q (.ok ()) (k.told [e])) :
    ((World.releaseService c poller registry).emit e).Works k Q := by
  refine works_ofActivity fun w hk => ⟨(), _, rfl, rfl, rfl, ?_⟩
  subst hk
  exact h

/-- An operation on a pipeline is refused where the pipeline is not defined. -/
theorem works_definition {name : String} {Q : Except Failure Definition → Content → Prop}
    (hd : ∀ d, k.definitions.get? name = some d → Q (.ok d) k)
    (hmissing : k.definitions.get? name = none → Q (.error (.missing .pipeline name)) k) :
    ((World.releaseService c poller registry).definition name).Works k Q := by
  refine works_bind (works_find ?_)
  cases h : k.definitions.get? name with
  | none => exact works_throw (hmissing h)
  | some d => exact works_pure (hd d h)

variable {name : String} {Q : Except Failure Unit → Content → Prop}

theorem works_stop (hdead : ∀ e, k.ledger.live name = .error e → Q (.ok ()) k)
    (hended : ∀ r l, k.ledger.uninstall name = .ok (r, l) → Q (.ok ()) (k.keeping l)) :
    ((World.lifecycle c).deployer.undeploy name).Works k Q := by
  refine works_tryCatch (works_discard (works_uninstall ?_))
  cases hu : k.ledger.uninstall name with
  | error e =>
      obtain ⟨e', he'⟩ : ∃ e', k.ledger.live name = .error e' := by
        cases hl : k.ledger.live name with
        | error e' => exact ⟨e', rfl⟩
        | ok r =>
            have hd := Ledger.delete_eq_ok_iff.2 ⟨r, hl, rfl, rfl⟩
            simp [Ledger.uninstall, hd, Except.map] at hu
      have he : e = .noRelease name := by
        have hd : k.ledger.delete name = .error e' := by
          simp [Ledger.delete, he', bind, Except.bind]
        simp only [Ledger.uninstall, hd, Except.map, Except.error.injEq] at hu
        exact hu ▸ Ledger.live_eq_error he'
      simp only [apply, hu, he]
      exact works_pure (hdead e' he')
  | ok r =>
      simp only [apply, hu]
      exact hended r.1 r.2 hu

end Call

namespace Content

/-- A lifecycle that does not see a pipeline undeployed sees a running release. -/
theorem live_of_state {k : Content} {name : String} {s : State} (h : k.state name = .ok s)
    (hs : s ≠ .undeployed) : ∃ r, k.ledger.live name = .ok r := by
  cases hl : k.ledger.live name with
  | ok r => exact ⟨r, rfl⟩
  | error e =>
      refine absurd ?_ hs
      have hstatus : k.ledger.status name = .error (.noRelease name) := by
        simp [Ledger.status, hl, Ledger.live_eq_error hl, bind, Except.bind]
      unfold state status at h
      split at h
      · rename_i hok
        split at hok <;> simp_all
      · rename_i e' herr
        split at herr
        · cases herr
          simp [Failure.isNoRelease] at h
        · rw [hstatus] at herr
          cases herr
          simpa [Failure.isNoRelease] using h.symm

end Content

namespace Call

variable {c : Configuration} {poller : Poller} {registry : Registry} {k : Content}

/-- What comes of a deployment of a definition. -/
inductive Deploys (c : Configuration) (registry : Registry) (k : Content) (d : Definition)
    (p : Properties) : Except Failure Deployment → Content → Prop where
  | refused (e : Failure) (h : ∀ requests package l, Request.build registry d p = .ok requests →
      ¬ k.Installable c d requests p package l) : Deploys c registry k d p (.error e) k
  | failed (e : Failure) (requests : List Request) (package : Package) (l : Ledger)
      (hrequests : Request.build registry d p = .ok requests)
      (hready : k.Installable c d requests p package l)
      (hfailed : l.install (package.installation c d p) = .error e) :
      Deploys c registry k d p (.error e) (k.keeping l)
  | installed (requests : List Request) (package : Package) (l l' : Ledger) (r : Release)
      (ids : List String) (hrequests : Request.build registry d p = .ok requests)
      (hready : k.Installable c d requests p package l)
      (hinstalled : l.install (package.installation c d p) = .ok (r, l')) :
      Deploys c registry k d p (.ok ⟨some r.version, ids⟩) (k.keeping l')

theorem works_deployDefinition {d : Definition} {p : Properties} :
    ((World.releaseService c poller registry).deployDefinition d p).Works k
      (Deploys c registry k d p) := by
  refine works_bind (works_state ?_)
  cases hs : k.state d.name with
  | error e => exact .refused e fun _ _ _ _ ⟨⟨_, hs', _⟩, _, _, _⟩ => nomatch hs.symm.trans hs'
  | ok s =>
  refine works_bind (works_ofExcept ?_)
  cases hallowed : s.allowsDeploy with
  | false =>
      obtain ⟨e, he⟩ := State.checkDeployable_eq_error hallowed d.name
      rw [he]
      exact .refused e fun _ _ _ _ h => by cases hallowed.symm.trans (h.allows hs)
  | true =>
  rw [State.checkDeployable_eq_ok hallowed]
  refine works_bind (works_ofExcept ?_)
  cases hr : Request.build (World.releaseService c poller registry).registry d p with
  | error e => exact .refused e fun _ _ _ hr' => nomatch hr.symm.trans hr'
  | ok requests =>
  refine works_bind (works_lifecycleInstall
    (fun h e => .refused e fun requests' package l hr' => ?_) fun package l hready => ?_)
  · cases hr.symm.trans hr'
    exact h package l
  cases hi : l.install (package.installation c d p) with
  | error e =>
      rw [apply_of_error hi]
      exact .failed e requests package l hr hready hi
  | ok r =>
      rw [apply_of_ok hi]
      have done : ∀ ids, Deploys c registry k d p (.ok ⟨some r.1.version, ids⟩)
          (k.keeping r.2) :=
        fun ids => .installed requests package l r.2 r.1 ids hr hready hi
      -- a report that cannot be had leaves out the names of the stages, and no more
      refine works_bind (works_tryCatch (works_bind (works_status ?_)))
      cases (k.keeping r.2).status d.name with
      | error e => exact works_pure (works_pure (done []))
      | ok stages => exact works_pure (works_pure (done _))

/-! ### Each operation -/

section

variable (name : String) (p : Properties)

/-- What is done for a deployment while the lock is held. -/
theorem works_deployHeld : ((World.releaseService c poller registry).deployHeld name p).Works k
    fun r k' => Transition c registry k (.deploy name p) (r.map fun _ => ()) k' := by
  refine works_bind (works_definition (fun d hd => ?_) fun hd => .refused _ _ hd)
  refine works_bind (works_emit (works_bind (works_tryCatch ?_)))
  -- what a deployment comes to does not depend on the event that was told of its start
  refine works_deployDefinition.imp fun r k' hr => ?_
  cases hr with
  | refused e h =>
      refine works_bind (works_emit (works_throw ?_))
      rw [Content.told_told]
      exact .deployRefused name p d e hd fun requests package l hr =>
        mt Content.installable_told.2 (h requests package l hr)
  | failed e requests package l hr hready hi =>
      refine works_bind (works_emit (works_throw ?_))
      rw [Content.keeping_told, Content.told_told]
      exact .deployFailed name p d e requests package l hd hr
        (Content.installable_told.1 hready) hi
  | installed requests package l l' r ids hr hready hi =>
      refine works_bind (works_emit (works_pure ?_))
      rw [Content.keeping_told, Content.told_told]
      exact .deployed name p d requests package l l' r ids hd hr
        (Content.installable_told.1 hready) hi

theorem serves_deploy : (discard ((World.releaseService c poller registry).deploy name p)).Serves k
    (Transition c registry k (.deploy name p)) := by
  rw [Service.deploy_eq]
  exact serves_discard (serves_locked (works_deployHeld name p))

theorem serves_undeploy : ((World.releaseService c poller registry).undeploy name).Serves k
    (Transition c registry k (.undeploy name)) := by
  refine serves_locked (works_bind (works_discard (works_definition (fun d hd => ?_)
    fun hd => .refused _ _ hd)))
  exact works_bind (works_stop (fun e he => works_emit (.idle name d e hd he))
    fun r l hl => works_emit (.undeployed name d l r hd hl))

theorem serves_update (o : UpgradeOptions) :
    (discard ((World.releaseService c poller registry).update name p o)).Serves k
      (Transition c registry k (.update name p o)) := by
  refine serves_discard (serves_locked (works_bind (works_discard (works_definition
    (fun d hd => ?_) fun hd => .refused _ _ (.inl hd)))))
  refine works_bind (works_lifecycleUpgrade (fun h e => .refused _ _ (.inr h))
    fun package values l hready => ?_)
  cases hu : l.upgrade (package.upgrade name values o) with
  | error e => exact .upgradeFailed name p o d e package values l hd hready hu
  | ok r =>
      exact works_bind (works_emit (works_pure
        (.upgraded name p o d package values l r.2 r.1 hd hready hu)))

theorem serves_rollback (version : Nat) :
    (discard ((World.releaseService c poller registry).rollback name version)).Serves k
      (Transition c registry k (.rollback name version)) := by
  refine serves_discard (serves_locked (works_bind (works_discard (works_definition
    (fun d hd => ?_) fun hd => .refused _ _ (.inl hd)))))
  refine works_bind (works_lifecycleRollback ?_)
  cases hr : k.ledger.rollback name version with
  | error e => exact .refused _ _ (.inr ⟨e, hr⟩)
  | ok r => exact works_bind (works_emit (works_pure (.rolledBack name version d r.2 r.1 hd hr)))

theorem serves_delete : (discard ((World.releaseService c poller registry).delete name)).Serves k
    (Transition c registry k (.delete name)) := by
  refine serves_discard (serves_locked (works_bind (works_discard (works_definition
    (fun d hd => ?_) fun hd => .refused _ _ (.inl hd)))))
  refine works_bind (works_state ?_)
  cases hs : k.state name with
  | error e => exact .refused _ _ (.inr ⟨e, hs⟩)
  | ok s =>
  dsimp only
  by_cases hne : s = .undeployed
  · -- nothing seems to run, and nothing is stopped
    rw [if_neg (by simpa using hne)]
    refine works_bind (works_remove ?_)
    simp only [hd]
    exact works_pure (.forgotten name d hd (hne ▸ hs))
  · rw [if_pos hne]
    obtain ⟨r, hr⟩ := Content.live_of_state hs hne
    refine works_bind (works_stop (fun e he => nomatch hr.symm.trans he) fun r l hl => ?_)
    refine works_bind (works_emit (works_bind (works_remove ?_)))
    simp only [Content.told, Content.keeping, hd]
    exact works_pure (.deleted name d s l r hd hs hne hl)

end

/-- **What the operations of a service do.** -/
theorem serves_operation (op : Operation) :
    (op.call (World.releaseService c poller registry)).Serves k (Transition c registry k op) := by
  cases op with
  | create d => exact (works_save (fun h => .created d h) fun h => .refused _ _ h).serves
  | deploy name p => exact serves_deploy name p
  | undeploy name => exact serves_undeploy name
  | update name p o => exact serves_update name p o
  | rollback name version => exact serves_rollback name version
  | delete name => exact serves_delete name

end Call

end StreamPipeline
