import StreamPipeline.Proofs.Concurrent.Spared
import StreamPipeline.Proofs.Service.Operation

/-!
# What a deployment leaves alone

A deployment works on definitions, on the ledger, on events and on what was watched, and asks for
reports. A part of the world that has nothing to do with these (`World.Beside`) it spares, unless it
comes to an installation. So all that it does under its lock spares the locks
(`spares_deployHeld`), and what it does before the installation spares the number of installations:
a deployment that succeeds has asked for one (`adds_deployHeld`), and one that is refused because
the pipeline is active has asked for none (`refused_of_active`).
-/

namespace StreamPipeline

namespace World

/-- The number of installations that were asked for in a world. -/
def installsPart : Part World Nat :=
  ⟨(·.disturbance.installs), fun n w => { w with disturbance.installs := n }⟩

theorem lawful_locksPart : locksPart.Lawful := ⟨fun _ _ => rfl, fun _ => rfl, fun _ _ _ => rfl⟩

theorem lawful_installsPart : installsPart.Lawful :=
  ⟨fun _ _ => rfl, fun _ => rfl, fun _ _ _ => rfl⟩

/-- A part of the world that neither a deployment works on nor a report. -/
structure Beside {τ : Type} (q : Part World τ) : Prop where
  definitions : definitionsPart.Apart q
  ledger : ledgerPart.Apart q
  events : eventsPart.Apart q
  calls : callsPart.Apart q
  asked : q.Spared (disturbancePart.lift fun d =>
    (d.statusDelay, { d with statuses := d.statuses + 1 }))
  unavailable : ∀ t w, (q.set t w).disturbance.unavailable = w.disturbance.unavailable

theorem beside_locksPart : Beside locksPart := by
  constructor <;> first | exact ⟨fun _ _ => rfl, fun _ _ _ => rfl⟩ | exact fun _ _ => rfl

theorem beside_installsPart : Beside installsPart := by
  constructor <;> first | exact ⟨fun _ _ => rfl, fun _ _ _ => rfl⟩ | exact fun _ _ => rfl

end World

namespace Call

open World (Beside)

variable {τ : Type} {q : Part World τ} {c : Configuration} {poller : Poller} {registry : Registry}

theorem spares_find (h : Beside q) (name : String) : (World.store.find name).Spares q :=
  spares_noted h.calls _ (spares_query h.definitions fun ds => .ok (ds.get? name))

theorem spares_findPackage (h : Beside q) (name version : String) :
    (World.manager.findPackage name version).Spares q :=
  spares_noted h.calls _ (spares_query h.ledger fun l => .ok (l.findPackage name version))

theorem spares_upload (h : Beside q) (text : String) : (World.manager.upload text).Spares q :=
  spares_noted h.calls _ (spares_update h.ledger _)

theorem spares_platforms (h : Beside q) : World.manager.platforms.Spares q :=
  spares_noted h.calls _ (spares_query h.ledger fun l => .ok l.platforms)

theorem spares_pauseIfAny (delay : Option Nat) : (pauseIfAny delay).Spares q := by
  cases delay with
  | none => exact .done ()
  | some ms => exact .sleep (.done ())

theorem spares_status (h : Beside q) (name : String) : (World.manager.status name).Spares q := by
  refine spares_noted h.calls _ (spares_bind (spares_ofActivity ?_) fun isDown => ?_)
  · refine .bind (Activity.spares_step h.asked) fun delay => ?_
    refine .bind (spares_pauseIfAny delay) fun _ => Activity.spares_look fun t w => ?_
    exact congrArg (·.contains name) (h.unavailable t w)
  · cases isDown with
    | true => exact spares_bind (spares_throw _) fun _ => spares_query h.ledger (·.status name)
    | false => exact spares_query h.ledger (·.status name)

theorem spares_state (h : Beside q) (name : String) :
    ((World.lifecycle c).state name).Spares q := by
  refine spares_tryCatch (spares_bind (spares_status h name) fun _ => spares_pure _) fun e => ?_
  split
  · exact spares_pure _
  · exact spares_throw e

theorem spares_ensureUploaded (h : Beside q) (p : Package) :
    ((World.lifecycle c).ensureUploaded p).Spares q := by
  refine spares_bind (spares_findPackage h _ _) fun there => ?_
  split
  · exact spares_pure _
  · exact spares_discard (spares_upload h _)

theorem spares_emit (h : Beside q) (e : Event) :
    ((World.releaseService c poller registry).emit e).Spares q :=
  spares_ofActivity (Activity.spares_step (h.events.lift fun es => ((), es ++ [e])))

theorem spares_definition (h : Beside q) (name : String) :
    ((World.releaseService c poller registry).definition name).Spares q := by
  refine spares_bind (spares_find h name) fun d? => ?_
  cases d? with
  | none => exact spares_throw _
  | some d => exact spares_pure d

/-! ### Deployments -/

section

variable (hinstall : ∀ i, (World.manager.install i).Spares q) (d : Definition) (p : Properties)
include hinstall

/-- Where an installation spares a part, so does a deployment. -/
theorem spares_lifecycleInstall (h : Beside q) (requests : List Request) :
    ((World.lifecycle c).install d requests p).Spares q := by
  refine spares_bind (spares_state h _) fun s => spares_bind (spares_ofExcept _) fun _ => ?_
  refine spares_bind (spares_platforms h) fun platforms => ?_
  have hrest : ∀ package, (do
      (World.lifecycle c).ensureUploaded package
      World.manager.install (package.installation c d p)).Spares q := fun package =>
    spares_bind (spares_ensureUploaded h package) fun _ => hinstall _
  dsimp only
  split
  · exact spares_bind (spares_throw _) fun _ => spares_bind (spares_ofExcept _) hrest
  · exact spares_bind (spares_ofExcept _) hrest

theorem spares_deployDefinition (h : Beside q) :
    ((World.releaseService c poller registry).deployDefinition d p).Spares q := by
  refine spares_bind (spares_state h _) fun s => spares_bind (spares_ofExcept _) fun _ => ?_
  refine spares_bind (spares_ofExcept _) fun requests => ?_
  refine spares_bind (spares_lifecycleInstall hinstall d p h requests) fun r => ?_
  refine spares_bind (spares_tryCatch ?_ fun _ => spares_pure _) fun ids => spares_pure _
  exact spares_bind (spares_status h _) fun _ => spares_pure _

theorem spares_deployHeld (h : Beside q) (name : String) :
    ((World.releaseService c poller registry).deployHeld name p).Spares q := by
  refine spares_bind (spares_definition h name) fun d => spares_bind (spares_emit h _) fun _ => ?_
  refine spares_bind (spares_tryCatch (spares_deployDefinition hinstall d p h) fun e => ?_)
    fun r => spares_bind (spares_emit h _) fun _ => spares_pure r
  exact spares_bind (spares_emit h _) fun _ => spares_throw e

end

/-- An installation takes no lock. -/
theorem spares_install_locksPart (i : Installation) :
    (World.manager.install i).Spares World.locksPart := by
  have h := World.beside_locksPart
  have hasked : World.disturbancePart.Apart World.locksPart :=
    ⟨fun _ _ => rfl, fun _ _ _ => rfl⟩
  refine spares_noted h.calls _ (spares_bind (spares_ofActivity ?_) fun _ => ?_)
  · exact .bind (Activity.spares_step (hasked.lift _)) spares_pauseIfAny
  · exact spares_update h.ledger (·.install i)

/-! ### The number of installations -/

open World (installsPart lawful_installsPart beside_installsPart)

theorem adds_install (i : Installation) : (World.manager.install i).Adds installsPart 1 := by
  have h := beside_installsPart
  refine adds_of_spares_bind lawful_installsPart (spares_ofActivity
    (Activity.spares_step (h.calls.lift (·.note "install")))) fun e => ?_
  cases e with
  | some e => exact adds_throw e
  | none =>
      refine adds_of_bind_spares lawful_installsPart (fun w a w' hw => ?_)
        fun _ => spares_update h.ledger (·.install i)
      have hasked : (do
          let delay ← Activity.step (World.disturbancePart.lift fun d =>
            (d.installDelay, { d with installs := d.installs + 1 }))
          pauseIfAny delay).alone w =
          some ((), { w with disturbance.installs := w.disturbance.installs + 1 }) :=
        (Activity.alone_bind _ _ w).trans (alone_pauseIfAny _ _)
      have hends : (ofActivity _).Ends w fun r t => r = .ok a ∧ t = w' := ⟨_, _, hw, rfl, rfl⟩
      obtain ⟨-, rfl⟩ := (ends_ofActivity hasked).1 hends
      rfl

theorem adds_deployDefinition (d : Definition) (p : Properties) :
    ((World.releaseService c poller registry).deployDefinition d p).Adds installsPart 1 := by
  have hq := lawful_installsPart
  have h := beside_installsPart
  refine adds_of_spares_bind hq (spares_state h _) fun s => ?_
  refine adds_of_spares_bind hq (spares_ofExcept _) fun _ => ?_
  refine adds_of_spares_bind hq (spares_ofExcept _) fun requests => ?_
  refine adds_of_bind_spares hq ?_ fun r => ?_
  · refine adds_of_spares_bind hq (spares_state h _) fun s => ?_
    refine adds_of_spares_bind hq (spares_ofExcept _) fun _ => ?_
    refine adds_of_spares_bind hq (spares_platforms h) fun platforms => ?_
    have hrest : ∀ package, (do
        (World.lifecycle c).ensureUploaded package
        World.manager.install (package.installation c d p)).Adds installsPart 1 := fun package =>
      adds_of_spares_bind hq (spares_ensureUploaded h package) fun _ => adds_install _
    dsimp only
    split
    · exact adds_of_spares_bind hq (spares_throw _) fun _ =>
        adds_of_spares_bind hq (spares_ofExcept _) hrest
    · exact adds_of_spares_bind hq (spares_ofExcept _) hrest
  · refine spares_bind (spares_tryCatch ?_ fun _ => spares_pure _) fun ids => spares_pure _
    exact spares_bind (spares_status h _) fun _ => spares_pure _

/-- **A deployment that succeeds has asked for one installation.** -/
theorem adds_deployHeld (name : String) (p : Properties) :
    ((World.releaseService c poller registry).deployHeld name p).Adds installsPart 1 := by
  have hq := lawful_installsPart
  have h := beside_installsPart
  refine adds_of_spares_bind hq (spares_definition h name) fun d => ?_
  refine adds_of_spares_bind hq (spares_emit h _) fun _ => ?_
  exact adds_of_bind_spares hq (adds_tryCatch_told (adds_deployDefinition d p) _)
    fun r => spares_bind (spares_emit h _) fun _ => spares_pure r

/-! ### Refused deployments -/

variable {α β : Type} {k : Content}

/-- From whatever world with the content `k`, the call comes to an outcome and a content with `Q`,
and leaves a part of the world as it is. -/
def WorksBeside (q : Part World τ) (c : Call World α) (k : Content)
    (Q : Except Failure α → Content → Prop) : Prop :=
  ∀ w : World, w.calls.failing = [] → w.content = k → c.Ends w fun r w' =>
    w'.calls.failing = [] ∧ q.get w' = q.get w ∧ Q r w'.content

theorem Works.beside {c : Call World α} {Q : Except Failure α → Content → Prop} (h : c.Works k Q)
    (hq : q.Lawful) (hs : c.Spares q) : c.WorksBeside q k Q := by
  intro w hf hk
  obtain ⟨r, w', hc, hf', -, hQ⟩ := h w hf hk
  exact ⟨r, w', hc, hf', Activity.Spares.get_alone hs hq hc, hQ⟩

theorem worksBeside_bind {c : Call World α} {f : α → Call World β}
    {R : Except Failure β → Content → Prop} (h : c.WorksBeside q k fun r k' => match r with
      | .ok a => (f a).WorksBeside q k' R
      | .error e => R (.error e) k') : (c >>= f).WorksBeside q k R :=
  fun w hf hk => ends_bind.2 <| (h w hf hk).imp fun r w' ⟨hf', hq, hr⟩ => by
    cases r with
    | error e => exact ⟨hf', hq, hr⟩
    | ok a => exact (hr w' hf' rfl).imp fun _ _ ⟨hf'', hq', hR⟩ => ⟨hf'', hq'.trans hq, hR⟩

theorem worksBeside_tryCatch {c : Call World α} {g : Failure → Call World α}
    {Q : Except Failure α → Content → Prop} (h : c.WorksBeside q k fun r k' => match r with
      | .ok a => Q (.ok a) k'
      | .error e => (g e).WorksBeside q k' Q) : (tryCatch c g).WorksBeside q k Q :=
  fun w hf hk => ends_tryCatch.2 <| (h w hf hk).imp fun r w' ⟨hf', hq, hr⟩ => by
    cases r with
    | ok a => exact ⟨hf', hq, hr⟩
    | error e => exact (hr w' hf' rfl).imp fun _ _ ⟨hf'', hq', hQ⟩ => ⟨hf'', hq'.trans hq, hQ⟩

theorem worksBeside_deployDefinition {d : Definition} {p : Properties} {s : State}
    (hs : k.state d.name = .ok s) (hactive : s.allowsDeploy = false)
    {Q : Except Failure Deployment → Content → Prop}
    (h : ∀ reason, Q (.error (.conflict reason d.name)) k) :
    ((World.releaseService c poller registry).deployDefinition d p).WorksBeside installsPart k
      Q := by
  have hq := lawful_installsPart
  refine worksBeside_bind ((works_state ?_).beside hq (spares_state beside_installsPart _))
  rw [hs]
  refine worksBeside_bind ((works_ofExcept ?_).beside hq (spares_ofExcept _))
  obtain ⟨reason, he⟩ := State.checkDeployable_eq_conflict hactive d.name
  rw [he]
  exact h reason

/-- **A deployment of an active pipeline is a conflict.** It asks for no installation, and does no
more than to tell of itself. -/
theorem refused_of_active {name : String} {p : Properties} {d : Definition} {s : State}
    (hd : k.definitions.get? name = some d) (hname : d.name = name) (hs : k.state name = .ok s)
    (hactive : s.allowsDeploy = false) :
    ((World.releaseService c poller registry).deployHeld name p).WorksBeside installsPart k
      fun r k' => (∃ reason, r = .error (.conflict reason name)) ∧ ∃ es, k' = k.told es := by
  have hq := lawful_installsPart
  have h := beside_installsPart
  have hemit : ∀ {k e R}, R (.ok ()) (k.told [e]) →
      ((World.releaseService c poller registry).emit e).WorksBeside installsPart k R :=
    fun hR => (works_emit hR).beside hq (spares_emit h _)
  refine worksBeside_bind ((works_definition (fun d' hd' => ?_) fun hmissing => ?_).beside hq
    (spares_definition h name))
  · obtain rfl := Option.some.inj (hd.symm.trans hd')
    subst hname
    -- what is seen of the pipeline does not depend on the event that was told of the start
    have hs' : (k.told [.deployRequested d.name d.stages.length]).state d.name = .ok s := hs
    refine worksBeside_bind (hemit (worksBeside_bind (worksBeside_tryCatch ?_)))
    refine worksBeside_deployDefinition hs' hactive fun reason => ?_
    refine worksBeside_bind (hemit ((works_throw ?_).beside hq (spares_throw _)))
    exact ⟨⟨reason, rfl⟩, _, Content.told_told ..⟩
  · cases hd.symm.trans hmissing

end Call

end StreamPipeline
