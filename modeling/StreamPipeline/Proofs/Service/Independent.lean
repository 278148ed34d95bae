import StreamPipeline.Proofs.Service.Owned

/-!
# Pipelines are independent

An operation of a service stays with what belongs to its pipeline (`Call.stays_deployHeld` and its
neighbours, `Call.remains_ask`): what it comes to depends on nothing else, and it changes nothing
else but the number of uploads and the events. **So two operations on different pipelines can be
put in either order** (`World.operations_independent`): each comes to the same reply, and what is
left behind is the same but for the order of events, provided that they work with packages of
different names, as they do where none is asked for.
-/

namespace StreamPipeline

/-! ### Replies -/

/-- What an operation gives back. -/
inductive Reply
  | done
  | deployment (r : Deployment)
  | release (r : Release)
  | definition (d : Definition)

/-- The call of an operation with what it gives back. -/
def Operation.ask {σ : Type} (v : Service σ) : Operation → Call σ Reply
  | create d => (fun _ => .done) <$> v.create d
  | deploy name p => .deployment <$> v.deploy name p
  | undeploy name => (fun _ => .done) <$> v.undeploy name
  | update name p o => .release <$> v.update name p o
  | rollback name version => .release <$> v.rollback name version
  | delete name => .definition <$> v.delete name

/-! ### Operations on one pipeline -/

namespace Call

variable {c : Configuration} {poller : Poller} {registry : Registry} {k : Content} {n q : String}

theorem stays_emit {e : Event} {Q : Except Failure Unit → Content → Prop} (h : Q (.ok ()) k) :
    ((World.releaseService c poller registry).emit e).Stays n q k Q :=
  ⟨.ok (), k, [e], 0, h, fun _ hk' => works_emit ⟨rfl, hk', rfl, rfl, rfl, rfl, rfl⟩⟩

theorem stays_definition {Q : Except Failure Definition → Content → Prop}
    (hd : ∀ d, k.definitions.get? n = some d → Q (.ok d) k)
    (hmissing : Q (.error (.missing .pipeline n)) k) :
    ((World.releaseService c poller registry).definition n).Stays n q k Q := by
  refine stays_bind (stays_find ?_)
  cases hfound : k.definitions.get? n with
  | none => exact stays_throw hmissing
  | some d => exact stays_pure (hd d hfound)

theorem stays_stop (hq : ∀ r ∈ k.ledger.history n, r.package.name = q)
    {Q : Except Failure Unit → Content → Prop} (h : ∀ r j, Q r j) :
    ((World.lifecycle c).deployer.undeploy n).Stays n q k Q := by
  refine stays_tryCatch (stays_discard (stays_uninstall hq fun r l => ?_))
  cases r with
  | ok _ => exact h _ _
  | error e =>
      show (if e.isNoRelease = true then pure () else throw e : Call World Unit).Stays n q _ Q
      split
      · exact stays_pure (h _ _)
      · exact stays_throw (h _ _)

theorem stays_deployDefinition {d : Definition} {p : Properties} (hn : d.name = n)
    (hq : p.packageName?.getD n = q) {Q : Except Failure Deployment → Content → Prop}
    (h : ∀ r j, Q r j) :
    ((World.releaseService c poller registry).deployDefinition d p).Stays n q k Q := by
  subst hn
  refine stays_bind (stays_state ?_)
  cases k.state d.name with
  | error e => exact h _ _
  | ok s =>
  refine stays_bind (stays_ofExcept ?_)
  cases State.checkDeployable d.name s with
  | error e => exact h _ _
  | ok _ =>
  refine stays_bind (stays_ofExcept ?_)
  cases Request.build (World.releaseService c poller registry).registry d p with
  | error e => exact h _ _
  | ok requests =>
  refine stays_bind (stays_lifecycleInstall rfl hq fun r j => ?_)
  cases r with
  | error e => exact h _ _
  | ok r =>
  refine stays_bind (stays_tryCatch (stays_bind (stays_status ?_)))
  cases j.status d.name with
  | error e => exact stays_pure (stays_pure (h _ _))
  | ok stages => exact stays_pure (stays_pure (h _ _))

/-- What is done for a deployment while the lock is held. -/
theorem stays_deployHeld {p : Properties} (hd : ∀ d, k.definitions.get? n = some d → d.name = n)
    (hq : p.packageName?.getD n = q) {Q : Except Failure Deployment → Content → Prop}
    (h : ∀ r j, Q r j) : ((World.releaseService c poller registry).deployHeld n p).Stays n q k Q := by
  refine stays_bind (stays_definition (fun d hfound => ?_) (h _ _))
  refine stays_bind (stays_emit (stays_bind (stays_tryCatch
    (stays_deployDefinition (hd d hfound) hq fun r j => ?_))))
  cases r with
  | error e => exact stays_bind (stays_emit (stays_throw (h _ _)))
  | ok r => exact stays_bind (stays_emit (stays_pure (h _ _)))

/-- From whatever content with the excerpt of `k` and with no lock held, the call comes to one
outcome and puts one excerpt in its place, and no lock is held then. -/
def Remains {α : Type} (n q : String) (c : Call World α) (k : Content) : Prop :=
  ∃ r j es u, ∀ k' : Content, k'.excerpt n q = k.excerpt n q →
    c.Serves k' fun r' k'' => r' = r ∧ Content.Replaces n q j es u k' k''

theorem Stays.remains {α : Type} {call : Call World α} {Q : Except Failure α → Content → Prop}
    (h : call.Stays n q k Q) : call.Remains n q k :=
  let ⟨r, j, es, u, _, hc⟩ := h
  ⟨r, j, es, u, fun k' hk' => (hc k' hk').serves⟩

theorem Stays.remains_locked {α : Type} {body : Call World α}
    {Q : Except Failure α → Content → Prop} (h : body.Stays n q k Q) (name : String) :
    ((World.releaseService c poller registry).locked name body).Remains n q k :=
  let ⟨r, j, es, u, _, hc⟩ := h
  ⟨r, j, es, u, fun k' hk' => serves_locked (hc k' hk')⟩

/-- A call that is made, while the lock is held, on a pipeline that is there. -/
theorem Stays.remains_held {α : Type} {body : Call World α}
    (h : body.Stays n q k fun _ _ => True) :
    ((World.releaseService c poller registry).locked n do
      discard ((World.releaseService c poller registry).definition n)
      body).Remains n q k := by
  refine Stays.remains_locked (Q := fun _ _ => True) ?_ n
  exact stays_bind (stays_discard (stays_definition (fun _ _ => h) trivial))

theorem Remains.map {α β : Type} {call : Call World α} (h : call.Remains n q k) (g : α → β) :
    (g <$> call).Remains n q k := by
  obtain ⟨r, j, es, u, hc⟩ := h
  refine ⟨r.map g, j, es, u, fun k' hk' w hf hh hw => ends_map.2 ?_⟩
  refine (hc k' hk' w hf hh hw).imp ?_
  rintro _ w' ⟨hf', hh', rfl, hreplaces⟩
  exact ⟨hf', hh', rfl, hreplaces⟩

/-- **An operation stays with what belongs to its pipeline.** -/
theorem remains_ask {op : Operation} (hkeyed : k.Keyed) (horderly : k.ledger.Orderly)
    (howned : k.ledger.Owned) :
    (op.ask (World.releaseService c poller registry)).Remains op.name op.package k := by
  have always {α : Type} : ∀ (_ : Except Failure α) (_ : Content), True := fun _ _ => trivial
  have hd := fun name => hkeyed name
  have hname := fun name => (horderly name).name_eq
  have hpackage := fun name r (hr : r ∈ k.ledger.history name) => howned.package_name hr
  cases op with
  | create d => exact (stays_save rfl always).remains.map _
  | deploy name p =>
      rw [Operation.ask, Service.deploy_eq]
      exact ((stays_deployHeld (hd name) rfl always).remains_locked name).map _
  | undeploy name =>
      refine (Stays.remains_held ?_).map _
      refine stays_bind (stays_stop (hpackage name) fun r j => ?_)
      cases r with
      | error e => trivial
      | ok _ => exact stays_emit trivial
  | update name p o =>
      refine (Stays.remains_held ?_).map _
      refine stays_bind (stays_lifecycleUpgrade (hd name) (hpackage name) fun r j => ?_)
      cases r with
      | error e => trivial
      | ok r => exact stays_bind (stays_emit (stays_pure trivial))
  | rollback name version =>
      refine (Stays.remains_held ?_).map _
      refine stays_bind (stays_lifecycleRollback (hd name) (hname name) fun r j => ?_)
      cases r with
      | error e => trivial
      | ok r => exact stays_bind (stays_emit (stays_pure trivial))
  | delete name =>
      refine (Stays.remains_held ?_).map _
      refine stays_bind (stays_state ?_)
      cases k.state (Operation.delete name).name with
      | error e => trivial
      | ok s =>
          dsimp only
          split
          · refine stays_bind (stays_stop (hpackage name) fun r j => ?_)
            cases r with
            | error e => trivial
            | ok _ =>
                refine stays_bind (stays_emit (stays_bind (stays_remove ?_)))
                cases j.definitions.get? (Operation.delete name).name with
                | none => exact stays_throw trivial
                | some d => exact stays_pure trivial
          · refine stays_bind (stays_remove ?_)
            cases k.definitions.get? (Operation.delete name).name with
            | none => exact stays_throw trivial
            | some d => exact stays_pure trivial

end Call

/-! ### Two operations -/

namespace World

/-- Two operations, one after the other, with their replies. -/
def InTurn (w : World) (v : Service World) (a b : Operation) (ra rb : Except Failure Reply)
    (w' : World) : Prop :=
  ∃ w₁, (a.ask v).Gives w ra w₁ ∧ (b.ask v).Gives w₁ rb w'

/-- A call that is served comes to what it is served with. -/
theorem Settled.exists_gives {α : Type} {w : World} (hw : w.Settled) {call : Call World α}
    {r : Except Failure α} {P : Content → Prop}
    (h : call.Serves w.content fun r' k' => r' = r ∧ P k') :
    ∃ w', call.Gives w r w' ∧ w'.Settled ∧ P w'.content := by
  obtain ⟨⟨r', w', hg⟩, honly⟩ := (h w hw.1 hw.2 rfl).gives
  obtain ⟨hf, hh, rfl, hP⟩ := honly r' w' hg
  exact ⟨w', hg, ⟨hf, hh⟩, hP⟩

/-- **Pipelines are independent**: where no deployment has asked for a package of another name, two
operations on different pipelines come to the same replies in either order, and what is left behind
is the same but for the order of events. Of the two operations it is asked that they name no package
either, or at least that they do not work with one of the same name. -/
theorem operations_independent {platforms : List Platform} {initial : State} {w : World}
    (t : Run (fun _ op => op.NamesNoPackage) (fresh platforms initial) w) (c : Configuration)
    (poller : Poller) (registry : Registry) {a b : Operation} (hname : a.name ≠ b.name)
    (hpackage : (a.NamesNoPackage ∧ b.NamesNoPackage) ∨ a.package ≠ b.package) :
    ∃ ra rb w₁ w₂, w.InTurn (releaseService c poller registry) a b ra rb w₁ ∧
      w.InTurn (releaseService c poller registry) b a rb ra w₂ ∧
      w₁.content.Agrees w₂.content := by
  have hne : a.package ≠ b.package := by
    rcases hpackage with ⟨ha, hb⟩ | hne
    · rwa [Operation.package_eq_name ha, Operation.package_eq_name hb]
    · exact hne
  have hsettled := t.settled (settled_fresh platforms initial)
  have hremains : ∀ op : Operation, (op.ask (releaseService c poller registry)).Remains op.name
      op.package w.content := fun op => Call.remains_ask t.keyed t.orderly t.owned
  obtain ⟨ra, ja, ea, ua, ha⟩ := hremains a
  obtain ⟨rb, jb, eb, ub, hb⟩ := hremains b
  obtain ⟨wa, hga, hsa, hra⟩ := hsettled.exists_gives (ha w.content rfl)
  obtain ⟨wb, hgb, hsb, hrb⟩ := hsettled.exists_gives (hb w.content rfl)
  -- in the second place each operation finds its own pipeline as it was
  obtain ⟨wab, hgab, -, hrab⟩ :=
    hsa.exists_gives (hb wa.content (hra.excerpt_of_ne hname.symm hne.symm))
  obtain ⟨wba, hgba, -, hrba⟩ := hsb.exists_gives (ha wb.content (hrb.excerpt_of_ne hname hne))
  exact ⟨ra, rb, wab, wba, ⟨wa, hga, hgab⟩, ⟨wb, hgb, hgba⟩,
    hra.comm hname.symm hne.symm hrab hrb hrba⟩

/-- The running sample pipeline is undeployed and another one deployed, in either order. -/
theorem operations_independent_ticktock :
    ∃ w ra rb w₁ w₂,
      Run (fun _ op => op.NamesNoPackage)
        (fresh [⟨"default", "local", "In-process platform"⟩] .deployed) w ∧
      w.ledger.IsLive "ticktock" ∧
      w.InTurn (releaseService { slots := 4 } ⟨4, ⟨10000000000⟩⟩ Samples.registry)
        (.undeploy "ticktock") (.deploy "tocktick" ∅) ra rb w₁ ∧
      w.InTurn (releaseService { slots := 4 } ⟨4, ⟨10000000000⟩⟩ Samples.registry)
        (.deploy "tocktick" ∅) (.undeploy "ticktock") rb ra w₂ ∧
      w₁.content.Agrees w₂.content := by
  obtain ⟨requests, package, hrequests, hpackage⟩ := Samples.exists_package
  obtain ⟨v₁, v₂, hcreated, hdeployed, -, -, -, hlive, -⟩ := exists_deployment
    [⟨"default", "local", "In-process platform"⟩] .deployed (c := { slots := 4 })
    ⟨4, ⟨10000000000⟩⟩ (by decide) hrequests hpackage
  have t₂ : Run (fun _ op => op.NamesNoPackage)
      (fresh [⟨"default", "local", "In-process platform"⟩] .deployed) v₂ :=
    .operation (.operation .refl _ _ _ _ _ (by rintro _ _ ⟨⟩) hcreated) _ _ _ _ _
      (fun _ _ h => by cases h; rfl) hdeployed
  -- the other pipeline is defined beside the one that is running
  obtain ⟨⟨r, w, hother⟩, honly⟩ := (t₂.settled (settled_fresh _ _)).performs { slots := 4 }
    ⟨4, ⟨10000000000⟩⟩ Samples.registry (.create { Samples.bound with name := "tocktick" })
  have hledger : w.ledger = v₂.ledger := by
    have ht := (honly r w hother).2
    generalize hk : w.content = k at ht
    have hw : w.ledger = k.ledger := congrArg Content.ledger hk
    cases ht <;> exact hw
  obtain ⟨ra, rb, w₁, w₂, h⟩ := operations_independent
    (t₂.operation _ _ _ _ _ (by rintro _ _ ⟨⟩) hother) { slots := 4 }
    ⟨4, ⟨10000000000⟩⟩ Samples.registry
    (a := .undeploy "ticktock") (b := .deploy "tocktick" ∅) (by decide)
    (.inl ⟨fun _ _ h => (nomatch h), fun _ _ h => by cases h; rfl⟩)
  exact ⟨w, ra, rb, w₁, w₂, t₂.operation _ _ _ _ _ (by rintro _ _ ⟨⟩) hother,
    hledger ▸ hlive, h⟩

end World

end StreamPipeline
