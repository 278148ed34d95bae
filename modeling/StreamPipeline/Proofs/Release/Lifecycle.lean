import StreamPipeline.Proofs.Release.Command
import StreamPipeline.Proofs.Simulation.Content
import StreamPipeline.Proofs.State

/-!
# What a lifecycle does

For each operation of the lifecycle of a world's releases there is one rule that says what it does
to the content of the world. An operation that makes a release first looks at what is there and
refuses; from the first change on, the rule follows what the ledger answers.
-/

namespace StreamPipeline

/-! ### What operations come to -/

/-- The state that the lifecycle sees: what the stages report, or undeployed where no release is
running. -/
def Content.state (k : Content) (name : String) : Except Failure State :=
  match k.status name with
  | .ok stages => .ok (PipelineStatus.ofStages stages).state
  | .error e => if e.isNoRelease then .ok .undeployed else .error e

/-- The content with another ledger. -/
def Content.keeping (k : Content) (l : Ledger) : Content := { k with ledger := l }

/-- The content after a manifest was written back into the stored definition, if there is one. -/
def Content.reconciled (k : Content) (name : String) (m : Manifest) : Content :=
  match k.definitions.get? name with
  | some d => { k with definitions := k.definitions.insert d.name (d.withSettings m.settings) }
  | none => k

/-- Uploads a package unless the same one is there already. -/
def Ledger.ensure (l : Ledger) (p : Package) : Except Failure (Unit × Ledger) :=
  if (l.findPackage p.info.name p.info.version).any (·.digest == p.digest) then .ok ((), l)
  else (l.upload p.text).map fun r => ((), r.2)

/-- Ends the running release and deletes its package. -/
def Ledger.uninstall (l : Ledger) (name : String) : Except Failure (Release × Ledger) :=
  (l.delete name).map fun r => (r.1, r.2.deletePackage r.1.package.name)

/-- What is to be installed of a pipeline's package. -/
def Package.installation (package : Package) (c : Configuration) (d : Definition)
    (p : Properties) : Installation :=
  { release := d.name, package := package.info.name, packageVersion := package.info.version
    platform := p.platform?.getD c.platform, values := (Overrides.ofProperties p d.labels).text }

/-- What is to replace a running release. -/
def Package.upgrade (package : Package) (name : String) (values : Overrides)
    (o : UpgradeOptions) : Upgrade :=
  { release := name, package := package.info.name, packageVersion := package.info.version
    values := values.text, force := o.force }

/-- What a package takes to be installed: a pipeline that may be deployed, the platform, and a
ledger `l` that has the package. -/
structure Content.Installable (k : Content) (c : Configuration) (d : Definition)
    (requests : List Request) (p : Properties) (package : Package) (l : Ledger) : Prop where
  allowed : ∃ s, k.state d.name = .ok s ∧ s.allowsDeploy = true
  platform : k.ledger.platforms.any (·.name == p.platform?.getD c.platform) = true
  packed : c.packager.package d requests p = .ok package
  ensured : k.ledger.ensure package = .ok ((), l)

/-- What an upgrade takes: a running release, a package made of it, and a ledger `l` that has the
package. -/
structure Content.Upgradable (k : Content) (name : String) (p : Properties) (o : UpgradeOptions)
    (package : Package) (values : Overrides) (l : Ledger) : Prop where
  built : ∃ current, k.ledger.live name = .ok current ∧
    Lifecycle.upgraded { current with name } p o = .ok (package, values)
  ensured : k.ledger.ensure package = .ok ((), l)

/-- The state that is seen allows a deployment. -/
theorem Content.Installable.allows {k : Content} {c : Configuration} {d : Definition}
    {requests : List Request} {p : Properties} {package : Package} {l : Ledger}
    (h : k.Installable c d requests p package l) {s : State} (hs : k.state d.name = .ok s) :
    s.allowsDeploy = true := by
  obtain ⟨s', hs', hallowed⟩ := h.allowed
  cases hs.symm.trans hs'
  exact hallowed

namespace Call

variable {c : Configuration} {k : Content}

theorem works_state {name : String} {Q : Except Failure State → Content → Prop}
    (h : Q (k.state name) k) : ((World.lifecycle c).state name).Works k Q := by
  refine works_tryCatch (works_bind (works_status ?_))
  unfold Content.state at h
  cases hs : k.status name with
  | ok stages =>
      rw [hs] at h
      exact works_pure h
  | error e =>
      rw [hs] at h
      dsimp only
      split
      · exact works_pure (by simpa [*] using h)
      · exact works_throw (by simpa [*] using h)

theorem works_ensureUploaded {p : Package} {Q : Except Failure Unit → Content → Prop}
    (h : Q (apply (·.ensure p) k.ledger).1 (k.keeping (apply (·.ensure p) k.ledger).2)) :
    ((World.lifecycle c).ensureUploaded p).Works k Q := by
  refine works_bind (works_findPackage ?_)
  unfold apply Ledger.ensure at h
  dsimp only
  split
  · exact works_pure (by simpa [*, Content.keeping] using h)
  · refine works_discard (works_upload ?_)
    cases hu : k.ledger.upload p.text <;> simpa [*, apply, Except.map, Content.keeping] using h

theorem works_reconcile {name : String} {m : Manifest} {Q : Except Failure Unit → Content → Prop}
    (h : Q (.ok ()) (k.reconciled name m)) :
    ((World.lifecycle c).reconcile name m).Works k Q := by
  refine works_bind (works_find ?_)
  unfold Content.reconciled at h
  cases hd : k.definitions.get? name with
  | none => exact works_pure (by simpa [hd] using h)
  | some d => exact works_upsert (by rw [hd] at h; exact h)

/-- An installation is refused, or what comes of it is what the ledger answers. -/
theorem works_lifecycleInstall {d : Definition} {requests : List Request} {p : Properties}
    {Q : Except Failure Release → Content → Prop}
    (hrefused : (∀ package l, ¬ k.Installable c d requests p package l) → ∀ e, Q (.error e) k)
    (hasked : ∀ package l, k.Installable c d requests p package l →
      Q (apply (·.install (package.installation c d p)) l).1
        (k.keeping (apply (·.install (package.installation c d p)) l).2)) :
    ((World.lifecycle c).install d requests p).Works k Q := by
  -- each step either refuses, and is what the package lacks, or gives what the package takes
  refine works_bind (works_state ?_)
  cases hs : k.state d.name with
  | error e => exact hrefused (fun _ _ ⟨⟨_, hs', _⟩, _, _, _⟩ => nomatch hs.symm.trans hs') e
  | ok s =>
  refine works_bind (works_ofExcept ?_)
  cases hallowed : s.allowsDeploy with
  | false =>
      obtain ⟨e, he⟩ := State.checkDeployable_eq_error hallowed d.name
      rw [he]
      exact hrefused (fun _ _ h => by cases hallowed.symm.trans (h.allows hs)) e
  | true =>
  rw [State.checkDeployable_eq_ok hallowed]
  refine works_bind (works_platforms ?_)
  cases hplatform : k.ledger.platforms.any (·.name == p.platform?.getD c.platform) with
  | false =>
      simp only [World.lifecycle, hplatform]
      exact works_bind (works_throw (hrefused (fun _ _ h => nomatch hplatform ▸ h.platform) _))
  | true =>
  simp only [World.lifecycle, hplatform]
  refine works_bind (works_ofExcept ?_)
  cases hp : c.packager.package d requests p with
  | error e => exact hrefused (fun _ _ h => nomatch hp ▸ h.packed) e
  | ok package =>
  refine works_bind (works_ensureUploaded (c := c) ?_)
  cases hl : k.ledger.ensure package with
  | error e =>
      simp only [apply, hl]
      refine hrefused (fun _ _ h => ?_) e
      cases hp.symm.trans h.packed
      cases hl.symm.trans h.ensured
  | ok r =>
  simp only [apply, hl]
  exact works_install (hasked package r.2 ⟨⟨s, hs, hallowed⟩, hplatform, hp, hl⟩)

/-- An upgrade is refused, or what comes of it is what the ledger answers, and the definition
follows the new release. -/
theorem works_lifecycleUpgrade {name : String} {p : Properties} {o : UpgradeOptions}
    {Q : Except Failure Release → Content → Prop}
    (hrefused : (∀ package values l, ¬ k.Upgradable name p o package values l) →
      ∀ e, Q (.error e) k)
    (hasked : ∀ package values l, k.Upgradable name p o package values l →
      match l.upgrade (package.upgrade name values o) with
        | .ok (r, l') => Q (.ok r) ((k.keeping l').reconciled name r.manifest)
        | .error e => Q (.error e) (k.keeping l)) :
    ((World.lifecycle c).upgrade name p o).Works k Q := by
  -- what is not running cannot be upgraded
  have hdead : (∀ current, k.ledger.live name ≠ .ok current) → ∀ e, Q (.error e) k :=
    fun h => hrefused fun _ _ _ ⟨⟨current, hlive, _⟩, _⟩ => h current hlive
  refine works_bind (works_info ?_)
  cases hcurrent : k.ledger.latest name with
  | error e =>
      refine hdead (fun current h => ?_) e
      obtain ⟨rs, hrs, -⟩ := Ledger.live_eq_ok_iff.1 h
      cases hcurrent.symm.trans (Ledger.latest_eq_ok_iff.2 ⟨rs, hrs⟩)
  | ok current =>
  obtain ⟨rs, hrs⟩ := Ledger.latest_eq_ok_iff.1 hcurrent
  dsimp only
  cases hlive : current.isLive with
  | false =>
      rw [Bool.not_false, if_pos rfl]
      refine works_bind (works_throw (hdead (fun r h => ?_) _))
      obtain ⟨rs', hrs', hlive'⟩ := Ledger.live_eq_ok_iff.1 h
      cases hrs.symm.trans hrs'
      exact absurd hlive' (by simp [hlive])
  | true =>
  have hrunning := Ledger.live_eq_ok_iff.2 ⟨rs, hrs, hlive⟩
  rw [Bool.not_true, if_neg Bool.false_ne_true]
  refine works_bind (works_ofExcept ?_)
  cases hu : Lifecycle.upgraded { current with name } p o with
  | error e =>
      refine hrefused (fun _ _ _ ⟨⟨r, hr, hu'⟩, _⟩ => ?_) e
      cases hrunning.symm.trans hr
      cases hu.symm.trans hu'
  | ok r =>
  obtain ⟨package, values⟩ := r
  refine works_bind (works_ensureUploaded (c := c) ?_)
  cases hl : k.ledger.ensure package with
  | error e =>
      simp only [apply, hl]
      refine hrefused (fun _ _ _ ⟨⟨r, hr, hu'⟩, hl'⟩ => ?_) e
      cases hrunning.symm.trans hr
      cases hu.symm.trans hu'
      cases hl.symm.trans hl'
  | ok r =>
  -- nothing is left that can refuse but the ledger itself
  have h := hasked package values r.2 ⟨⟨current, hrunning, hu⟩, hl⟩
  simp only [apply, hl]
  refine works_bind (works_upgrade ?_)
  unfold Package.upgrade at h
  unfold apply
  split at h
  · rename_i r' l' hup
    simp only [Content.keeping, hup]
    exact works_bind (works_reconcile (c := c) (works_pure h))
  · rename_i e hup
    simp only [Content.keeping, hup]
    exact h

/-- What comes of a rollback is what the ledger answers, and the definition follows the new
release. -/
theorem works_lifecycleRollback {name : String} {version : Nat}
    {Q : Except Failure Release → Content → Prop}
    (h : match k.ledger.rollback name version with
      | .ok (r, l) => Q (.ok r) ((k.keeping l).reconciled name r.manifest)
      | .error e => Q (.error e) k) :
    ((World.lifecycle c).rollback name version).Works k Q := by
  refine works_bind (works_rollback ?_)
  unfold apply
  split at h
  · rename_i r l hr
    simp only [hr]
    exact works_bind (works_reconcile (c := c) (works_pure h))
  · rename_i e hr
    simp only [hr]
    exact h

theorem works_uninstall {name : String} {Q : Except Failure Release → Content → Prop}
    (h : Q (apply (·.uninstall name) k.ledger).1
      (k.keeping (apply (·.uninstall name) k.ledger).2)) :
    ((World.lifecycle c).uninstall name).Works k Q := by
  refine works_bind (works_delete ?_)
  unfold apply Ledger.uninstall at h
  unfold apply
  cases hd : k.ledger.delete name with
  | error e =>
      simp only [hd, Except.map] at h ⊢
      exact h
  | ok r =>
      simp only [hd] at h ⊢
      exact works_bind (works_deletePackage (works_pure h))

end Call

end StreamPipeline
