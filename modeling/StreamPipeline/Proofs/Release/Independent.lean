import StreamPipeline.Proofs.Release.Stored
import StreamPipeline.Proofs.Simulation.Excerpt

/-!
# Lifecycles that stay with one pipeline

What a lifecycle does for a pipeline stays with what belongs to it: its name and the name of its
package. A first installation names its package (`package_name`), everything later takes the name
that the releases have (`upgraded_name`).
-/

namespace StreamPipeline

/-- The package of a pipeline has the name that is asked for, or else that of the pipeline. -/
theorem Packager.package_name {k : Packager} {d : Definition} {requests : List Request}
    {p : Properties} {package : Package} (h : k.package d requests p = .ok package) :
    package.info.name = p.packageName?.getD d.name := by
  obtain ⟨version, -, rfl⟩ := package_eq_ok_iff.1 h
  rfl

/-- What replaces a release has a package of the same name. -/
theorem Lifecycle.upgraded_name {r : Release} {p : Properties} {o : UpgradeOptions}
    {package : Package} {values : Overrides} (h : upgraded r p o = .ok (package, values)) :
    package.info.name = r.package.name := by
  obtain ⟨labels, m, version, -, -, -, -, -, rfl⟩ := upgraded_eq_ok_iff.1 h
  rfl

namespace Call

variable {c : Configuration} {k : Content} {n q : String}

theorem stays_state {Q : Except Failure State → Content → Prop} (h : Q (k.state n) k) :
    ((World.lifecycle c).state n).Stays n q k Q := by
  refine stays_tryCatch (stays_bind (stays_status ?_))
  unfold Content.state at h
  cases hs : k.status n with
  | ok stages =>
      rw [hs] at h
      exact stays_pure h
  | error e =>
      rw [hs] at h
      dsimp only
      split
      · exact stays_pure (by simpa [*] using h)
      · exact stays_throw (by simpa [*] using h)

theorem stays_ensureUploaded {p : Package} (hq : p.info.name = q) (hp : p.Packed)
    {Q : Except Failure Unit → Content → Prop} (h : ∀ r l, Q r (k.keeping l)) :
    ((World.lifecycle c).ensureUploaded p).Stays n q k Q := by
  subst hq
  refine stays_bind (stays_findPackage ?_)
  dsimp only
  split
  · exact stays_pure (h _ k.ledger)
  · refine stays_discard (stays_upload (fun p' hp' => ?_) fun r l => h _ l)
    cases hp.ofText?_text.symm.trans hp'
    rfl

theorem stays_reconcile {m : Manifest} (hd : ∀ d, k.definitions.get? n = some d → d.name = n)
    {Q : Except Failure Unit → Content → Prop} (h : ∀ r j, Q r j) :
    ((World.lifecycle c).reconcile n m).Stays n q k Q := by
  refine stays_bind (stays_find ?_)
  cases hfound : k.definitions.get? n with
  | none => exact stays_pure (h _ _)
  | some d => exact stays_upsert (d := d.withSettings m.settings) (hd d hfound) (h _ _)

theorem stays_lifecycleInstall {d : Definition} {requests : List Request} {p : Properties}
    (hn : d.name = n) (hq : p.packageName?.getD n = q) {Q : Except Failure Release → Content → Prop}
    (h : ∀ r j, Q r j) : ((World.lifecycle c).install d requests p).Stays n q k Q := by
  subst hn
  refine stays_bind (stays_state ?_)
  cases k.state d.name with
  | error e => exact h _ _
  | ok s =>
  refine stays_bind (stays_ofExcept ?_)
  cases State.checkDeployable d.name s with
  | error e => exact h _ _
  | ok _ =>
  refine stays_bind (stays_platforms ?_)
  dsimp only
  split
  · exact stays_bind (stays_throw (h _ _))
  refine stays_bind (stays_ofExcept ?_)
  cases hpackage : (World.lifecycle c).packager.package d requests p with
  | error e => exact h _ _
  | ok package =>
  have hname := (Packager.package_name hpackage).trans hq
  refine stays_bind (stays_ensureUploaded (c := c) hname (Packager.packed_of_package hpackage)
    fun r l => ?_)
  cases r with
  | error e => exact h _ _
  | ok _ => exact stays_install (i := package.installation c d p) rfl hname fun r l => h r _

theorem stays_lifecycleUpgrade {p : Properties} {o : UpgradeOptions}
    (hd : ∀ d, k.definitions.get? n = some d → d.name = n)
    (hq : ∀ r ∈ k.ledger.history n, r.package.name = q)
    {Q : Except Failure Release → Content → Prop} (h : ∀ r j, Q r j) :
    ((World.lifecycle c).upgrade n p o).Stays n q k Q := by
  refine stays_bind (stays_info ?_)
  cases hlatest : k.ledger.latest n with
  | error e => exact h _ _
  | ok current =>
  obtain ⟨rs, hrs⟩ := Ledger.latest_eq_ok_iff.1 hlatest
  dsimp only
  split
  · exact stays_bind (stays_throw (h _ _))
  refine stays_bind (stays_ofExcept ?_)
  cases hu : Lifecycle.upgraded { current with name := n } p o with
  | error e => exact h _ _
  | ok made =>
  obtain ⟨package, values⟩ := made
  have hname : package.info.name = q :=
    (Lifecycle.upgraded_name hu).trans (hq current (hrs ▸ List.mem_cons_self ..))
  refine stays_bind (stays_ensureUploaded (c := c) hname (Lifecycle.packed_of_upgraded hu)
    fun r l => ?_)
  cases r with
  | error e => exact h _ _
  | ok _ =>
  refine stays_bind (stays_upgrade (u := package.upgrade n values o) rfl hname fun r l => ?_)
  cases r with
  | error e => exact h _ _
  | ok r =>
  refine stays_bind (stays_reconcile (c := c) (k := k.keeping l) hd fun done j => ?_)
  cases done with
  | error e => exact h _ _
  | ok _ => exact stays_pure (h _ _)

theorem stays_lifecycleRollback {version : Nat}
    (hd : ∀ d, k.definitions.get? n = some d → d.name = n)
    (hn : ∀ r ∈ k.ledger.history n, r.name = n)
    {Q : Except Failure Release → Content → Prop} (h : ∀ r j, Q r j) :
    ((World.lifecycle c).rollback n version).Stays n q k Q := by
  refine stays_bind (stays_rollback hn fun r l => ?_)
  cases r with
  | error e => exact h _ _
  | ok r =>
  refine stays_bind (stays_reconcile (c := c) (k := k.keeping l) hd fun done j => ?_)
  cases done with
  | error e => exact h _ _
  | ok _ => exact stays_pure (h _ _)

theorem stays_uninstall (hq : ∀ r ∈ k.ledger.history n, r.package.name = q)
    {Q : Except Failure Release → Content → Prop} (h : ∀ r l, Q r (k.keeping l)) :
    ((World.lifecycle c).uninstall n).Stays n q k Q := by
  refine stays_bind (stays_delete fun l => ?_)
  cases hdelete : k.ledger.delete n with
  | error e => exact h _ l
  | ok ended =>
  obtain ⟨r, l'⟩ := ended
  obtain ⟨live, hlive, rfl, -⟩ := Ledger.delete_eq_ok_iff.1 hdelete
  obtain ⟨rs, hrs, -⟩ := Ledger.live_eq_ok_iff.1 hlive
  have hname : live.package.name = q := hq live (hrs ▸ List.mem_cons_self ..)
  show (World.manager.deletePackage live.package.name >>= fun _ => _).Stays n q (k.keeping l) Q
  rw [hname]
  refine stays_bind (stays_deletePackage fun r l => ?_)
  cases r with
  | error e => exact h _ l
  | ok _ => exact stays_pure (h _ l)

end Call

end StreamPipeline
