import StreamPipeline.Proofs.Release.Independent
import StreamPipeline.Proofs.Release.Lineage
import StreamPipeline.Proofs.Service.Events

/-!
# Whose packages are released

The package of a pipeline has the name that its deployment asks for, and else that of the pipeline
(`Operation.package`). Where no deployment ever asks for another name, every release has a package
that is named as its pipeline is (`World.Run.owned`): an upgrade takes the name from the running
release, and a rollback from an earlier one.
-/

namespace StreamPipeline

/-- The name of the package that an operation works with. -/
def Operation.package : Operation → String
  | deploy name p => p.packageName?.getD name
  | op => op.name

/-- The operation does not ask for a package of another name. -/
def Operation.NamesNoPackage (op : Operation) : Prop :=
  ∀ name p, op = .deploy name p → p.packageName? = none

/-- The package of an operation that asks for no other is named as its pipeline is. -/
theorem Operation.package_eq_name {op : Operation} (h : op.NamesNoPackage) :
    op.package = op.name := by
  cases op with
  | deploy name p => exact congrArg (·.getD name) (h name p rfl)
  | _ => rfl

namespace Ledger

variable {l k : Ledger} {name : String} {r : Release}

/-- Whatever has been shipped under a name is a package of that name. -/
def Owned (l : Ledger) : Prop := ∀ name, ∀ s ∈ l.shipped name, s.1.name = name

namespace Owned

/-- The releases under a name have packages of that name. -/
theorem package_name (h : l.Owned) (hr : r ∈ l.history name) : r.package.name = name :=
  h name _ (List.mem_map_of_mem hr)

theorem of_history (h : l.Owned) (hk : ∀ name, k.history name = l.history name) : k.Owned :=
  fun name s hs => h name s (shipped_of_history (hk name) ▸ hs)

theorem retire (h : l.Owned) (name d : String) : (l.retire name d).Owned :=
  fun n s hs => h n s (shipped_retire l name d n ▸ hs)

theorem push (h : l.Owned) (hr : r.package.name = r.name) : (l.push r).Owned := by
  intro n s hs
  by_cases hn : r.name = n
  · subst hn
    rw [shipped_push] at hs
    rcases List.mem_cons.1 hs with rfl | hs
    · exact hr
    · exact h _ s hs
  · rw [shipped_of_history (l.history_push_of_ne hn)] at hs
    exact h n s hs

/-- What is installed of a package of the pipeline's name. -/
theorem install (h : l.Owned) {i : Installation} (hi : l.install i = .ok (r, k))
    (hfiled : ∀ version s, l.stored? i.package version = some s → s.package.info.name = i.package)
    (hname : i.package = i.release) : k.Owned := by
  obtain ⟨-, -, s, m, hs, -, rfl, rfl⟩ := install_eq_ok_iff.1 hi
  exact h.push ((hfiled _ s hs).trans hname)

/-- What takes the place of a release is a package of the pipeline's name. -/
theorem upgrade (h : l.Owned) {u : Upgrade} (hu : l.upgrade u = .ok (r, k))
    (hfiled : ∀ version s, l.stored? u.package version = some s → s.package.info.name = u.package)
    (hname : u.package = u.release) : k.Owned := by
  obtain ⟨previous, s, m, -, hs, -, rfl, rfl⟩ := upgrade_eq_ok_iff.1 hu
  exact (h.retire _ _).push ((hfiled _ s hs).trans hname)

theorem rollback (h : l.Owned) (hl : l.Orderly) {version : Nat}
    (hr : l.rollback name version = .ok (r, k)) : k.Owned := by
  obtain ⟨latest, target, -, htarget, rfl, rfl⟩ := rollback_eq_ok_iff.1 hr
  have hmem := List.mem_of_find?_eq_some htarget
  exact (h.retire _ _).push ((h.package_name hmem).trans ((hl name).name_eq target hmem).symm)

theorem uninstall (h : l.Owned) (hu : l.uninstall name = .ok (r, k)) : k.Owned := by
  obtain ⟨l', hd, rfl⟩ := uninstall_eq_ok_iff.1 hu
  obtain ⟨live, -, -, rfl⟩ := delete_eq_ok_iff.1 hd
  exact (h.retire name _).of_history fun _ => rfl

end Owned

end Ledger

/-- An operation that asks for no other name ships packages of the pipeline's name. -/
theorem Transition.owned {c : Configuration} {registry : Registry} {k k' : Content}
    {op : Operation} {r : Except Failure Unit} {platforms : List Platform} {initial : State}
    (t : Transition c registry k op r k') (h : k.ledger.Owned)
    (hreaches : Ledger.Reaches { platforms, initial } k.ledger) (hop : op.NamesNoPackage) :
    k'.ledger.Owned := by
  have horderly : k.ledger.Orderly := .reaches (fun _ => .nil) hreaches
  -- packages that are made ready are filed under their own names, as all others are
  have hensured : ∀ {package l}, k.ledger.ensure package = .ok ((), l) → l.Owned ∧
      ∀ name version s, l.stored? name version = some s → s.package.info.name = name :=
    fun hl => ⟨h.of_history (Ledger.history_ensure hl), fun name version s hs =>
      ((hreaches.trans (Ledger.reaches_ensure hl)).stored_info hs).1⟩
  cases t with
  | refused | created | deployRefused | idle | forgotten => exact h
  | deployFailed name p d e requests package l hd hr hready hi => exact (hensured hready.ensured).1
  | deployed name p d requests package l l' r ids hd hr hready hi =>
      obtain ⟨hl, hfiled⟩ := hensured hready.ensured
      refine hl.install hi (hfiled _) ((Packager.package_name hready.packed).trans ?_)
      rw [hop name p rfl]
      rfl
  | upgraded name p o d package values l l' r hd hready hu =>
      obtain ⟨hl, hfiled⟩ := hensured hready.ensured
      obtain ⟨current, hlive, hmade⟩ := hready.built
      obtain ⟨rs, hrs, -⟩ := Ledger.live_eq_ok_iff.1 hlive
      rw [Content.ledger_told, Content.ledger_reconciled]
      exact hl.upgrade hu (hfiled _) ((Lifecycle.upgraded_name hmade).trans
        (h.package_name (r := current) (hrs ▸ List.mem_cons_self ..)))
  | upgradeFailed name p o d e package values l hd hready hu => exact (hensured hready.ensured).1
  | rolledBack name version d l r hd hr => simpa using h.rollback horderly hr
  | undeployed name d l r hd hu => exact h.uninstall hu
  | deleted name d s l r hd hs hne hu => exact h.uninstall hu

/-- **Every release has a package of its pipeline's name** where no other name is ever asked for. -/
theorem World.Run.owned {platforms : List Platform} {initial : State} {w : World}
    (t : Run (fun _ op => op.NamesNoPackage) (fresh platforms initial) w) : w.ledger.Owned := by
  refine (t.invariant (I := fun k => k.ledger.Owned ∧
      Ledger.Reaches { platforms, initial } k.ledger) (settled_fresh platforms initial)
    ⟨fun _ _ h => (nomatch h), .refl⟩ ?_ ?_ fun _ _ h => h).1
  · rintro c registry k op r k' ⟨howned, hreaches⟩ hop ht
    exact ⟨ht.owned howned hreaches hop, hreaches.trans ht.reaches⟩
  · rintro k name label s ⟨howned, hreaches⟩
    exact ⟨howned.of_history fun _ => rfl, hreaches.step (.setState name label s)⟩

end StreamPipeline
