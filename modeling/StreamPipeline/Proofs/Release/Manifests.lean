import StreamPipeline.Proofs.Release.Incremental
import StreamPipeline.Proofs.Release.Moves
import StreamPipeline.Proofs.Release.Uploads

/-!
# The manifests of a ledger

A ledger has manifests in its releases and in the packages of which releases can be made. A move
adds at most the one manifest that it computes (`Lifecycle.Move.Computes`): whatever else is
released or stored was there before. So what holds of each manifest that moves compute holds of
every manifest of the ledger on every run (`World.Managed.all_manifests`), also where the digest of
a package is mistaken for that of another one.
-/

namespace StreamPipeline

open Lifecycle (Move)

/-- The manifest that a move asks to be released. -/
def Lifecycle.Move.Computes (l : Ledger) (m : Manifest) : Move → Prop
  | install _ requests _ => m = ⟨requests.map Request.entry⟩
  | upgrade name p o => ∃ current labels, l.live name = .ok current ∧
      targets name current.manifest.labels o = .ok labels ∧
      (current.manifest.merge (overrides current.manifest.labels labels p o)).repartition name =
        .ok m
  | rollback _ _ => False
  | uninstall _ => False

namespace Ledger

/-- Every release runs a manifest with `P`, and one with `P` can be released of every package. -/
structure All (P : Manifest → Prop) (l : Ledger) : Prop where
  released : ∀ name, ∀ r ∈ l.history name, P r.manifest
  stored : ∀ name version s m, l.stored? name version = some s →
    Manifest.ofPackage s.package = .ok m → P m

theorem mem_endLatest {d : String} {rs : List Release} {r : Release} (h : r ∈ endLatest d rs) :
    ∃ q ∈ rs, q.Lasts r := by
  cases rs with
  | nil => cases h
  | cons q rs =>
      rcases List.mem_cons.1 h with rfl | h
      · exact ⟨q, by simp, lasts_endLatest d q⟩
      · exact ⟨r, by simp [h], .refl r⟩

namespace All

variable {P : Manifest → Prop} {l k : Ledger} {p : Package} {r : Release}

theorem setState (h : l.All P) (name label : String) (s : State) :
    (l.setState name label s).All P :=
  ⟨h.released, h.stored⟩

theorem push (h : l.All P) (hr : P r.manifest) : (l.push r).All P := by
  refine ⟨fun name q hq => ?_, h.stored⟩
  rw [history_push] at hq
  split at hq
  · rcases List.mem_cons.1 hq with rfl | hq
    · exact hr
    · exact h.released _ q hq
  · exact h.released name q hq

theorem retire (h : l.All P) (name d : String) : (l.retire name d).All P := by
  refine ⟨fun n q hq => ?_, fun n version s m hs => ?_⟩
  · rw [history_retire] at hq
    split at hq
    · obtain ⟨q', hq', hlasts⟩ := mem_endLatest hq
      exact hlasts.manifest ▸ h.released n q' hq'
    · exact h.released n q hq
  · rw [stored?_of_packages (packages_retire l name d)] at hs
    exact h.stored n version s m hs

theorem ensure (h : l.All P) (hp : p.Packed) (hP : ∀ m, Manifest.ofPackage p = .ok m → P m)
    (hk : l.ensure p = .ok ((), k)) : k.All P := by
  refine ⟨fun name q hq => ?_, fun name version s m hs hm => ?_⟩
  · rw [history_ensure hk] at hq
    exact h.released name q hq
  · rcases ensure_cases hk with ⟨rfl, -⟩ | ⟨info, hu⟩
    · exact h.stored name version s m hs hm
    · rw [stored?_upload hu hp] at hs
      split at hs
      · cases hs
        exact hP m hm
      · exact h.stored name version s m hs hm

theorem install (h : l.All P) {i : Installation} (hi : l.install i = .ok (r, k)) : k.All P := by
  obtain ⟨-, -, s, m, hs, hm, rfl, rfl⟩ := install_eq_ok_iff.1 hi
  exact h.push (h.stored _ _ s m hs hm)

theorem upgrade (h : l.All P) {u : Upgrade} (hu : l.upgrade u = .ok (r, k)) : k.All P := by
  obtain ⟨previous, s, m, -, hs, hm, rfl, rfl⟩ := upgrade_eq_ok_iff.1 hu
  exact (h.retire _ _).push (h.stored _ _ s m hs hm)

theorem rollback (h : l.All P) {name : String} {version : Nat}
    (hr : l.rollback name version = .ok (r, k)) : k.All P := by
  obtain ⟨latest, target, -, htarget, rfl, rfl⟩ := rollback_eq_ok_iff.1 hr
  exact (h.retire _ _).push (h.released name target (List.mem_of_find?_eq_some htarget))

theorem uninstall (h : l.All P) {name : String} (hu : l.uninstall name = .ok (r, k)) :
    k.All P := by
  obtain ⟨l', hd, rfl⟩ := uninstall_eq_ok_iff.1 hu
  obtain ⟨live, -, -, rfl⟩ := delete_eq_ok_iff.1 hd
  have hended := h.retire name "Delete complete"
  exact ⟨hended.released, fun n version s m hs =>
    hended.stored n version s m (stored?_of_deletePackage hs)⟩

end All

end Ledger

/-- **A move adds at most the manifest that it computes.** -/
theorem Content.Moves.all_manifests {P : Manifest → Prop} {c : Configuration} {k k' : Content}
    {m : Move} {r : Except Failure Release} (h : k.Moves c m r k') (hk : k.ledger.All P)
    (hP : ∀ x, m.Computes k.ledger x → P x) : k'.ledger.All P := by
  have hinstall : ∀ {d requests p package l}, m = .install d requests p →
      k.Installable c d requests p package l → l.All P := by
    rintro d requests p package l rfl hready
    refine hk.ensure (Packager.packed_of_package hready.packed) (fun x hx => hP x ?_) hready.ensured
    exact Except.ok.inj (hx.symm.trans (Packager.ofPackage_package hready.packed))
  have hupgrade : ∀ {name p o package values l}, m = .upgrade name p o →
      k.Upgradable name p o package values l → l.All P := by
    rintro name p o package values l rfl hready
    obtain ⟨current, hlive, hbuilt⟩ := hready.built
    obtain ⟨labels, x, version, hlabels, rfl, hx, -, -, rfl⟩ :=
      Lifecycle.upgraded_eq_ok_iff.1 hbuilt
    refine hk.ensure hready.packed (fun y hy => hP y ?_) hready.ensured
    obtain rfl := Except.ok.inj (hy.symm.trans (Manifest.ofPackage_packed _ _ _ x.entries))
    exact ⟨current, labels, hlive, hlabels, hx⟩
  cases h with
  | refused => exact hk
  | installFailed d requests p e package l hready hi => exact hinstall rfl hready
  | installed d requests p r package l l' hready hi => exact (hinstall rfl hready).install hi
  | upgradeFailed name p o e package values l hready hu => exact hupgrade rfl hready
  | upgraded name p o r package values l l' hready hu =>
      rw [Content.ledger_reconciled]
      exact (hupgrade rfl hready).upgrade hu
  | rolledBack name version r l hr =>
      rw [Content.ledger_reconciled]
      exact hk.rollback hr
  | uninstalled name r l hu => exact hk.uninstall hu

/-- **What holds of each manifest that moves compute holds of every manifest.** -/
theorem World.Managed.all_manifests {allowed : Ledger → Move → Prop} {P : Manifest → Prop}
    {platforms : List Platform} {initial : State} {w : World}
    (t : Managed allowed (fresh platforms initial) w)
    (hP : ∀ l m x, l.All P → allowed l m → m.Computes l x → P x) : w.ledger.All P :=
  t.invariant rfl ⟨fun _ _ h => (by cases h), fun _ _ _ _ h => (by cases h)⟩
    (fun _ _ _ _ _ hk ha hm => hm.all_manifests hk fun x hx => hP _ _ x hk ha hx)
    fun _ name label s hk => hk.setState name label s

end StreamPipeline
