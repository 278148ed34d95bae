import StreamPipeline.Proofs.Release.Manifests

/-!
# The manifests of a service

An operation of a service adds to the ledger at most the one manifest that it computes
(`Operation.Computes`): a deployment that of its requests, an update what is running with the
overrides merged in. So what holds of every release and every package goes on to hold of them if it
holds of the manifest that is computed (`Transition.all_manifests`).
-/

namespace StreamPipeline

open Lifecycle (Move)

/-- The manifest that an operation asks to be released. -/
def Operation.Computes (registry : Registry) (k : Content) (m : Manifest) : Operation → Prop
  | deploy name p => ∃ d requests, k.definitions.get? name = some d ∧
      Request.build registry d p = .ok requests ∧ m = ⟨requests.map Request.entry⟩
  | update name p o => (Move.upgrade name p o).Computes k.ledger m
  | create _ | undeploy _ | rollback _ _ | delete _ => False

namespace Transition

variable {P : Manifest → Prop} {c : Configuration} {registry : Registry} {k k' : Content}
  {op : Operation} {r : Except Failure Unit}

/-- **An operation adds at most the manifest that it computes.** -/
theorem all_manifests (t : Transition c registry k op r k') (hk : k.ledger.All P)
    (hP : ∀ m, op.Computes registry k m → P m) : k'.ledger.All P := by
  have hdeploy : ∀ {name p d requests}, op = .deploy name p → k.definitions.get? name = some d →
      Request.build registry d p = .ok requests →
      ∀ m, (Move.install d requests p).Computes k.ledger m → P m := by
    rintro name p d requests rfl hd hrequests m rfl
    exact hP _ ⟨d, requests, hd, hrequests, rfl⟩
  have hupdate : ∀ {name p o}, op = .update name p o →
      ∀ m, (Move.upgrade name p o).Computes k.ledger m → P m := by
    rintro name p o rfl m hm
    exact hP m hm
  cases t with
  | refused | created | deployRefused | idle | forgotten => exact hk
  | deployFailed name p d e requests package l hd hr hready hi =>
      have hm : k.Moves c (.install d requests p) _ _ :=
        .installFailed d requests p e package l hready hi
      exact hm.all_manifests hk (hdeploy rfl hd hr)
  | deployed name p d requests package l l' r ids hd hr hready hi =>
      have hm : k.Moves c (.install d requests p) _ _ :=
        .installed d requests p r package l l' hready hi
      exact hm.all_manifests hk (hdeploy rfl hd hr)
  | upgraded name p o d package values l l' r hd hready hu =>
      have hm : k.Moves c (.upgrade name p o) _ _ :=
        .upgraded name p o r package values l l' hready hu
      exact hm.all_manifests hk (hupdate rfl)
  | upgradeFailed name p o d e package values l hd hready hu =>
      have hm : k.Moves c (.upgrade name p o) _ _ :=
        .upgradeFailed name p o e package values l hready hu
      exact hm.all_manifests hk (hupdate rfl)
  | rolledBack name version d l r hd hr =>
      rw [Content.ledger_told, Content.ledger_reconciled]
      exact hk.rollback hr
  | undeployed name d l r hd hu => exact hk.uninstall hu
  | deleted name d s l r hd hs hne hu => exact hk.uninstall hu

end Transition

/-- A ledger without releases and packages has no manifests. -/
theorem Ledger.all_fresh (P : Manifest → Prop) (platforms : List Platform) (initial : State) :
    Ledger.All P { platforms, initial } :=
  ⟨fun _ _ h => (nomatch h), fun _ _ _ _ h => (nomatch h)⟩

end StreamPipeline
