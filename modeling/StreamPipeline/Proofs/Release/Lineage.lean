import Mathlib.Data.List.Pairwise
import StreamPipeline.Proofs.Release.Computed
import StreamPipeline.Proofs.SemVer

/-!
# What is shipped under a name

A release ships a package, of which only the name and the version are kept, and a manifest. What has
been shipped under a name grows at its front, and `Content.Moves.adds` says what a move puts
there: what is first, what the present release is upgraded to, or what was shipped before.

Packages that are each the next version of the one before make a `Lineage`: no version of it stands
for two manifests, and behind each version but the highest the next one has been shipped. The
version behind the highest one is new (`Lineage.ne_of_next`), the one behind any other is not
(`Lineage.exists_next`).
-/

namespace StreamPipeline

open Lifecycle (Move)

/-- The package of a release and what it runs. -/
def Release.shipped (r : Release) : PackageInfo × Manifest := (r.package, r.manifest)

/-! ### What is shipped by a move -/

namespace Ledger

variable {l : Ledger}

/-- What has been shipped under a name, the latest first. -/
def shipped (l : Ledger) (name : String) : List (PackageInfo × Manifest) :=
  (l.history name).map Release.shipped

theorem shipped_of_history {k : Ledger} {name : String} (h : k.history name = l.history name) :
    k.shipped name = l.shipped name := by
  rw [shipped, h, shipped]

theorem live_of_history {k : Ledger} {name : String} (h : k.history name = l.history name) :
    k.live name = l.live name := by
  rw [live, h, live]

/-- The end of a release changes nothing about what it shipped. -/
theorem shipped_retire (l : Ledger) (name d n : String) :
    (l.retire name d).shipped n = l.shipped n := by
  rw [shipped, history_retire, shipped]
  split
  · cases l.history n with
    | nil => rfl
    | cons r rs => cases h : r.isLive <;> simp [endLatest, h, Release.shipped]
  · rfl

theorem shipped_push (l : Ledger) (r : Release) :
    (l.push r).shipped r.name = r.shipped :: l.shipped r.name := by
  rw [shipped, history_push, if_pos rfl, List.map_cons, shipped]

theorem history_push_of_ne (l : Ledger) {r : Release} {name : String} (h : r.name ≠ name) :
    (l.push r).history name = l.history name := by
  rw [history_push, if_neg (Ne.symm h)]

theorem history_retire_of_ne (l : Ledger) {n d name : String} (h : n ≠ name) :
    (l.retire n d).history name = l.history name := by
  rw [history_retire, if_neg (Ne.symm h)]

theorem history_uninstall_of_ne {k : Ledger} {n name : String} {r : Release}
    (hu : l.uninstall n = .ok (r, k)) (h : n ≠ name) : k.history name = l.history name := by
  obtain ⟨l', hd, rfl⟩ := uninstall_eq_ok_iff.1 hu
  obtain ⟨live, -, -, rfl⟩ := delete_eq_ok_iff.1 hd
  exact history_retire_of_ne l h

end Ledger

/-- What a move about `name` can release from a content `k`. -/
inductive Content.Adds (k : Content) (name : String) : Move → Release → Prop where
  | installed (d : Definition) (requests : List Request) (p : Properties) (r : Release)
      (hname : d.name = name) (hdead : (k.ledger.live name).isOk = false) :
      Adds k name (.install d requests p) r
  /-- The release runs what is found under the name and version of its package. -/
  | upgraded (p : Properties) (o : UpgradeOptions) (r : Release) (package : Package)
      (values : Overrides) (l : Ledger) (s : StoredPackage)
      (hready : k.Upgradable name p o package values l)
      (hs : l.stored? package.info.name package.info.version = some s)
      (hm : Manifest.ofPackage s.package = .ok r.manifest) (hinfo : r.package = s.package.info) :
      Adds k name (.upgrade name p o) r
  | rolledBack (version : Nat) (r q : Release) (hq : q ∈ k.ledger.history name)
      (hshipped : r.shipped = q.shipped) : Adds k name (.rollback name version) r

namespace Content.Moves

variable {c : Configuration} {k k' : Content} {m : Move} {name : String}

/-- A move that fails, or is about another name, leaves a history. -/
theorem history_eq {result : Except Failure Release} (h : k.Moves c m result k')
    (horderly : k.ledger.Orderly) (hother : m.name ≠ name ∨ ∃ e, result = .error e) :
    k'.ledger.history name = k.ledger.history name := by
  cases h with
  | refused => rfl
  | installFailed d requests p e package l hready hi =>
      exact Ledger.history_ensure hready.ensured name
  | upgradeFailed n p o e package values l hready hu =>
      exact Ledger.history_ensure hready.ensured name
  | installed d requests p r package l l' hready hi =>
      have hname : d.name ≠ name := hother.resolve_right (by simp)
      obtain ⟨-, -, s, m, -, -, rfl, rfl⟩ := Ledger.install_eq_ok_iff.1 hi
      exact (l.history_push_of_ne hname).trans (Ledger.history_ensure hready.ensured name)
  | upgraded n p o r package values l l' hready hu =>
      have hname : n ≠ name := hother.resolve_right (by simp)
      obtain ⟨previous, s, m, -, -, -, rfl, rfl⟩ := Ledger.upgrade_eq_ok_iff.1 hu
      rw [ledger_reconciled]
      exact (Ledger.history_push_of_ne _ hname).trans
        ((l.history_retire_of_ne hname).trans (Ledger.history_ensure hready.ensured name))
  | rolledBack n version r l hr =>
      have hname : n ≠ name := hother.resolve_right (by simp)
      obtain ⟨latest, target, -, htarget, rfl, rfl⟩ := Ledger.rollback_eq_ok_iff.1 hr
      -- the release that is made carries the name of its target
      obtain rfl := (horderly n).name_eq target (List.mem_of_find?_eq_some htarget)
      rw [ledger_reconciled]
      have hpush : ∀ l : Ledger,
          (l.push (Ledger.restored latest version target)).history name = l.history name :=
        fun l => l.history_push_of_ne hname
      exact (hpush _).trans (Ledger.history_retire_of_ne _ hname)
  | uninstalled n r l hu =>
      exact Ledger.history_uninstall_of_ne hu (hother.resolve_right (by simp))

/-- **What a move releases** is running then, and is shipped in front of what was before. -/
theorem adds {r : Release} (h : k.Moves c m (.ok r) k') (horderly : k.ledger.Orderly)
    (hname : m.name = name) (hkept : m ≠ .uninstall name) :
    k.Adds name m r ∧ k'.ledger.live name = .ok r ∧
      k'.ledger.shipped name = r.shipped :: k.ledger.shipped name := by
  subst hname
  cases h with
  | installed d requests p r package l l' hready hi =>
      obtain ⟨-, hdead, s, m, -, -, rfl, rfl⟩ := Ledger.install_eq_ok_iff.1 hi
      have hhistory := Ledger.history_ensure hready.ensured d.name
      refine ⟨.installed d requests p _ rfl ?_, Ledger.live_push rfl, ?_⟩
      · exact (congrArg Except.isOk (Ledger.live_of_history hhistory)).symm.trans hdead
      · exact (l.shipped_push _).trans (congrArg (_ :: ·) (Ledger.shipped_of_history hhistory))
  | upgraded n p o r package values l l' hready hu =>
      obtain ⟨previous, s, m, -, hs, hm, rfl, rfl⟩ := Ledger.upgrade_eq_ok_iff.1 hu
      rw [ledger_reconciled]
      refine ⟨.upgraded p o _ package values l s hready hs hm rfl, Ledger.live_push rfl, ?_⟩
      refine (Ledger.shipped_push _ _).trans (congrArg (_ :: ·) ?_)
      exact (l.shipped_retire _ _ _).trans
        (Ledger.shipped_of_history (Ledger.history_ensure hready.ensured n))
  | rolledBack n version r l hr =>
      obtain ⟨latest, target, -, htarget, rfl, rfl⟩ := Ledger.rollback_eq_ok_iff.1 hr
      have hmem := List.mem_of_find?_eq_some htarget
      obtain rfl := (horderly n).name_eq target hmem
      rw [ledger_reconciled]
      refine ⟨.rolledBack version _ target hmem rfl, Ledger.live_push rfl, ?_⟩
      exact (Ledger.shipped_push _ _).trans (congrArg (_ :: ·) (Ledger.shipped_retire ..))
  | uninstalled n r l hu => exact absurd rfl hkept

/-- What a move does to a history that it does not uninstall. -/
theorem history_cases {result : Except Failure Release} (h : k.Moves c m result k')
    (horderly : k.ledger.Orderly) (hkept : m ≠ .uninstall name) :
    k'.ledger.history name = k.ledger.history name ∨
      ∃ r, k.Adds name m r ∧ k'.ledger.live name = .ok r ∧
        k'.ledger.shipped name = r.shipped :: k.ledger.shipped name := by
  by_cases hname : m.name = name
  · cases result with
    | error e => exact .inl (h.history_eq horderly (.inr ⟨e, rfl⟩))
    | ok r => exact .inr ⟨r, h.adds horderly hname hkept⟩
  · exact .inl (h.history_eq horderly (.inl hname))

end Content.Moves

namespace World.Ready

variable {platforms : List Platform} {initial : State} {cs : List Ledger.Command} {w w' : World}
  {c : Configuration} {m : Move} {name : String} {r : Release}

theorem orderly (h : w.Ready platforms initial cs) : w.ledger.Orderly :=
  .reaches (fun _ => .nil) (Ledger.reaches_iff.2 ⟨cs, h.ledger⟩)

/-- What a move releases is running then, and is shipped in front of what was before. -/
theorem shipped (h : w.Ready platforms initial cs) (hg : (m.call c).Gives w (.ok r) w')
    (hname : m.name = name) (hkept : m ≠ .uninstall name) :
    w'.ledger.live name = .ok r ∧ w'.ledger.shipped name = r.shipped :: w.ledger.shipped name :=
  ((moves_of_gives h.failing hg).2.adds h.orderly hname hkept).2

end World.Ready

/-! ### Lineages -/

/-- Packages that are each the next version of the one before, some of them shipped several times;
`top` is the highest version. -/
structure Lineage (name top : String) (as : List (PackageInfo × Manifest)) : Prop where
  named : as.Pairwise fun a b => a.1.name = b.1.name
  identified : as.Pairwise fun a b => a.1.version = b.1.version → a.2 = b.2
  next : ∀ a ∈ as, a.1.version = top ∨ ∃ b ∈ as, nextVersion name a.1.version = .ok b.1.version
  newest : ∀ a ∈ as, ¬ VersionPrecedes top a.1.version

namespace Lineage

variable {name top version : String} {as : List (PackageInfo × Manifest)}
  {a b : PackageInfo × Manifest}

theorem one (name : String) (a : PackageInfo × Manifest) : Lineage name a.1.version [a] where
  named := List.pairwise_singleton ..
  identified := List.pairwise_singleton ..
  next := by simp
  newest := by simp [not_versionPrecedes_self]

theorem name_eq (h : Lineage name top as) (ha : a ∈ as) (hb : b ∈ as) : a.1.name = b.1.name :=
  List.Pairwise.forall_of_forall_of_flip (R := fun a b => a.1.name = b.1.name)
    (fun _ _ => rfl) h.named (h.named.imp Eq.symm) ha hb

/-- No version stands for two manifests. -/
theorem manifest_eq (h : Lineage name top as) (ha : a ∈ as) (hb : b ∈ as)
    (hversion : a.1.version = b.1.version) : a.2 = b.2 :=
  List.Pairwise.forall_of_forall_of_flip (R := fun a b => a.1.version = b.1.version → a.2 = b.2)
    (fun _ _ _ => rfl) h.identified (h.identified.imp fun h he => (h he.symm).symm) ha hb hversion

/-- The version behind the highest one is new. -/
theorem ne_of_next (h : Lineage name top as) (hnext : nextVersion name top = .ok version) :
    ∀ a ∈ as, a.1.version ≠ version :=
  fun a ha he => h.newest a ha (he ▸ versionPrecedes_next hnext)

/-- The version behind one that is not the highest has been shipped. -/
theorem exists_next (h : Lineage name top as) (ha : a ∈ as) (hb : b ∈ as)
    (hlower : VersionPrecedes a.1.version b.1.version) :
    ∃ c ∈ as, nextVersion name a.1.version = .ok c.1.version := by
  rcases h.next a ha with htop | hnext
  · exact absurd (htop ▸ hlower) (h.newest b hb)
  · exact hnext

/-- A version that comes before no other one is the highest. -/
theorem eq_top (h : Lineage name top as) (ha : a ∈ as)
    (hnewest : ∀ b ∈ as, ¬ VersionPrecedes a.1.version b.1.version) : a.1.version = top := by
  rcases h.next a ha with htop | ⟨b, hb, hnext⟩
  · exact htop
  · exact absurd (versionPrecedes_next hnext) (hnewest b hb)

/-- What was shipped before is shipped once more. -/
theorem repeated (h : Lineage name top as) (hb : b ∈ as) (hname : a.1.name = b.1.name)
    (hversion : a.1.version = b.1.version) (hm : a.2 = b.2) : Lineage name top (a :: as) where
  named := h.named.cons fun c hc => hname.trans (h.name_eq hb hc)
  identified := h.identified.cons fun c hc he =>
    hm.trans (h.manifest_eq hb hc (hversion.symm.trans he))
  next := by
    have hold : ∀ c ∈ as, c.1.version = top ∨
        ∃ d ∈ a :: as, nextVersion name c.1.version = .ok d.1.version := fun c hc =>
      (h.next c hc).imp_right fun ⟨d, hd, hnext⟩ => ⟨d, List.mem_cons_of_mem a hd, hnext⟩
    exact List.forall_mem_cons.2 ⟨hversion ▸ hold b hb, hold⟩
  newest := List.forall_mem_cons.2 ⟨hversion ▸ h.newest b hb, h.newest⟩

/-- The version behind the highest one is shipped. -/
theorem later (h : Lineage name top as) (hname : ∀ b ∈ as, a.1.name = b.1.name)
    (hnext : nextVersion name top = .ok a.1.version) : Lineage name a.1.version (a :: as) where
  named := h.named.cons hname
  identified := h.identified.cons fun c hc he => absurd he.symm (h.ne_of_next hnext c hc)
  next := by
    refine List.forall_mem_cons.2 ⟨.inl rfl, fun c hc => .inr ?_⟩
    rcases h.next c hc with rfl | ⟨d, hd, hd'⟩
    · exact ⟨a, List.mem_cons_self, hnext⟩
    · exact ⟨d, List.mem_cons_of_mem a hd, hd'⟩
  newest := List.forall_mem_cons.2 ⟨not_versionPrecedes_self _, fun c hc hlater =>
    h.newest c hc (hlater.of_next hnext)⟩

end Lineage

end StreamPipeline
