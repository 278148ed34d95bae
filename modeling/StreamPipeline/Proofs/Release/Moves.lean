import StreamPipeline.Proofs.Service.Deployment

/-!
# Runs of a lifecycle

A lifecycle makes four kinds of moves: it installs, upgrades, rolls back and uninstalls. In a world
where no watched call is made to fail, each move comes to a result
(`Call.Works.exists_gives`), and `Content.Moves` lists all that it can have done (`moves_of_gives`).

`World.Managed` is what can become of a world by moves that are allowed, in any order and number and
with whatever configurations, while stages report, what can be learnt changes and definitions come
and go. `Managed.invariant` is the induction for all of them.
-/

namespace StreamPipeline

/-- What a lifecycle can be asked to do. -/
inductive Lifecycle.Move
  | install (d : Definition) (requests : List Request) (p : Properties)
  | upgrade (name : String) (p : Properties) (o : UpgradeOptions)
  | rollback (name : String) (version : Nat)
  | uninstall (name : String)

namespace Lifecycle.Move

/-- The name of the release that a move is about. -/
def name : Move → String
  | install d _ _ => d.name
  | upgrade name _ _ => name
  | rollback name _ => name
  | uninstall name => name

/-- The call that makes a move. -/
def call (c : Configuration) : Move → Call World Release
  | install d requests p => (World.lifecycle c).install d requests p
  | upgrade name p o => (World.lifecycle c).upgrade name p o
  | rollback name version => (World.lifecycle c).rollback name version
  | uninstall name => (World.lifecycle c).uninstall name

end Lifecycle.Move

open Lifecycle (Move)

/-- What a move can do to a content `k`, with its outcome and the content after it. -/
inductive Content.Moves (c : Configuration) (k : Content) :
    Move → Except Failure Release → Content → Prop where
  | refused (m : Move) (e : Failure) : Moves c k m (.error e) k
  /-- A package was made ready, but could not be installed. -/
  | installFailed (d : Definition) (requests : List Request) (p : Properties) (e : Failure)
      (package : Package) (l : Ledger) (hready : k.Installable c d requests p package l)
      (hfailed : l.install (package.installation c d p) = .error e) :
      Moves c k (.install d requests p) (.error e) (k.keeping l)
  | installed (d : Definition) (requests : List Request) (p : Properties) (r : Release)
      (package : Package) (l l' : Ledger) (hready : k.Installable c d requests p package l)
      (hinstalled : l.install (package.installation c d p) = .ok (r, l')) :
      Moves c k (.install d requests p) (.ok r) (k.keeping l')
  /-- A package was made ready, but the release could not be replaced. -/
  | upgradeFailed (name : String) (p : Properties) (o : UpgradeOptions) (e : Failure)
      (package : Package) (values : Overrides) (l : Ledger)
      (hready : k.Upgradable name p o package values l)
      (hfailed : l.upgrade (package.upgrade name values o) = .error e) :
      Moves c k (.upgrade name p o) (.error e) (k.keeping l)
  | upgraded (name : String) (p : Properties) (o : UpgradeOptions) (r : Release)
      (package : Package) (values : Overrides) (l l' : Ledger)
      (hready : k.Upgradable name p o package values l)
      (hupgraded : l.upgrade (package.upgrade name values o) = .ok (r, l')) :
      Moves c k (.upgrade name p o) (.ok r) ((k.keeping l').reconciled name r.manifest)
  | rolledBack (name : String) (version : Nat) (r : Release) (l : Ledger)
      (hrolled : k.ledger.rollback name version = .ok (r, l)) :
      Moves c k (.rollback name version) (.ok r) ((k.keeping l).reconciled name r.manifest)
  | uninstalled (name : String) (r : Release) (l : Ledger)
      (hended : k.ledger.uninstall name = .ok (r, l)) :
      Moves c k (.uninstall name) (.ok r) (k.keeping l)

/-- A call that works comes to an outcome as it is said to. -/
theorem Call.Works.exists_gives {α : Type} {c : Call World α} {w : World}
    {Q : Except Failure α → Content → Prop} (h : c.Works w.content Q)
    (hw : w.calls.failing = []) : ∃ r w', c.Gives w r w' ∧ Q r w'.content :=
  let ⟨⟨r, w', hg⟩, honly⟩ := (h w hw rfl).gives
  ⟨r, w', hg, (honly r w' hg).2.2⟩

/-- A move does what one of the constructors of `Content.Moves` says. -/
theorem Call.works_move (c : Configuration) (m : Move) (k : Content) :
    (m.call c).Works k (k.Moves c m) := by
  cases m with
  | install d requests p =>
      refine works_lifecycleInstall (fun _ e => .refused _ e) fun package l hready => ?_
      cases hi : l.install (package.installation c d p) with
      | error e =>
          simp only [apply, hi]
          exact .installFailed d requests p e package l hready hi
      | ok r =>
          simp only [apply, hi]
          exact .installed d requests p r.1 package l r.2 hready hi
  | upgrade name p o =>
      refine works_lifecycleUpgrade (fun _ e => .refused _ e) fun package values l hready => ?_
      split
      · rename_i r l' hu
        exact .upgraded name p o r package values l l' hready hu
      · rename_i e hu
        exact .upgradeFailed name p o e package values l hready hu
  | rollback name version =>
      refine works_lifecycleRollback ?_
      split
      · rename_i r l hr
        exact .rolledBack name version r l hr
      · rename_i e _
        exact .refused _ e
  | uninstall name =>
      refine works_uninstall ?_
      cases hu : k.ledger.uninstall name with
      | error e =>
          simp only [apply, hu]
          exact .refused _ e
      | ok r =>
          simp only [apply, hu]
          exact .uninstalled name r.1 r.2 hu

namespace World

variable {w₀ w w' : World} {c : Configuration} {m : Move} {r : Except Failure Release}

/-- **A move does one of the things that are listed.** -/
theorem moves_of_gives (h : w.calls.failing = []) (hm : (m.call c).Gives w r w') :
    w'.calls.failing = [] ∧ w.content.Moves c m r w'.content :=
  let ⟨hf, _, hmoves⟩ := (Call.works_move c m w.content w h rfl).gives.2 r w' hm
  ⟨hf, hmoves⟩

/-! ### Moves that succeed -/

/-- An installation succeeds where nothing is running and its requests can be packed. -/
theorem exists_installed (h : w.calls.failing = []) (hstocked : w.ledger.Stocked)
    {d : Definition} {requests : List Request} {p : Properties} {package : Package}
    (hup : w.disturbance.unavailable.contains d.name = false)
    (hdead : (w.ledger.live d.name).isOk = false)
    (hplatform : w.ledger.platforms.any (·.name == p.platform?.getD c.platform) = true)
    (hpacked : c.packager.package d requests p = .ok package) :
    ∃ r w', ((Move.install d requests p).call c).Gives w (.ok r) w' := by
  have hworks : ((Move.install d requests p).call c).Works w.content
      fun r _ => ∃ a, r = .ok a := by
    refine Call.works_lifecycleInstall (fun hnot _ => ?_) fun package' l hready => ?_
    · obtain ⟨l, hl⟩ := w.ledger.exists_ensure (Packager.packed_of_package hpacked)
      have hstate : w.content.state d.name = .ok .undeployed :=
        Content.state_of_dead hup fun hlive =>
          Bool.false_ne_true (hdead.symm.trans (Except.isOk_iff.2 hlive))
      exact absurd ⟨⟨_, hstate, rfl⟩, hplatform, hpacked, hl⟩ (hnot package l)
    · have hdead' : (l.live d.name).isOk = false := by
        rw [Ledger.live, Ledger.history_ensure hready.ensured]
        exact hdead
      obtain ⟨r, k, hi⟩ := hstocked.exists_install (Packager.packed_of_package hready.packed)
        hready.ensured hready.platform hdead'
      simp only [Call.apply, hi]
      exact ⟨r, rfl⟩
  obtain ⟨_, w', hg, r, rfl⟩ := hworks.exists_gives h
  exact ⟨r, w', hg⟩

/-- An upgrade succeeds where a package can be made of what is running. -/
theorem exists_upgraded (h : w.calls.failing = []) (hstocked : w.ledger.Stocked) {name : String}
    {p : Properties} {o : UpgradeOptions} {current : Release} {package : Package}
    {values : Overrides} (hlive : w.ledger.live name = .ok current)
    (hbuilt : Lifecycle.upgraded { current with name } p o = .ok (package, values)) :
    ∃ r w', ((Move.upgrade name p o).call c).Gives w (.ok r) w' := by
  have hworks : ((Move.upgrade name p o).call c).Works w.content
      fun r _ => ∃ a, r = .ok a := by
    refine Call.works_lifecycleUpgrade (fun hnot _ => ?_) fun package' values' l hready => ?_
    · obtain ⟨l, hl⟩ := w.ledger.exists_ensure (Lifecycle.packed_of_upgraded hbuilt)
      exact absurd ⟨⟨current, hlive, hbuilt⟩, hl⟩ (hnot package values l)
    · have hlive' : l.live name = .ok current := by
        rw [Ledger.live, Ledger.history_ensure hready.ensured]
        exact hlive
      obtain ⟨r, k, hu⟩ := hstocked.exists_upgrade hready.packed hready.ensured values' o hlive'
      rw [hu]
      exact ⟨r, rfl⟩
  obtain ⟨_, w', hg, r, rfl⟩ := hworks.exists_gives h
  exact ⟨r, w', hg⟩

/-- A rollback succeeds where the version to go back to is found. -/
theorem exists_rolledBack (h : w.calls.failing = []) {name : String} {version : Nat} {r : Release}
    {l : Ledger} (hrolled : w.ledger.rollback name version = .ok (r, l)) :
    ∃ w', ((Move.rollback name version).call c).Gives w (.ok r) w' := by
  have hworks : ((Move.rollback name version).call c).Works w.content fun r' _ => r' = .ok r := by
    refine Call.works_lifecycleRollback ?_
    rw [show w.content.ledger.rollback name version = .ok (r, l) from hrolled]
  obtain ⟨_, w', hg, rfl⟩ := hworks.exists_gives h
  exact ⟨w', hg⟩

/-! ### Runs -/

/-- What can become of a world by moves that are allowed. -/
inductive Managed (allowed : Ledger → Move → Prop) (w₀ : World) : World → Prop where
  | refl : Managed allowed w₀ w₀
  | moved {w w' : World} (t : Managed allowed w₀ w) (c : Configuration) (m : Move)
      (r : Except Failure Release) (h : allowed w.ledger m) (hm : (m.call c).Gives w r w') :
      Managed allowed w₀ w'
  | reported {w : World} (t : Managed allowed w₀ w) (name label : String) (s : State) :
      Managed allowed w₀ { w with ledger := w.ledger.setState name label s }
  | disturbed {w : World} (t : Managed allowed w₀ w) (d : Disturbance) :
      Managed allowed w₀ { w with disturbance := d }
  | defined {w : World} (t : Managed allowed w₀ w) (ds : Definitions) :
      Managed allowed w₀ { w with definitions := ds }

namespace Managed

variable {allowed : Ledger → Move → Prop} {platforms : List Platform} {initial : State}

theorem failing_eq (h₀ : w₀.calls.failing = []) (t : Managed allowed w₀ w) :
    w.calls.failing = [] := by
  induction t with
  | refl => exact h₀
  | moved _ _ _ _ _ hm ih => exact (moves_of_gives ih hm).1
  | reported _ _ _ _ ih => exact ih
  | disturbed _ _ ih => exact ih
  | defined _ _ ih => exact ih

/-- **The induction over runs of a lifecycle.** -/
theorem invariant {I : Ledger → Prop} (h₀ : w₀.calls.failing = []) (hI : I w₀.ledger)
    (hmoved : ∀ c k m r k', I k.ledger → allowed k.ledger m → Content.Moves c k m r k' →
      I k'.ledger)
    (hreported : ∀ l name label s, I l → I (l.setState name label s))
    (t : Managed allowed w₀ w) : I w.ledger := by
  induction t with
  | refl => exact hI
  | @moved w w' t c m r h hm ih =>
      exact hmoved c w.content m r w'.content ih h (moves_of_gives (t.failing_eq h₀) hm).2
  | reported _ name label s ih => exact hreported _ name label s ih
  | disturbed _ _ ih => exact ih
  | defined _ _ ih => exact ih

end Managed

end World

namespace Content.Moves

variable {c : Configuration} {k k' : Content} {m : Move} {r : Except Failure Release}

/-- What a move does to the ledger is a run of commands. -/
theorem reaches (h : k.Moves c m r k') : k.ledger.Reaches k'.ledger := by
  cases h with
  | refused => exact .refl
  | installFailed d requests p e package l hready hi => exact Ledger.reaches_ensure hready.ensured
  | installed d requests p r package l l' hready hi =>
      exact (Ledger.reaches_ensure hready.ensured).trans (Ledger.reaches_install hi)
  | upgradeFailed name p o e package values l hready hu =>
      exact Ledger.reaches_ensure hready.ensured
  | upgraded name p o r package values l l' hready hu =>
      simpa using (Ledger.reaches_ensure hready.ensured).trans (Ledger.reaches_upgrade hu)
  | rolledBack name version r l hr => simpa using Ledger.reaches_rollback hr
  | uninstalled name r l hu => exact Ledger.reaches_uninstall hu

/-- What a lifecycle uploads are packages of stages. -/
theorem stocked (h : k.Moves c m r k') (hk : k.ledger.Stocked) : k'.ledger.Stocked := by
  cases h with
  | refused => exact hk
  | installFailed d requests p e package l hready hi =>
      exact hk.ensure (Packager.packed_of_package hready.packed) hready.ensured
  | installed d requests p r package l l' hready hi =>
      exact (hk.ensure (Packager.packed_of_package hready.packed) hready.ensured).install hi
  | upgradeFailed name p o e package values l hready hu =>
      exact hk.ensure hready.packed hready.ensured
  | upgraded name p o r package values l l' hready hu =>
      simpa using (hk.ensure hready.packed hready.ensured).upgrade hu
  | rolledBack name version r l hr => simpa using hk.rollback hr
  | uninstalled name r l hu => exact hk.uninstall hu

/-- A move leaves it at what can be learnt. -/
theorem unavailable_eq (h : k.Moves c m r k') : k'.unavailable = k.unavailable := by
  have hreconciled : ∀ (k : Content) name m, (k.reconciled name m).unavailable = k.unavailable := by
    intro k name m
    unfold Content.reconciled
    split <;> rfl
  cases h with
  | upgraded => exact hreconciled _ _ _
  | rolledBack => exact hreconciled _ _ _
  | _ => rfl

end Content.Moves

namespace World.Managed

variable {allowed : Ledger → Move → Prop} {w : World} {platforms : List Platform} {initial : State}

/-- The ledger of a run is a run of commands. -/
theorem reaches (t : Managed allowed (fresh platforms initial) w) :
    Ledger.Reaches { platforms, initial } w.ledger :=
  t.invariant rfl .refl (fun _ _ _ _ _ h _ hm => h.trans hm.reaches)
    fun _ name label s h => h.step (.setState name label s)

theorem orderly (t : Managed allowed (fresh platforms initial) w) : w.ledger.Orderly :=
  Ledger.Orderly.reaches (fun _ => .nil) t.reaches

end World.Managed

end StreamPipeline
