import StreamPipeline.Proofs.Release.Lineage

/-!
# Rollbacks

A rollback looks for a version and releases it once more. In an orderly history the version that is
meant (`Ledger.target`) is found exactly if it is one of those that there have been, so what else is
the case does not matter: neither whether a release is running nor whether packages are still there.

**`Ledger.rollback_restores`**: after any commands a rollback succeeds just if its target is among
the versions of the name, and then runs what that version ran. Two rollbacks in a row from a running
release bring back what it ran.
-/

namespace StreamPipeline

/-- A release `r` runs what `q` ran, on the same platform and of the same package. -/
structure Release.Copies (r q : Release) : Prop where
  name : r.name = q.name
  manifest : r.manifest = q.manifest
  platform : r.platform = q.platform
  package : r.package = q.package
  values : r.values = q.values

/-- Whatever becomes of a release, it runs what it ran. -/
theorem Release.Lasts.copies {r r' : Release} (h : r.Lasts r') : r'.Copies r := by
  rcases h with rfl | ⟨-, d, rfl⟩ <;> exact ⟨rfl, rfl, rfl, rfl, rfl⟩

theorem Release.Copies.trans {r q p : Release} (h₁ : r.Copies q) (h₂ : q.Copies p) :
    r.Copies p where
  name := h₁.name.trans h₂.name
  manifest := h₁.manifest.trans h₂.manifest
  platform := h₁.platform.trans h₂.platform
  package := h₁.package.trans h₂.package
  values := h₁.values.trans h₂.values

namespace Ledger

variable {l k : Ledger} {name : String} {version : Nat} {r : Release}

/-- The version that a rollback is to release once more; zero stands for the one before the
latest. -/
def target (l : Ledger) (name : String) (version : Nat) : Nat :=
  if version = 0 then (l.history name).length - 1 else version

/-! ### When a rollback succeeds -/

theorem IsOrderly.one_le_version {rs : List Release} (h : IsOrderly name rs) :
    ∀ r ∈ rs, 1 ≤ r.version := by
  intro r hr
  have hversion : r.version ∈ rs.map (·.version) := List.mem_map_of_mem hr
  rw [h.versions, List.mem_reverse, List.mem_range'_1] at hversion
  exact hversion.1

/-- Releases with the same version are the same. -/
theorem IsOrderly.eq_of_version {rs : List Release} {q : Release} (h : IsOrderly name rs)
    (hr : r ∈ rs) (hq : q ∈ rs) (hversion : r.version = q.version) : r = q := by
  have hfound := h.find?_of_mem hr
  rw [hversion, h.find?_of_mem hq] at hfound
  exact (Option.some.inj hfound).symm

theorem Orderly.rollbackTarget_eq (h : l.Orderly) {latest : Release}
    (hlatest : l.latest name = .ok latest) (version : Nat) :
    rollbackTarget latest version = l.target name version := by
  rw [rollbackTarget, target, h.latest_version hlatest]

/-- What a rollback goes back to is a release that has its target for a version. -/
theorem Orderly.exists_target (h : l.Orderly) (hr : l.rollback name version = .ok (r, k)) :
    ∃ latest q, l.latest name = .ok latest ∧ q ∈ l.history name ∧
      q.version = l.target name version ∧ restored latest version q = r ∧
      (l.retire name (superseded (latest.version + 1))).push r = k := by
  obtain ⟨latest, q, hlatest, hfind, hr, hk⟩ := rollback_eq_ok_iff.1 hr
  refine ⟨latest, q, hlatest, List.mem_of_find?_eq_some hfind, ?_, hr, hk⟩
  have hversion := List.find?_some hfind
  exact (eq_of_beq hversion).trans (h.rollbackTarget_eq hlatest version)

/-- **A rollback succeeds exactly if its target is among the versions that there have been.** -/
theorem Orderly.exists_rollback_iff (h : l.Orderly) (name : String) (version : Nat) :
    (∃ r k, l.rollback name version = .ok (r, k)) ↔
      1 ≤ l.target name version ∧ l.target name version ≤ (l.history name).length := by
  constructor
  · rintro ⟨r, k, hr⟩
    obtain ⟨latest, q, -, hq, hversion, -⟩ := h.exists_target hr
    rw [← hversion]
    exact ⟨(h name).one_le_version q hq, (h name).version_le q hq⟩
  · rintro ⟨h₁, h₂⟩
    obtain ⟨latest, rs, hrs⟩ := List.exists_cons_of_length_pos (Nat.lt_of_lt_of_le h₁ h₂)
    have hlatest : l.latest name = .ok latest := latest_eq_ok_iff.2 ⟨rs, hrs⟩
    obtain ⟨q, hfind, -⟩ := (h name).find?_version h₁ h₂
    rw [← h.rollbackTarget_eq hlatest] at hfind
    exact ⟨_, _, rollback_eq_ok_iff.2 ⟨latest, q, hlatest, hfind, rfl, rfl⟩⟩

/-! ### What it makes -/

/-- A rollback releases its target once more, with the next number and in front of all others. -/
theorem Orderly.restores (h : l.Orderly) (hr : l.rollback name version = .ok (r, k)) :
    (∃ q ∈ l.history name, q.version = l.target name version ∧ r.Copies q) ∧
      r.version = (l.history name).length + 1 ∧ k.live name = .ok r ∧
      (∃ d, k.history name = r :: endLatest d (l.history name)) ∧
      ∀ n, n ≠ name → k.history n = l.history n := by
  obtain ⟨latest, q, hlatest, hq, hversion, rfl, rfl⟩ := h.exists_target hr
  obtain rfl := (h name).name_eq q hq
  refine ⟨⟨q, hq, hversion, ⟨rfl, rfl, rfl, rfl, rfl⟩⟩,
    congrArg (· + 1) (h.latest_version hlatest), live_push rfl,
    ⟨superseded (latest.version + 1), ?_⟩, fun n hn => ?_⟩
  · refine (history_push _ _ _).trans ((if_pos rfl).trans (congrArg (_ :: ·) ?_))
    exact (history_retire _ _ _ _).trans (if_pos rfl)
  · have hretired := history_retire_of_ne l (d := superseded (latest.version + 1)) (Ne.symm hn)
    exact (history_push_of_ne _ (r := restored latest version q) (Ne.symm hn)).trans hretired

/-- The release that a rollback makes is the only one that is running under the name. -/
theorem Orderly.eq_of_isLive (h : l.Orderly) (hr : l.rollback name version = .ok (r, k)) :
    ∀ q ∈ k.history name, q.isLive = true → q = r := by
  obtain ⟨-, -, -, ⟨d, hhistory⟩, -⟩ := h.restores hr
  intro q hq hlive
  rw [hhistory] at hq
  rcases List.mem_cons.1 hq with rfl | hq
  · rfl
  · cases (endLatest_ended (h name) d q hq).symm.trans hlive

/-- **Two rollbacks in a row** bring back what was running. -/
theorem Orderly.exists_rollback_twice (h : l.Orderly) (hlive : l.live name = .ok r)
    (hlength : 2 ≤ (l.history name).length) :
    ∃ r₁ k₁ r₂ k₂, l.rollback name 0 = .ok (r₁, k₁) ∧ k₁.rollback name 0 = .ok (r₂, k₂) ∧
      k₂.live name = .ok r₂ ∧ r₂.Copies r := by
  have htarget : l.target name 0 = (l.history name).length - 1 := rfl
  obtain ⟨r₁, k₁, hr₁⟩ := (h.exists_rollback_iff name 0).2 (by omega)
  obtain ⟨-, -, -, ⟨d, hhistory⟩, -⟩ := h.restores hr₁
  have h₁ := h.reaches (reaches_rollback hr₁)
  -- the release that was running is now the second one, and what the second rollback is about
  have htarget₁ : k₁.target name 0 = (l.history name).length := by
    show (k₁.history name).length - 1 = _
    rw [hhistory, List.length_cons, length_endLatest, Nat.add_sub_cancel]
  obtain ⟨r₂, k₂, hr₂⟩ := (h₁.exists_rollback_iff name 0).2
    (by rw [htarget₁, hhistory, List.length_cons, length_endLatest]; omega)
  obtain ⟨⟨q, hq, hversion, hcopies⟩, -, hlive₂, -, -⟩ := h₁.restores hr₂
  obtain ⟨rs, hrs, -⟩ := live_eq_ok_iff.1 hlive
  have hlatest := h.latest_version (latest_eq_ok_iff.2 ⟨rs, hrs⟩)
  obtain ⟨r', hr', hlasts⟩ :=
    (extends_of_reaches h (reaches_rollback hr₁) name).mem (mem_history_of_live hlive)
  obtain rfl := (h₁ name).eq_of_version hq hr'
    (by rw [hversion, htarget₁, hlasts.version, hlatest])
  exact ⟨r₁, k₁, r₂, k₂, hr₁, hr₂, hlive₂, hcopies.trans hlasts.copies⟩

/-! ### What it does not depend on -/

theorem retire_withPackages (l : Ledger) (packages : StringMap (StringMap StoredPackage))
    (name d : String) :
    ({ l with packages } : Ledger).retire name d = { l.retire name d with packages } := by
  have hhistory : ({ l with packages } : Ledger).history name = l.history name := rfl
  unfold retire
  rw [hhistory]
  cases l.history name with
  | nil => rfl
  | cons r rs => cases hr : r.isLive <;> simp [hr]

/-- A rollback that succeeds does so whatever packages there are, and leaves them. -/
theorem rollback_withPackages (hr : l.rollback name version = .ok (r, k))
    (packages : StringMap (StringMap StoredPackage)) :
    ({ l with packages } : Ledger).rollback name version = .ok (r, { k with packages }) := by
  obtain ⟨latest, q, hlatest, hfind, rfl, rfl⟩ := rollback_eq_ok_iff.1 hr
  refine rollback_eq_ok_iff.2 ⟨latest, q, hlatest, hfind, rfl, ?_⟩
  rw [retire_withPackages]
  rfl

/-- A lifecycle rolls back as its ledger does. -/
theorem exists_lifecycle_rollback (c : Configuration) {w : World} (hfailing : w.calls.failing = [])
    (name : String) (version : Nat) :
    ∃ w', ((World.lifecycle c).rollback name version).Gives w
        (Call.apply (·.rollback name version) w.ledger).1 w' ∧
      w'.ledger = (Call.apply (·.rollback name version) w.ledger).2 := by
  have hworks : ((World.lifecycle c).rollback name version).Works w.content fun r k =>
      r = (Call.apply (·.rollback name version) w.ledger).1 ∧
        k.ledger = (Call.apply (·.rollback name version) w.ledger).2 := by
    refine Call.works_lifecycleRollback ?_
    cases hr : w.ledger.rollback name version with
    | error e =>
        rw [show w.content.ledger.rollback name version = .error e from hr]
        simp only [Call.apply, hr]
        exact ⟨trivial, rfl⟩
    | ok a =>
        rw [show w.content.ledger.rollback name version = .ok a from hr]
        simp only [Call.apply, hr]
        exact ⟨trivial, Content.ledger_reconciled _ _ _⟩
  obtain ⟨_, w', hg, rfl, hledger⟩ := hworks.exists_gives hfailing
  exact ⟨w', hg, hledger⟩

/-! ### After any commands -/

/-- Any stages can replace what is running, once a package of them was uploaded. -/
theorem exists_upgrade_of (l : Ledger) (info : PackageInfo) (es : List Entry) (u : Upgrade)
    (hname : u.package = info.name) (hversion : u.packageVersion = info.version)
    {previous : Release} (hlive : l.live u.release = .ok previous) :
    ∃ k r d, Reaches l k ∧ r.manifest = ⟨es⟩ ∧ r.isLive = true ∧
      k.history u.release = r :: endLatest d (l.history u.release) := by
  have hpacked : (Manifest.packed info info.version info.repository es).Packed := ⟨_, _, _, _, rfl⟩
  obtain ⟨info', l₁, hupload⟩ := l.exists_upload hpacked
  have hhistory : ∀ n, l₁.history n = l.history n := fun n => by
    rw [upload_keeps hupload]
    rfl
  have hstored := (stored?_upload hupload hpacked u.package u.packageVersion).trans
    (if_pos ⟨hname, hversion⟩)
  have hlive₁ := (live_of_history (hhistory u.release)).trans hlive
  refine ⟨_, l₁.replaced u previous (Manifest.packed info info.version info.repository es) ⟨es⟩,
    superseded (l₁.nextVersion u.release),
    (reaches_upload hupload).trans (reaches_upgrade (upgrade_eq_ok_iff.2 ⟨_, _, _, hlive₁,
      hstored, Manifest.ofPackage_packed info _ _ es, rfl, rfl⟩)), rfl, rfl, ?_⟩
  refine (history_push _ _ _).trans ((if_pos rfl).trans (congrArg (_ :: ·) ?_))
  rw [history_retire, if_pos rfl, hhistory]

/-- **A rollback releases exactly the version that is asked for.** After any commands to a ledger
without releases, under every name,

* the versions are counted down to one;
* a rollback succeeds exactly if its target is one of these versions: the version that it names, or
  for zero the one before the latest;
* the release that it makes runs what its target ran, on the same platform, of the same package and
  with the same overrides. It has the next version, it is the only one of the name that is running,
  and under no other name anything changes;
* it would have succeeded alike with any other packages, or none;
* where a release is running that is not the first, two rollbacks to the version before the latest
  succeed one after the other, and bring back what was running;
* a lifecycle in a world with this ledger rolls back with the same outcome, unless a call is made to
  fail. -/
theorem rollback_restores (platforms : List Platform) (initial : State)
    (t : Reaches { platforms, initial } l) (name : String) :
    (l.history name).map (·.version) = (List.range' 1 (l.history name).length).reverse ∧
    (∀ v, (∃ r k, l.rollback name v = .ok (r, k)) ↔
      1 ≤ l.target name v ∧ l.target name v ≤ (l.history name).length) ∧
    (∀ v r k, l.rollback name v = .ok (r, k) →
      (∃ q ∈ l.history name, q.version = l.target name v ∧ r.Copies q) ∧
      r.version = (l.history name).length + 1 ∧ k.live name = .ok r ∧
      (∀ q ∈ k.history name, q.isLive = true → q = r) ∧
      (∀ n, n ≠ name → k.history n = l.history n) ∧
      ∀ packages, ({ l with packages } : Ledger).rollback name v = .ok (r, { k with packages })) ∧
    (∀ r, l.live name = .ok r → 2 ≤ (l.history name).length →
      ∃ r₁ k₁ r₂ k₂, l.rollback name 0 = .ok (r₁, k₁) ∧ k₁.rollback name 0 = .ok (r₂, k₂) ∧
        k₂.live name = .ok r₂ ∧ r₂.Copies r) ∧
    ∀ c v w, w.calls.failing = [] → w.ledger = l →
      ∃ w', ((World.lifecycle c).rollback name v).Gives w
          (Call.apply (·.rollback name v) l).1 w' ∧
        w'.ledger = (Call.apply (·.rollback name v) l).2 := by
  have hinitial : ({ platforms, initial } : Ledger).Orderly := fun _ => .nil
  have h := hinitial.reaches t
  refine ⟨(h name).versions, h.exists_rollback_iff name, fun v r k hr => ?_,
    fun r hlive hlength => h.exists_rollback_twice hlive hlength, fun c v w hfailing hledger => ?_⟩
  · obtain ⟨htarget, hversion, hlive, -, hothers⟩ := h.restores hr
    exact ⟨htarget, hversion, hlive, h.eq_of_isLive hr, hothers, rollback_withPackages hr⟩
  · subst hledger
    exact exists_lifecycle_rollback c hfailing name v

/-- A pipeline was given a second stage, and its package was deleted: one rollback brings back the
first version, another one the second. -/
theorem rollback_restores_clock : ∃ l r r₁ k₁ r₂ k₂,
    Reaches { platforms := [⟨"default", "local", ""⟩], initial := .deployed } l ∧
      l.live "clock" = .ok r ∧ r.manifest.labels = ["time", "log"] ∧
      l.rollback "clock" 0 = .ok (r₁, k₁) ∧ r₁.manifest.labels = ["time"] ∧
      k₁.rollback "clock" 0 = .ok (r₂, k₂) ∧ r₂.manifest = r.manifest := by
  let time : Entry := ⟨"time", "time", .source, (Samples.coordinate "time" "1.0.0").spec none ∅ ∅⟩
  let log : Entry := ⟨"log", "log", .sink, (Samples.coordinate "log" "1.0.0").spec none ∅ ∅⟩
  obtain ⟨l₁, q, t₁, hq, hqlive, hfirst⟩ := exists_release_of
    { platforms := [⟨"default", "local", ""⟩], initial := .deployed }
    { name := "clock", version := "1.0.0", repository := "local", kind := .pipeline } [time]
    ⟨"clock", "clock", "1.0.0", "default", ""⟩ rfl rfl rfl rfl
  obtain ⟨l₂, r, d, t₂, hr, hrlive, hsecond⟩ := exists_upgrade_of l₁
    { name := "clock", version := "1.1.0", repository := "local", kind := .pipeline } [time, log]
    ⟨"clock", "clock", "1.1.0", "", false⟩ rfl rfl (live_eq_ok_iff.2 ⟨_, hfirst, hqlive⟩)
  have hhistory : (l₂.deletePackage "clock").history "clock" =
      [r, { q with status := .deleted, description := d }] := by
    refine hsecond.trans (congrArg (r :: ·) ?_)
    rw [hfirst, endLatest, if_pos hqlive]
    rfl
  have hlive : (l₂.deletePackage "clock").live "clock" = .ok r :=
    live_eq_ok_iff.2 ⟨_, hhistory, hrlive⟩
  have t : Reaches { platforms := [⟨"default", "local", ""⟩], initial := .deployed }
      (l₂.deletePackage "clock") := (t₁.trans t₂).step (.deletePackage "clock")
  obtain ⟨hversions, -, hmade, htwice, -⟩ := rollback_restores _ _ t "clock"
  obtain ⟨r₁, k₁, r₂, k₂, hr₁, hr₂, -, hcopies⟩ :=
    htwice r hlive (by rw [hhistory]; exact Nat.le_refl _)
  obtain ⟨⟨p, hp, hversion, hcopies₁⟩, -⟩ := hmade 0 r₁ k₁ hr₁
  -- of the two versions, the first one is before the latest
  have htarget : p.version = 1 := hversion.trans (by rw [target, hhistory]; rfl)
  have hlatest : r.version = 2 := by
    rw [hhistory] at hversions
    exact (List.cons.inj hversions).1
  have hfirst : p.manifest = q.manifest := by
    rw [hhistory] at hp
    rcases List.mem_pair.1 hp with rfl | rfl
    · cases htarget.symm.trans hlatest
    · rfl
  exact ⟨_, r, r₁, k₁, r₂, k₂, t, hlive, congrArg Manifest.labels hr, hr₁,
    congrArg Manifest.labels (hcopies₁.manifest.trans (hfirst.trans hq)), hr₂, hcopies.manifest⟩

end Ledger

end StreamPipeline
