import StreamPipeline.Concurrent.Call
import StreamPipeline.Proofs.Release.Package
import StreamPipeline.Release.Ledger

/-!
# Commands to a ledger

Each operation of a ledger is described by one equivalence: when it succeeds, with which release,
and what the ledger is then (`install_eq_ok_iff` and its neighbours).

What changes a ledger is a command. `Ledger.perform` carries one out as a release manager does: a
command that fails leaves the ledger as it was. `Reaches l l'` is a run, of any length, of any
commands with any outcomes.
-/

namespace StreamPipeline.Ledger

/-! ### What the operations do -/

theorem live_eq_ok_iff {l : Ledger} {name : String} {r : Release} :
    l.live name = .ok r ↔ ∃ rs, l.history name = r :: rs ∧ r.isLive = true := by
  unfold live
  cases h : l.history name with
  | nil => simp
  | cons q rs => cases hq : q.isLive <;> grind

theorem live_eq_error {l : Ledger} {name : String} {e : Failure} (h : l.live name = .error e) :
    e = .noRelease name := by
  unfold live at h
  split at h
  · split at h <;> simp_all
  · simp_all

/-- No release is live exactly where the latest one is not. -/
theorem isOk_live_eq_false_iff {l : Ledger} {name : String} :
    (l.live name).isOk = false ↔ ∀ r ∈ (l.history name).head?, r.isLive = false := by
  unfold live
  cases h : l.history name with
  | nil => simp [Except.isOk_eq_false_iff]
  | cons r rs => cases hr : r.isLive <;> simp [Except.isOk_eq_false_iff, hr]

theorem latest_eq_ok_iff {l : Ledger} {name : String} {r : Release} :
    l.latest name = .ok r ↔ ∃ rs, l.history name = r :: rs := by
  unfold latest
  cases h : l.history name <;> grind

theorem stored_eq_ok_iff {l : Ledger} {name version : String} {p : StoredPackage} :
    l.stored name version = .ok p ↔ l.stored? name version = some p := by
  unfold stored
  cases l.stored? name version <;> simp

/-- The release that an installation makes of a package. -/
def installed (l : Ledger) (i : Installation) (p : Package) (manifest : Manifest) : Release :=
  { name := i.release, version := l.nextVersion i.release, manifest, platform := i.platform
    package := p.info, status := .deployed, description := "Install complete", values := i.values }

/-- The release with which an upgrade replaces another one. -/
def replaced (l : Ledger) (u : Upgrade) (previous : Release) (p : Package) (manifest : Manifest) :
    Release :=
  { name := u.release, version := l.nextVersion u.release, manifest, platform := previous.platform
    package := p.info, status := .deployed, description := "Upgrade complete", values := u.values }

/-- The number of the release that a rollback releases once more. -/
def rollbackTarget (latest : Release) (version : Nat) : Nat :=
  if version = 0 then latest.version - 1 else version

/-- The release that a rollback makes of an earlier one. -/
def restored (latest : Release) (version : Nat) (r : Release) : Release :=
  { r with
    version := latest.version + 1
    status := .deployed
    description :=
      "Rollback to version " ++ Nat.repr (rollbackTarget latest version) ++ " complete" }

theorem install_eq_ok_iff {l k : Ledger} {i : Installation} {r : Release} :
    l.install i = .ok (r, k) ↔
      l.platforms.any (·.name == i.platform) = true ∧ (l.live i.release).isOk = false ∧
      ∃ p m, l.stored? i.package i.packageVersion = some p ∧ Manifest.ofPackage p.package = .ok m ∧
        l.installed i p.package m = r ∧ l.push r = k := by
  unfold install
  simp only [← stored_eq_ok_iff]
  cases l.platforms.any (·.name == i.platform) <;> cases (l.live i.release).isOk <;>
    cases l.stored i.package i.packageVersion with
  | error e => simp [bind, Except.bind]
  | ok p =>
      cases hm : Manifest.ofPackage p.package <;>
        simp [bind, Except.bind, pure, Except.pure, installed, hm]
      all_goals grind

theorem upgrade_eq_ok_iff {l k : Ledger} {u : Upgrade} {r : Release} :
    l.upgrade u = .ok (r, k) ↔
      ∃ previous p m, l.live u.release = .ok previous ∧
        l.stored? u.package u.packageVersion = some p ∧ Manifest.ofPackage p.package = .ok m ∧
        l.replaced u previous p.package m = r ∧
        (l.retire u.release (superseded (l.nextVersion u.release))).push r = k := by
  unfold upgrade
  simp only [← stored_eq_ok_iff]
  cases l.live u.release with
  | error e => simp [bind, Except.bind]
  | ok previous =>
      cases l.stored u.package u.packageVersion with
      | error e => simp [bind, Except.bind]
      | ok p =>
          cases hm : Manifest.ofPackage p.package <;>
            simp [bind, Except.bind, pure, Except.pure, replaced, hm]
          all_goals grind

theorem rollback_eq_ok_iff {l k : Ledger} {name : String} {version : Nat} {r : Release} :
    l.rollback name version = .ok (r, k) ↔
      ∃ latest target, l.latest name = .ok latest ∧
        (l.history name).find? (·.version == rollbackTarget latest version) = some target ∧
        restored latest version target = r ∧
        (l.retire name (superseded (latest.version + 1))).push r = k := by
  unfold rollback
  cases l.latest name with
  | error e => simp [bind, Except.bind]
  | ok latest =>
      cases h : (l.history name).find? (·.version == rollbackTarget latest version) <;>
        rw [rollbackTarget] at h <;>
        simp [bind, Except.bind, pure, Except.pure, throw, throwThe, MonadExceptOf.throw,
          rollbackTarget, restored, h]
      all_goals grind

theorem delete_eq_ok_iff {l k : Ledger} {name : String} {r : Release} :
    l.delete name = .ok (r, k) ↔
      ∃ live, l.live name = .ok live ∧
        { live with status := .deleted, description := "Delete complete" } = r ∧
        { l.retire name "Delete complete" with reported := l.reported.erase name } = k := by
  unfold delete
  cases l.live name <;> simp [bind, Except.bind, pure, Except.pure]

theorem upload_eq_ok_iff {l k : Ledger} {text : String} {info : PackageInfo} :
    l.upload text = .ok (info, k) ↔
      ∃ p, Package.ofText? text = some p ∧ p.info = info ∧
        { l with
          packages := l.packages.insert p.info.name
            (((l.packages.get? p.info.name).getD ∅).insert p.info.version
              ⟨p, Digest.sha256 text.toUTF8.toList⟩)
          uploads := l.uploads + 1 } = k := by
  unfold upload
  cases Package.ofText? text <;> simp

/-- An upload touches packages only. -/
theorem upload_keeps {l k : Ledger} {text : String} {info : PackageInfo}
    (h : l.upload text = .ok (info, k)) :
    k = { l with packages := k.packages, uploads := k.uploads } := by
  obtain ⟨p, -, -, rfl⟩ := upload_eq_ok_iff.1 h
  rfl

/-- What was uploaded is found under its own name and version. -/
theorem stored?_of_upload {l k : Ledger} {text : String} {info : PackageInfo}
    (h : l.upload text = .ok (info, k)) : ∃ p, Package.ofText? text = some p ∧
      ∀ name version, k.stored? name version =
        if name = p.info.name ∧ version = p.info.version then
          some ⟨p, Digest.sha256 text.toUTF8.toList⟩
        else l.stored? name version := by
  obtain ⟨p, hp, -, rfl⟩ := upload_eq_ok_iff.1 h
  refine ⟨p, hp, fun name version => ?_⟩
  unfold stored?
  rw [StringMap.get?_insert]
  by_cases hn : name = p.info.name
  · simp only [hn, if_true, Option.bind_some, StringMap.get?_insert, true_and]
    split
    · rfl
    · cases l.packages.get? p.info.name <;> rfl
  · simp [hn]

/-- A package of stages that was uploaded is found. -/
theorem stored?_upload {l k : Ledger} {p : Package} {info : PackageInfo}
    (h : l.upload p.text = .ok (info, k)) (hp : p.Packed) (name version : String) :
    k.stored? name version =
      if name = p.info.name ∧ version = p.info.version then some ⟨p, p.digest⟩
      else l.stored? name version := by
  obtain ⟨q, hq, hstored⟩ := stored?_of_upload h
  cases hp.ofText?_text.symm.trans hq
  exact hstored name version

theorem exists_upload (l : Ledger) {p : Package} (hp : p.Packed) :
    ∃ info k, l.upload p.text = .ok (info, k) :=
  ⟨_, _, upload_eq_ok_iff.2 ⟨p, hp.ofText?_text, rfl, rfl⟩⟩

/-! ### Runs -/

/-- What changes a ledger. -/
inductive Command
  | upload (text : String)
  | deletePackage (name : String)
  | install (i : Installation)
  | upgrade (u : Upgrade)
  | rollback (name : String) (version : Nat)
  | delete (name : String)
  | setState (name label : String) (s : State)

/-- What comes of a command: a failure, or a ledger with the release that was made or ended. -/
def attempt (c : Command) (l : Ledger) : Except Failure (Option Release × Ledger) :=
  match c with
  | .upload text => (l.upload text).map fun r => (none, r.2)
  | .deletePackage name => .ok (none, l.deletePackage name)
  | .install i => (l.install i).map fun r => (some r.1, r.2)
  | .upgrade u => (l.upgrade u).map fun r => (some r.1, r.2)
  | .rollback name version => (l.rollback name version).map fun r => (some r.1, r.2)
  | .delete name => (l.delete name).map fun r => (some r.1, r.2)
  | .setState name label s => .ok (none, l.setState name label s)

/-- Carries out a command. -/
def perform (l : Ledger) (c : Command) : Except Failure (Option Release) × Ledger :=
  Call.apply (attempt c) l

/-- A run of commands. -/
inductive Reaches (l : Ledger) : Ledger → Prop where
  | refl : Reaches l l
  | step {k : Ledger} (t : Reaches l k) (c : Command) : Reaches l (k.perform c).2

theorem Reaches.one (l : Ledger) (c : Command) : Reaches l (l.perform c).2 :=
  .step .refl c

theorem Reaches.trans {l k m : Ledger} (h₁ : Reaches l k) (h₂ : Reaches k m) : Reaches l m := by
  induction h₂ with
  | refl => exact h₁
  | step _ c ih => exact .step ih c

/-- What a command makes of a ledger when it succeeds. -/
theorem reaches_of_attempt {l k : Ledger} {c : Command} {r : Option Release}
    (h : attempt c l = .ok (r, k)) : l.Reaches k := by
  have hc := Reaches.one l c
  rw [perform, Call.apply, h] at hc
  exact hc

theorem reaches_upload {l k : Ledger} {text : String} {info : PackageInfo}
    (h : l.upload text = .ok (info, k)) : l.Reaches k :=
  reaches_of_attempt (c := .upload text) (r := none) (by simp [attempt, h, Except.map])

theorem reaches_install {l k : Ledger} {i : Installation} {r : Release}
    (h : l.install i = .ok (r, k)) : l.Reaches k :=
  reaches_of_attempt (c := .install i) (r := some r) (by simp [attempt, h, Except.map])

theorem reaches_upgrade {l k : Ledger} {u : Upgrade} {r : Release}
    (h : l.upgrade u = .ok (r, k)) : l.Reaches k :=
  reaches_of_attempt (c := .upgrade u) (r := some r) (by simp [attempt, h, Except.map])

theorem reaches_rollback {l k : Ledger} {name : String} {version : Nat} {r : Release}
    (h : l.rollback name version = .ok (r, k)) : l.Reaches k :=
  reaches_of_attempt (c := .rollback name version) (r := some r)
    (by simp [attempt, h, Except.map])

theorem reaches_delete {l k : Ledger} {name : String} {r : Release}
    (h : l.delete name = .ok (r, k)) : l.Reaches k :=
  reaches_of_attempt (c := .delete name) (r := some r) (by simp [attempt, h, Except.map])

/-- A command fails and changes nothing, or succeeds as `attempt` says. -/
theorem perform_cases (l : Ledger) (c : Command) :
    (∃ e, attempt c l = .error e ∧ l.perform c = (.error e, l)) ∨
    ∃ r k, attempt c l = .ok (r, k) ∧ l.perform c = (.ok r, k) := by
  unfold perform Call.apply
  cases h : attempt c l with
  | error e => exact .inl ⟨e, rfl, rfl⟩
  | ok a => exact .inr ⟨a.1, a.2, rfl, rfl⟩

end StreamPipeline.Ledger
