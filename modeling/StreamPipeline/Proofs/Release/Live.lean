import StreamPipeline.Proofs.Release.History
import StreamPipeline.Proofs.Release.Lifecycle

/-!
# Which releases are running

What a lifecycle does to a ledger is a run of commands. An upload leaves all releases as they are,
and the other operations start or end the release of the one name that they are about
(`isLive_install` and its neighbours).
-/

namespace StreamPipeline.Ledger

/-! ### Runs -/

theorem reaches_ensure {l k : Ledger} {p : Package} (h : l.ensure p = .ok ((), k)) :
    l.Reaches k := by
  unfold ensure at h
  split at h
  · cases h
    exact .refl
  · obtain ⟨r, hr, hk⟩ := Except.map_eq_ok_iff.1 h
    cases hk
    exact reaches_upload hr

/-- What an uninstallation does: it ends the running release and deletes its package. -/
theorem uninstall_eq_ok_iff {l k : Ledger} {name : String} {r : Release} :
    l.uninstall name = .ok (r, k) ↔
      ∃ l', l.delete name = .ok (r, l') ∧ l'.deletePackage r.package.name = k := by
  unfold uninstall
  rw [Except.map_eq_ok_iff]
  constructor
  · rintro ⟨⟨r', l'⟩, hd, he⟩
    cases he
    exact ⟨l', hd, rfl⟩
  · rintro ⟨l', hd, rfl⟩
    exact ⟨(r, l'), hd, rfl⟩

theorem reaches_uninstall {l k : Ledger} {name : String} {r : Release}
    (h : l.uninstall name = .ok (r, k)) : l.Reaches k := by
  obtain ⟨l', hd, rfl⟩ := uninstall_eq_ok_iff.1 h
  exact (reaches_delete hd).trans (.one l' (.deletePackage r.package.name))

/-! ### Running releases -/

/-- A release is running under a name. -/
def IsLive (l : Ledger) (name : String) : Prop := ∃ r, l.live name = .ok r

variable {l k : Ledger} {name n : String}

theorem mem_history_of_live {r : Release} (h : l.live name = .ok r) : r ∈ l.history name := by
  obtain ⟨rs, hrs, -⟩ := live_eq_ok_iff.1 h
  exact hrs ▸ List.mem_cons_self

theorem isLive_iff : l.IsLive name ↔ ∃ r ∈ (l.history name).head?, r.isLive = true := by
  constructor
  · rintro ⟨r, hr⟩
    obtain ⟨rs, hrs, hlive⟩ := live_eq_ok_iff.1 hr
    exact ⟨r, by simp [hrs], hlive⟩
  · rintro ⟨r, hr, hlive⟩
    obtain ⟨rs, hrs⟩ := List.head?_eq_some_iff.1 hr
    exact ⟨r, live_eq_ok_iff.2 ⟨rs, hrs, hlive⟩⟩

theorem isLive_congr (h : k.history name = l.history name) : k.IsLive name ↔ l.IsLive name := by
  rw [isLive_iff, isLive_iff, h]

theorem isLive_push {r : Release} (h : r.isLive = true) :
    (l.push r).IsLive n ↔ n = r.name ∨ l.IsLive n := by
  rw [isLive_iff, history_push]
  by_cases hn : n = r.name
  · simp [hn, h]
  · simp [hn, isLive_iff]

theorem isLive_retire {d : String} : (l.retire name d).IsLive n ↔ n ≠ name ∧ l.IsLive n := by
  rw [isLive_iff, history_retire]
  by_cases hn : n = name
  · subst hn
    cases hh : l.history n with
    | nil => simp [endLatest]
    | cons r rs =>
        cases hr : r.isLive
        · simp [endLatest, hr]
        · simp [endLatest, hr]
          rfl
  · simp [hn, isLive_iff]

/-- Making a package ready touches packages only. -/
theorem ensure_keeps {p : Package} (h : l.ensure p = .ok ((), k)) :
    k = { l with packages := k.packages, uploads := k.uploads } := by
  unfold ensure at h
  split at h
  · cases h
    rfl
  · obtain ⟨⟨info, k'⟩, hu, hk⟩ := Except.map_eq_ok_iff.1 h
    cases hk
    exact upload_keeps hu

theorem history_ensure {p : Package} (h : l.ensure p = .ok ((), k)) (name : String) :
    k.history name = l.history name := by
  rw [ensure_keeps h]
  rfl

/-- The stages of a new release report the state from which all stages start. -/
theorem stateOf_install {i : Installation} {r : Release} (h : l.install i = .ok (r, k))
    (label : String) : k.stateOf i.release label = l.initial := by
  obtain ⟨-, -, p, m, -, -, rfl, rfl⟩ := install_eq_ok_iff.1 h
  simp [stateOf, push, installed, StringMap.get?_erase]

theorem isLive_install {i : Installation} {r : Release} (h : l.install i = .ok (r, k)) :
    k.IsLive n ↔ n = i.release ∨ l.IsLive n := by
  obtain ⟨-, -, p, m, -, -, rfl, rfl⟩ := install_eq_ok_iff.1 h
  exact isLive_push rfl

theorem isLive_upgrade {u : Upgrade} {r : Release} (h : l.upgrade u = .ok (r, k)) :
    k.IsLive n ↔ l.IsLive n := by
  obtain ⟨previous, p, m, hprevious, -, -, rfl, rfl⟩ := upgrade_eq_ok_iff.1 h
  rw [isLive_push rfl, isLive_retire]
  by_cases hn : n = u.release
  · exact iff_of_true (.inl hn) (hn ▸ ⟨previous, hprevious⟩)
  · simp [hn, replaced]

theorem isLive_rollback (hl : l.Orderly) {version : Nat} {r : Release}
    (h : l.rollback name version = .ok (r, k)) : k.IsLive n ↔ n = name ∨ l.IsLive n := by
  obtain ⟨latest, target, -, htarget, rfl, rfl⟩ := rollback_eq_ok_iff.1 h
  have hname : target.name = name := (hl name).name_eq target (List.mem_of_find?_eq_some htarget)
  rw [isLive_push rfl, isLive_retire]
  by_cases hn : n = name <;> simp [restored, hname, hn]

theorem isLive_uninstall {r : Release} (h : l.uninstall name = .ok (r, k)) :
    k.IsLive n ↔ n ≠ name ∧ l.IsLive n := by
  obtain ⟨l', hd, rfl⟩ := uninstall_eq_ok_iff.1 h
  obtain ⟨live, -, -, rfl⟩ := delete_eq_ok_iff.1 hd
  exact isLive_retire

end StreamPipeline.Ledger
