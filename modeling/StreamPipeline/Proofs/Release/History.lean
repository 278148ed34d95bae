import StreamPipeline.Proofs.Release.Command

/-!
# The history of a name

A history lists the releases under a name, the latest first. It is *orderly* when its versions are
counted down to one, all its releases carry the name, and only the latest can be live
(`IsOrderly`). A command leaves an orderly history as it is, ends its latest release, or does that
and puts one new release in front (`Grows`); which of these it was is said once, in
`grows_of_perform`, and everything else follows from it.

**Histories are append-only** (`history_append_only`). On every run from a ledger without releases
every history is orderly. From any point of the run on, the releases that are there stay, all but
the latest as they are, and the latest at most ends; so each version has for ever the manifest with
which a command made it.
-/

namespace StreamPipeline

/-- What can become of a release: nothing, or it was live and has ended. -/
def Release.Lasts (r r' : Release) : Prop :=
  r' = r ∨ r.isLive = true ∧ ∃ description, r' = { r with status := .deleted, description }

namespace Release

theorem Lasts.refl (r : Release) : r.Lasts r := .inl rfl

theorem isLive_deleted (r : Release) (d : String) :
    ({ r with status := .deleted, description := d } : Release).isLive = false := rfl

theorem Lasts.trans {r s t : Release} (h₁ : r.Lasts s) (h₂ : s.Lasts t) : r.Lasts t := by
  rcases h₁ with rfl | ⟨hr, d, rfl⟩
  · exact h₂
  · rcases h₂ with rfl | ⟨hs, -, -⟩
    · exact .inr ⟨hr, d, rfl⟩
    · rw [isLive_deleted] at hs; cases hs

/-- Whatever becomes of a release, it keeps its number. -/
theorem Lasts.version {r r' : Release} (h : r.Lasts r') : r'.version = r.version := by
  rcases h with rfl | ⟨-, d, rfl⟩ <;> rfl

/-- Whatever becomes of a release, it keeps its manifest. -/
theorem Lasts.manifest {r r' : Release} (h : r.Lasts r') : r'.manifest = r.manifest := by
  rcases h with rfl | ⟨-, d, rfl⟩ <;> rfl

end Release

namespace Ledger

/-! ### Orderly histories -/

/-- The versions are counted down to one, every release carries the name, and behind the latest
release none is live. -/
inductive IsOrderly (name : String) : List Release → Prop where
  | nil : IsOrderly name []
  | cons {r : Release} {rs : List Release} (t : IsOrderly name rs) (hname : r.name = name)
      (hversion : r.version = rs.length + 1) (hended : ∀ q ∈ rs, q.isLive = false) :
      IsOrderly name (r :: rs)

namespace IsOrderly

variable {name : String} {rs : List Release}

theorem name_eq (h : IsOrderly name rs) : ∀ r ∈ rs, r.name = name := by
  induction h with
  | nil => simp
  | cons _ hname _ _ ih =>
      intro r hr
      rcases List.mem_cons.1 hr with rfl | hr
      · exact hname
      · exact ih r hr

theorem versions (h : IsOrderly name rs) :
    rs.map (·.version) = (List.range' 1 rs.length).reverse := by
  induction h with
  | nil => rfl
  | cons _ _ hversion _ ih =>
      rw [List.map_cons, ih, hversion, List.length_cons, List.range'_1_concat, List.reverse_append]
      simp [Nat.add_comm]

theorem tail_ended (h : IsOrderly name rs) : ∀ r ∈ rs.tail, r.isLive = false := by
  cases h with
  | nil => simp
  | cons _ _ _ hended => exact hended

theorem version_le (h : IsOrderly name rs) : ∀ r ∈ rs, r.version ≤ rs.length := by
  induction h with
  | nil => simp
  | cons _ _ hversion _ ih =>
      intro r hr
      rcases List.mem_cons.1 hr with rfl | hr
      · exact Nat.le_of_eq hversion
      · exact Nat.le_succ_of_le (ih r hr)

/-- Each number up to the latest one is the version of a release, which a search finds. -/
theorem find?_version (h : IsOrderly name rs) {v : Nat} (h₁ : 1 ≤ v) (h₂ : v ≤ rs.length) :
    ∃ r, rs.find? (·.version == v) = some r ∧ r.version = v := by
  induction h with
  | nil => simp at h₂; omega
  | @cons r rs t _ hversion _ ih =>
      by_cases hv : r.version = v
      · exact ⟨r, by simp [hv], hv⟩
      · obtain ⟨q, hq, hqv⟩ := ih (by simp at h₂; omega)
        exact ⟨q, by simp [hv, hq], hqv⟩

/-- A search for a version finds nothing else than the release that has it. -/
theorem find?_of_mem (h : IsOrderly name rs) {r : Release} (hr : r ∈ rs) :
    rs.find? (·.version == r.version) = some r := by
  induction h with
  | nil => simp at hr
  | @cons q rs t _ hversion _ ih =>
      rcases List.mem_cons.1 hr with rfl | hr
      · simp
      · have hne : q.version ≠ r.version := by have := t.version_le r hr; omega
        simp [hne, ih hr]

end IsOrderly

/-! ### What a command does to a history -/

/-- The history with its latest release ended, if that was live. -/
def endLatest (description : String) : List Release → List Release
  | [] => []
  | r :: rs =>
    (if r.isLive then { r with status := .deleted, description } else r) :: rs

@[simp] theorem length_endLatest (d : String) (rs : List Release) :
    (endLatest d rs).length = rs.length := by
  cases rs <;> rfl

/-- A history whose latest release is not live has nothing to end. -/
theorem endLatest_of_ended {d : String} {rs : List Release} (h : ∀ r ∈ rs.head?, r.isLive = false) :
    endLatest d rs = rs := by
  cases rs with
  | nil => rfl
  | cons r rs => simp [endLatest, h r rfl]

theorem endLatest_ended {name : String} {rs : List Release} (h : IsOrderly name rs) (d : String) :
    ∀ r ∈ endLatest d rs, r.isLive = false := by
  cases h with
  | nil => simp [endLatest]
  | @cons r rs _ _ _ hended =>
      intro q hq
      rcases List.mem_cons.1 hq with rfl | hq
      · cases hr : r.isLive
        · simpa using hr
        · rfl
      · exact hended q hq

/-- How a history can change by one command with a result. -/
inductive Grows (name : String) (result : Except Failure (Option Release)) (rs : List Release) :
    List Release → Prop where
  | same : Grows name result rs rs
  | ended (d : String) : Grows name result rs (endLatest d rs)
  | added (d : String) (r : Release) (hname : r.name = name)
      (hversion : r.version = rs.length + 1) (hresult : result = .ok (some r)) :
      Grows name result rs (r :: endLatest d rs)

theorem IsOrderly.endLatest {name : String} {rs : List Release} (h : IsOrderly name rs)
    (d : String) : IsOrderly name (endLatest d rs) := by
  cases h with
  | nil => exact .nil
  | @cons r rs t hname hversion hended =>
      refine .cons t ?_ ?_ hended
      · split <;> exact hname
      · split <;> exact hversion

theorem IsOrderly.grows {name : String} {result : Except Failure (Option Release)}
    {rs rs' : List Release} (h : IsOrderly name rs) (g : Grows name result rs rs') :
    IsOrderly name rs' := by
  cases g with
  | same => exact h
  | ended d => exact h.endLatest d
  | added d r hname hversion _ =>
      exact .cons (h.endLatest d) hname (by simpa using hversion) (endLatest_ended h d)

/-! ### The histories of a ledger -/

theorem history_push (l : Ledger) (r : Release) (name : String) :
    (l.push r).history name = if name = r.name then r :: l.history name else l.history name := by
  by_cases h : name = r.name <;> simp [push, history, StringMap.get?_insert, h]

theorem history_retire (l : Ledger) (name d n : String) :
    (l.retire name d).history n = if n = name then endLatest d (l.history n) else l.history n := by
  unfold retire
  split
  · rename_i r rs h
    by_cases hn : n = name
    · subst hn
      rw [h]
      cases hr : r.isLive
      · simpa [hr, endLatest] using h
      · simp [hr, endLatest, history]
    · cases hr : r.isLive <;> simp [hn, history, StringMap.get?_insert]
  · rename_i h
    by_cases hn : n = name
    · subst hn; simp [h, endLatest]
    · simp [hn]

@[simp] theorem history_setState (l : Ledger) (name label n : String) (s : State) :
    (l.setState name label s).history n = l.history n := rfl

@[simp] theorem history_deletePackage (l : Ledger) (name n : String) :
    (l.deletePackage name).history n = l.history n := rfl

/-- Every history is orderly. -/
def Orderly (l : Ledger) : Prop := ∀ name, IsOrderly name (l.history name)

theorem Orderly.nextVersion {l : Ledger} (h : l.Orderly) (name : String) :
    l.nextVersion name = (l.history name).length + 1 := by
  unfold Ledger.nextVersion
  have hn := h name
  cases hr : l.history name with
  | nil => rfl
  | cons r rs => rw [hr] at hn; cases hn; simp [*]

/-- The latest release of an orderly ledger has the number of releases for its version. -/
theorem Orderly.latest_version {l : Ledger} (h : l.Orderly) {name : String} {r : Release}
    (hr : l.latest name = .ok r) : r.version = (l.history name).length := by
  obtain ⟨rs, hrs⟩ := latest_eq_ok_iff.1 hr
  have hn := h name
  rw [hrs] at hn ⊢
  cases hn
  simpa using ‹r.version = _›

/-- Ending the latest release of a name and putting a new one in front of it. -/
theorem grows_push_retire {l : Ledger} {name d : String} {r : Release} (hname : r.name = name)
    (hversion : r.version = (l.history name).length + 1) (n : String) :
    Grows n (.ok (some r)) (l.history n) (((l.retire name d).push r).history n) := by
  rw [history_push, history_retire, hname]
  by_cases hn : n = name
  · subst hn
    simpa using Grows.added d r hname hversion rfl
  · simpa [hn] using Grows.same

/-- An installation puts its release in front of a history without a live release. -/
theorem grows_install {l k : Ledger} (h : l.Orderly) {i : Installation} {r : Release}
    (hi : l.install i = .ok (r, k)) (n : String) :
    Grows n (.ok (some r)) (l.history n) (k.history n) := by
  obtain ⟨-, hlive, p, m, -, -, rfl, rfl⟩ := install_eq_ok_iff.1 hi
  rw [history_push]
  by_cases hn : n = i.release
  · subst hn
    have g := Grows.added "" (l.installed i p.package m) rfl (h.nextVersion _) rfl
    rw [endLatest_of_ended (isOk_live_eq_false_iff.1 hlive)] at g
    simpa [installed] using g
  · simpa [installed, hn] using Grows.same

theorem grows_upgrade {l k : Ledger} (h : l.Orderly) {u : Upgrade} {r : Release}
    (hu : l.upgrade u = .ok (r, k)) (n : String) :
    Grows n (.ok (some r)) (l.history n) (k.history n) := by
  obtain ⟨previous, p, m, -, -, -, rfl, rfl⟩ := upgrade_eq_ok_iff.1 hu
  exact grows_push_retire rfl (h.nextVersion _) n

/-- A rollback finds its target among the releases of the name, so its release has that name. -/
theorem grows_rollback {l k : Ledger} (h : l.Orderly) {name : String} {v : Nat} {r : Release}
    (hr : l.rollback name v = .ok (r, k)) (n : String) :
    Grows n (.ok (some r)) (l.history n) (k.history n) := by
  obtain ⟨latest, target, hlatest, htarget, rfl, rfl⟩ := rollback_eq_ok_iff.1 hr
  refine grows_push_retire ?_ ?_ n
  · exact (h name).name_eq target (List.mem_of_find?_eq_some htarget)
  · exact congrArg (· + 1) (h.latest_version hlatest)

theorem grows_delete {l k : Ledger} {name : String} {r : Release}
    (hd : l.delete name = .ok (r, k)) (n : String) :
    Grows n (.ok (some r)) (l.history n) (k.history n) := by
  obtain ⟨live, -, -, rfl⟩ := delete_eq_ok_iff.1 hd
  show Grows n _ (l.history n) ((l.retire name _).history n)
  rw [history_retire]
  by_cases hn : n = name
  · simpa [hn] using Grows.ended _
  · simpa [hn] using Grows.same

/-- **One command, any outcome.** Every history stays, or its latest release ends, or one release is
put in front. -/
theorem grows_of_perform {l : Ledger} (h : l.Orderly) (c : Command) (n : String) :
    Grows n (l.perform c).1 (l.history n) ((l.perform c).2.history n) := by
  -- a command that fails leaves the ledger
  rcases perform_cases l c with ⟨e, -, hc⟩ | ⟨r, k, ha, hc⟩
  · rw [hc]
    exact .same
  rw [hc]
  cases c with
  | upload text =>
      obtain ⟨⟨info, k'⟩, hu, hk⟩ := Except.map_eq_ok_iff.1 ha
      obtain ⟨p, -, -, rfl⟩ := upload_eq_ok_iff.1 hu
      cases hk
      exact .same
  | deletePackage name => cases ha; exact .same
  | setState name label s => cases ha; exact .same
  | install i =>
      obtain ⟨⟨r', k'⟩, hi, hk⟩ := Except.map_eq_ok_iff.1 ha
      cases hk
      exact grows_install h hi n
  | upgrade u =>
      obtain ⟨⟨r', k'⟩, hu, hk⟩ := Except.map_eq_ok_iff.1 ha
      cases hk
      exact grows_upgrade h hu n
  | rollback name v =>
      obtain ⟨⟨r', k'⟩, hr, hk⟩ := Except.map_eq_ok_iff.1 ha
      cases hk
      exact grows_rollback h hr n
  | delete name =>
      obtain ⟨⟨r', k'⟩, hd, hk⟩ := Except.map_eq_ok_iff.1 ha
      cases hk
      exact grows_delete hd n

theorem Orderly.perform {l : Ledger} (h : l.Orderly) (c : Command) : (l.perform c).2.Orderly :=
  fun name => (h name).grows (grows_of_perform h c name)

theorem Orderly.reaches {l k : Ledger} (h : l.Orderly) (t : Reaches l k) : k.Orderly := by
  induction t with
  | refl => exact h
  | step _ c ih => exact ih.perform c

/-! ### Runs -/

/-- What a history has become: others in front of the releases that were there, of which the latest
may have ended. -/
inductive Extends : List Release → List Release → Prop where
  | ofNil (added : List Release) : Extends [] added
  | kept (added : List Release) {r r' : Release} (h : r.Lasts r') (rs : List Release) :
      Extends (r :: rs) (added ++ r' :: rs)

theorem Extends.refl : ∀ rs, Extends rs rs
  | [] => .ofNil []
  | r :: rs => .kept [] (.refl r) rs

theorem Extends.trans {a b c : List Release} (h₁ : Extends a b) (h₂ : Extends b c) :
    Extends a c := by
  cases h₁ with
  | ofNil => exact .ofNil c
  | @kept added r r' h rs =>
      cases added with
      | nil =>
          cases h₂ with
          | kept added' h' _ => exact .kept added' (h.trans h') rs
      | cons q added =>
          cases h₂ with
          | @kept added' _ q' h' _ =>
              simpa using Extends.kept (added' ++ q' :: added) h rs

theorem lasts_endLatest (d : String) (r : Release) :
    r.Lasts (if r.isLive then { r with status := .deleted, description := d } else r) := by
  cases h : r.isLive
  · exact .inl (by simp)
  · exact .inr ⟨h, d, by simp⟩

theorem extends_endLatest (d : String) (added rs : List Release) :
    Extends rs (added ++ endLatest d rs) := by
  cases rs with
  | nil => exact .ofNil _
  | cons r rs => exact .kept added (lasts_endLatest d r) rs

theorem Grows.extends {name : String} {result : Except Failure (Option Release)}
    {rs rs' : List Release} (g : Grows name result rs rs') : Extends rs rs' := by
  cases g with
  | same => exact .refl rs
  | ended d => exact extends_endLatest d [] rs
  | added d r _ _ _ => exact extends_endLatest d [r] rs

theorem extends_of_reaches {l k : Ledger} (h : l.Orderly) (t : Reaches l k) (name : String) :
    Extends (l.history name) (k.history name) := by
  induction t with
  | refl => exact .refl _
  | step t c ih => exact ih.trans (grows_of_perform (h.reaches t) c name).extends

/-- A release that was there is still found, and has at most ended. -/
theorem Extends.mem {a b : List Release} (h : Extends a b) {r : Release} (hr : r ∈ a) :
    ∃ r' ∈ b, r.Lasts r' := by
  cases h with
  | ofNil => cases hr
  | @kept added q q' h rs =>
      rcases List.mem_cons.1 hr with rfl | hr
      · exact ⟨q', by simp, h⟩
      · exact ⟨r, by simp [hr], .refl r⟩

theorem manifest_of_mem {l : Ledger} (h : l.Orderly) {name : String} {r : Release}
    (hr : r ∈ l.history name) : l.manifest name (some r.version) = .ok r.manifest := by
  have hfind := (h name).find?_of_mem hr
  unfold Ledger.manifest
  split
  · rename_i hnil; simp [hnil] at hr
  · rename_i hv; cases hv
  · rename_i hv _; cases hv; rw [hfind]

/-- `c` makes the release `r` from `l`: it succeeds with `r`, whose version was not there before. -/
def Makes (l : Ledger) (c : Command) (r : Release) : Prop :=
  (l.perform c).1 = .ok (some r) ∧ ∀ q ∈ l.history r.name, q.version ≠ r.version

/-- What was there before has at most ended; anything else is new. -/
theorem Grows.mem {name : String} {result : Except Failure (Option Release)}
    {rs rs' : List Release} (g : Grows name result rs rs') {r : Release} (hr : r ∈ rs') :
    (∃ q ∈ rs, q.Lasts r) ∨
      result = .ok (some r) ∧ r.name = name ∧ r.version = rs.length + 1 := by
  have ended : ∀ {d : String}, r ∈ endLatest d rs → ∃ q ∈ rs, q.Lasts r := fun {d} hr => by
    cases rs with
    | nil => cases hr
    | cons q rs =>
        rcases List.mem_cons.1 hr with rfl | hr
        · exact ⟨q, List.mem_cons_self, lasts_endLatest d q⟩
        · exact ⟨r, List.mem_cons_of_mem q hr, .refl r⟩
  cases g with
  | same => exact .inl ⟨r, hr, .refl r⟩
  | ended d => exact .inl (ended hr)
  | added d q hname hversion hresult =>
      rcases List.mem_cons.1 hr with rfl | hr
      · exact .inr ⟨hresult, hname, hversion⟩
      · exact .inl (ended hr)

/-- **Every release was made by a command of the run**, and has at most ended since. -/
theorem made_of_mem {l₀ l : Ledger} (h₀ : ∀ name, l₀.history name = []) (t : Reaches l₀ l)
    {name : String} {r : Release} (hr : r ∈ l.history name) :
    ∃ k c q, Reaches l₀ k ∧ k.Makes c q ∧ Reaches (k.perform c).2 l ∧ q.name = name ∧
      q.Lasts r := by
  have horderly : l₀.Orderly := fun n => by rw [h₀ n]; exact .nil
  induction t generalizing r with
  | refl =>
      rw [h₀ name] at hr
      cases hr
  | @step l t c ih =>
      have hl := horderly.reaches t
      rcases (grows_of_perform hl c name).mem hr with ⟨q, hq, hlasts⟩ | ⟨hresult, hname, hversion⟩
      · obtain ⟨k, c', q', tk, hmakes, tl, hname, hq'⟩ := ih hq
        exact ⟨k, c', q', tk, hmakes, .step tl c, hname, hq'.trans hlasts⟩
      · -- the versions that were there are all smaller
        refine ⟨l, c, r, t, ⟨hresult, fun q hq => ?_⟩, .refl, hname, .refl r⟩
        rw [hname] at hq
        have := (hl name).version_le q hq
        omega

/-- Any stages can be installed where nothing is running, once a package of them was uploaded. -/
theorem exists_release_of (l : Ledger) (info : PackageInfo) (es : List Entry) (i : Installation)
    (hname : i.package = info.name) (hversion : i.packageVersion = info.version)
    (hplatform : l.platforms.any (·.name == i.platform) = true)
    (hdead : (l.live i.release).isOk = false) :
    ∃ k r, Reaches l k ∧ r.manifest = ⟨es⟩ ∧ r.isLive = true ∧
      k.history i.release = r :: l.history i.release := by
  have hpacked : (Manifest.packed info info.version info.repository es).Packed := ⟨_, _, _, _, rfl⟩
  obtain ⟨info', l₁, hupload⟩ := l.exists_upload hpacked
  have hkeeps := upload_keeps hupload
  have hstored := (stored?_upload hupload hpacked i.package i.packageVersion).trans
    (if_pos ⟨hname, hversion⟩)
  refine ⟨_, l₁.installed i (Manifest.packed info info.version info.repository es) ⟨es⟩,
    (reaches_upload hupload).trans (reaches_install (install_eq_ok_iff.2 ⟨?_, ?_, _, _,
      hstored, Manifest.ofPackage_packed info _ _ es, rfl, rfl⟩)), rfl, rfl, ?_⟩
  · rw [hkeeps]
    exact hplatform
  · rw [hkeeps]
    exact hdead
  · refine (history_push l₁ _ i.release).trans ((if_pos rfl).trans (congrArg (_ :: ·) ?_))
    rw [hkeeps]
    rfl

/-- **Histories are append-only.**  On every run from a ledger without releases, under every name:

* the versions are counted down to one, every release carries the name, and behind the latest one
  none is live;
* whatever further commands there are, the releases stay: all but the latest as they are, and the
  latest at most ends;
* each version was made by a command of the run, and the manifest that is found under it is for
  ever the one with which it was made. -/
theorem history_append_only (platforms : List Platform) (initial : State) {l : Ledger}
    (t : Reaches { platforms, initial } l) (name : String) :
    (l.history name).map (·.version) = (List.range' 1 (l.history name).length).reverse ∧
    (∀ r ∈ l.history name, r.name = name) ∧
    (∀ r ∈ (l.history name).tail, r.isLive = false) ∧
    (∀ l', Reaches l l' → Extends (l.history name) (l'.history name)) ∧
    ∀ v, 1 ≤ v → v ≤ (l.history name).length →
      ∃ k c r, Reaches { platforms, initial } k ∧ k.Makes c r ∧ Reaches (k.perform c).2 l ∧
        r.name = name ∧ r.version = v ∧
        ∀ l', Reaches l l' → l'.manifest name (some v) = .ok r.manifest := by
  have h₀ : ∀ name, ({ platforms, initial } : Ledger).history name = [] := fun _ => rfl
  have horderly : ({ platforms, initial } : Ledger).Orderly := fun n => by
    rw [h₀ n]; exact .nil
  have hl := horderly.reaches t
  refine ⟨(hl name).versions, (hl name).name_eq, (hl name).tail_ended,
    fun l' t' => extends_of_reaches hl t' name, fun v h₁ h₂ => ?_⟩
  obtain ⟨r, hfind, rfl⟩ := (hl name).find?_version h₁ h₂
  have hr := List.mem_of_find?_eq_some hfind
  obtain ⟨k, c, q, tk, hmakes, tl, hname, hlasts⟩ := made_of_mem h₀ t hr
  refine ⟨k, c, q, tk, hmakes, tl, hname, hlasts.version.symm, fun l' t' => ?_⟩
  obtain ⟨r', hr', hlasts'⟩ := (extends_of_reaches hl t' name).mem hr
  rw [← hlasts'.version, manifest_of_mem (hl.reaches t') hr', hlasts'.manifest, hlasts.manifest]

/-- A pipeline of one stage that was installed and deleted: its manifest stays. -/
theorem history_append_only_after_delete : ∃ l r,
    Reaches { platforms := [⟨"default", "local", "In-process platform"⟩], initial := .deployed } l ∧
      l.history "clock" = [r] ∧ r.isLive = false ∧ r.manifest.labels = ["time"] ∧
      ∀ l', Reaches l l' → l'.manifest "clock" (some r.version) = .ok r.manifest := by
  let time : Entry :=
    ⟨"time", "time", .source, { resource := "maven://apps:time:1.0.0", version := "1.0.0" }⟩
  obtain ⟨l₁, r, t₁, hmanifest, hlive, hhistory⟩ := exists_release_of
    { platforms := [⟨"default", "local", "In-process platform"⟩], initial := .deployed }
    { name := "clock", version := "1.0.0", repository := "local", kind := .pipeline } [time]
    ⟨"clock", "clock", "1.0.0", "default", ""⟩ rfl rfl rfl rfl
  obtain ⟨r', l₂, hdelete⟩ : ∃ r' l₂, l₁.delete "clock" = .ok (r', l₂) :=
    ⟨_, _, delete_eq_ok_iff.2 ⟨r, live_eq_ok_iff.2 ⟨_, hhistory, hlive⟩, rfl, rfl⟩⟩
  have hended : l₂.history "clock" =
      [{ r with status := .deleted, description := "Delete complete" }] := by
    obtain ⟨q, -, -, rfl⟩ := delete_eq_ok_iff.1 hdelete
    refine (history_retire l₁ "clock" "Delete complete" "clock").trans ((if_pos rfl).trans ?_)
    rw [hhistory, endLatest, if_pos hlive]
    rfl
  have t₂ := t₁.trans (reaches_delete hdelete)
  obtain ⟨hversions, -, -, -, hmanifests⟩ := history_append_only _ _ t₂ "clock"
  rw [hended] at hversions hmanifests
  obtain ⟨-, -, q, -, -, -, -, -, hfound⟩ := hmanifests 1 (Nat.le_refl 1) (Nat.le_refl 1)
  have hversion : r.version = 1 := by simpa using hversions
  have hnow : l₂.manifest "clock" (some 1) = .ok r.manifest := by
    simp [manifest, hended, hversion]
  have hsame : q.manifest = r.manifest := Except.ok.inj ((hfound l₂ .refl).symm.trans hnow)
  refine ⟨l₂, _, t₂, hended, rfl, ?_, fun l' t' => ?_⟩
  · exact (congrArg Manifest.labels hmanifest).trans rfl
  · exact (hversion ▸ hfound l' t').trans (congrArg _ hsame)

end Ledger

end StreamPipeline
