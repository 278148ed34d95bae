import StreamPipeline.Proofs.Release.Live
import StreamPipeline.Proofs.StringMap

/-!
# What of a ledger belongs to a pipeline

A pipeline has the releases under its name `n` and what their stages report, and packages under a
name `q`. `Ledger.excerpt l n q` is that much of a ledger, together with what never changes, and
`Ledger.remainder l n q` is all else but the number of uploads.

A change is `Confined` if what it makes of the excerpt depends on the excerpt only, and the
remainder stays. An operation is `Within` the excerpt of a ledger if it comes to the same outcome,
by a confined change, wherever that excerpt is the same. So are all operations of a ledger that are
asked for under `n` and `q` (`within_install` and its neighbours).
-/

namespace StreamPipeline.Ledger

variable {n q : String} {l l' : Ledger}

/-- What belongs to a pipeline, and what never changes. -/
structure Excerpt where
  releases : Option (List Release)
  reported : Option (StringMap State)
  packages : Option (StringMap StoredPackage)
  platforms : List Platform
  initial : State

/-- What belongs to the pipeline with the name `n` and packages under `q`. -/
def excerpt (l : Ledger) (n q : String) : Excerpt :=
  ⟨l.releases.get? n, l.reported.get? n, l.packages.get? q, l.platforms, l.initial⟩

/-- What belongs to other pipelines. -/
structure Remainder where
  releases : StringMap (List Release)
  reported : StringMap (StringMap State)
  packages : StringMap (StringMap StoredPackage)
  platforms : List Platform
  initial : State

/-- What does not belong to the pipeline with the name `n` and packages under `q`. -/
def remainder (l : Ledger) (n q : String) : Remainder :=
  ⟨l.releases.erase n, l.reported.erase n, l.packages.erase q, l.platforms, l.initial⟩

/-! ### Questions -/

section

variable (h : l'.excerpt n q = l.excerpt n q)

include h

theorem releases_of_excerpt : l'.releases.get? n = l.releases.get? n := congrArg Excerpt.releases h

theorem reported_of_excerpt : l'.reported.get? n = l.reported.get? n := congrArg Excerpt.reported h

theorem packages_of_excerpt : l'.packages.get? q = l.packages.get? q := congrArg Excerpt.packages h

theorem platforms_of_excerpt : l'.platforms = l.platforms := congrArg Excerpt.platforms h

theorem initial_of_excerpt : l'.initial = l.initial := congrArg Excerpt.initial h

theorem history_of_excerpt : l'.history n = l.history n := by
  rw [history, releases_of_excerpt h, history]

theorem latest_of_excerpt : l'.latest n = l.latest n := by
  rw [latest, history_of_excerpt h, latest]

theorem live_of_excerpt : l'.live n = l.live n := by
  rw [live, history_of_excerpt h, live]

theorem nextVersion_of_excerpt : l'.nextVersion n = l.nextVersion n := by
  rw [nextVersion, history_of_excerpt h, nextVersion]

theorem stored?_of_excerpt (version : String) : l'.stored? q version = l.stored? q version := by
  rw [stored?, packages_of_excerpt h, stored?]

theorem stored_of_excerpt (version : String) : l'.stored q version = l.stored q version := by
  rw [stored, stored?_of_excerpt h, stored]

theorem findPackage_of_excerpt (version : String) :
    l'.findPackage q version = l.findPackage q version := by
  rw [findPackage, stored?_of_excerpt h, findPackage]

theorem stateOf_of_excerpt (label : String) : l'.stateOf n label = l.stateOf n label := by
  rw [stateOf, reported_of_excerpt h, initial_of_excerpt h, stateOf]

theorem status_of_excerpt : l'.status n = l.status n := by
  unfold status
  simp only [live_of_excerpt h, stateOf_of_excerpt h]

end

/-! ### Different pipelines -/

section

variable {a k : Ledger} (h : a.remainder n q = k.remainder n q)

include h

theorem releases_of_remainder : a.releases.erase n = k.releases.erase n :=
  congrArg Remainder.releases h

theorem reported_of_remainder : a.reported.erase n = k.reported.erase n :=
  congrArg Remainder.reported h

theorem packages_of_remainder : a.packages.erase q = k.packages.erase q :=
  congrArg Remainder.packages h

theorem platforms_of_remainder : a.platforms = k.platforms := congrArg Remainder.platforms h

theorem initial_of_remainder : a.initial = k.initial := congrArg Remainder.initial h

/-- What belongs to a pipeline does not belong to another one. -/
theorem excerpt_of_remainder {m p : String} (hn : m ≠ n) (hq : p ≠ q) :
    a.excerpt m p = k.excerpt m p := by
  simp only [excerpt, StringMap.get?_of_erase_eq (releases_of_remainder h) hn,
    StringMap.get?_of_erase_eq (reported_of_remainder h) hn,
    StringMap.get?_of_erase_eq (packages_of_remainder h) hq, platforms_of_remainder h,
    initial_of_remainder h]

end

/-- What is replaced for two pipelines is the same whichever is replaced first. -/
theorem eq_of_replaced {m p : String} {k a b ab ba : Ledger} (hn : m ≠ n) (hq : p ≠ q)
    (ha : a.remainder n q = k.remainder n q) (hab : ab.remainder m p = a.remainder m p)
    (hb : b.remainder m p = k.remainder m p) (hba : ba.remainder n q = b.remainder n q)
    (hatn : ba.excerpt n q = a.excerpt n q) (hatm : ab.excerpt m p = b.excerpt m p)
    (huploads : ba.uploads = ab.uploads) : ba = ab := by
  have hreleases : ba.releases = ab.releases :=
    StringMap.eq_of_replaced hn (releases_of_remainder ha) (releases_of_remainder hab)
      (releases_of_remainder hb) (releases_of_remainder hba) (releases_of_excerpt hatn)
      (releases_of_excerpt hatm)
  have hreported : ba.reported = ab.reported :=
    StringMap.eq_of_replaced hn (reported_of_remainder ha) (reported_of_remainder hab)
      (reported_of_remainder hb) (reported_of_remainder hba) (reported_of_excerpt hatn)
      (reported_of_excerpt hatm)
  have hpackages : ba.packages = ab.packages :=
    StringMap.eq_of_replaced hq (packages_of_remainder ha) (packages_of_remainder hab)
      (packages_of_remainder hb) (packages_of_remainder hba) (packages_of_excerpt hatn)
      (packages_of_excerpt hatm)
  have hplatforms : ba.platforms = ab.platforms := by
    rw [platforms_of_remainder hba, platforms_of_remainder hb, platforms_of_remainder hab,
      platforms_of_remainder ha]
  have hinitial : ba.initial = ab.initial := by
    rw [initial_of_remainder hba, initial_of_remainder hb, initial_of_remainder hab,
      initial_of_remainder ha]
  cases ba
  cases ab
  cases hreleases
  cases hreported
  cases hpackages
  cases hplatforms
  cases hinitial
  cases huploads
  rfl

/-! ### Changes -/

/-- What a change makes of the excerpt depends on the excerpt only, and the remainder stays; there
are `u` more uploads. -/
structure Confined (n q : String) (u : Nat) (f : Ledger → Ledger) : Prop where
  excerpt : ∀ {l l' : Ledger}, l'.excerpt n q = l.excerpt n q → (f l').excerpt n q = (f l).excerpt n q
  remainder : ∀ l, (f l).remainder n q = l.remainder n q
  uploads : ∀ l, (f l).uploads = l.uploads + u

theorem confined_id : Confined n q 0 fun l => l := ⟨fun h => h, fun _ => rfl, fun _ => rfl⟩

theorem Confined.comp {u v : Nat} {f g : Ledger → Ledger} (hg : Confined n q v g)
    (hf : Confined n q u f) : Confined n q (u + v) fun l => g (f l) where
  excerpt h := hg.excerpt (hf.excerpt h)
  remainder l := (hg.remainder _).trans (hf.remainder l)
  uploads l := by rw [hg.uploads, hf.uploads, Nat.add_assoc]

theorem confined_push {r : Release} (hr : r.name = n) : Confined n q 0 (·.push r) where
  excerpt h := by
    subst hr
    simp [Ledger.excerpt, push, history_of_excerpt h, StringMap.get?_erase, packages_of_excerpt h,
      platforms_of_excerpt h, initial_of_excerpt h]
  remainder l := by simp [Ledger.remainder, push, hr]
  uploads _ := rfl

/-- What a ledger has under a name after its release is ended. -/
theorem retire_eq (l : Ledger) (d : String) :
    l.retire n d = l ∨ ∃ rs, l.retire n d = { l with releases := l.releases.insert n rs } := by
  unfold retire
  split
  · split
    · exact .inr ⟨_, rfl⟩
    · exact .inl rfl
  · exact .inl rfl

theorem confined_retire (d : String) : Confined n q 0 (·.retire n d) where
  excerpt {l l'} h := by
    unfold retire
    rw [history_of_excerpt h]
    split
    · split
      · simp [Ledger.excerpt, reported_of_excerpt h, packages_of_excerpt h, platforms_of_excerpt h,
          initial_of_excerpt h]
      · exact h
    · exact h
  remainder l := by
    rcases retire_eq (n := n) l d with hl | ⟨rs, hl⟩ <;> simp [hl, Ledger.remainder]
  uploads l := by rcases retire_eq (n := n) l d with hl | ⟨rs, hl⟩ <;> simp [hl]

/-- What stages report is forgotten. -/
theorem confined_silence : Confined n q 0 fun l => { l with reported := l.reported.erase n } where
  excerpt h := by
    simp [Ledger.excerpt, StringMap.get?_erase, releases_of_excerpt h, packages_of_excerpt h,
      platforms_of_excerpt h, initial_of_excerpt h]
  remainder l := by simp [Ledger.remainder]
  uploads _ := rfl

theorem confined_deletePackage : Confined n q 0 (·.deletePackage q) where
  excerpt h := by
    simp [Ledger.excerpt, deletePackage, StringMap.get?_erase, releases_of_excerpt h,
      reported_of_excerpt h, platforms_of_excerpt h, initial_of_excerpt h]
  remainder l := by simp [Ledger.remainder, deletePackage]
  uploads _ := rfl

/-- The ledger with another package under the name `q`. -/
def storing (q version : String) (s : StoredPackage) (l : Ledger) : Ledger :=
  { l with packages := l.packages.insert q (((l.packages.get? q).getD ∅).insert version s)
           uploads := l.uploads + 1 }

theorem confined_storing (version : String) (s : StoredPackage) :
    Confined n q 1 (storing q version s) where
  excerpt h := by
    simp [Ledger.excerpt, storing, releases_of_excerpt h, reported_of_excerpt h,
      packages_of_excerpt h, platforms_of_excerpt h, initial_of_excerpt h]
  remainder l := by simp [Ledger.remainder, storing]
  uploads _ := rfl

/-! ### Operations -/

/-- Wherever the excerpt is that of `l`, an operation comes to one outcome, by a confined change. -/
def Within {α : Type} (n q : String) (l : Ledger) (g : Ledger → Except Failure (α × Ledger)) :
    Prop :=
  ∃ (x : Except Failure α) (f : α → Ledger → Ledger),
    (∀ l' : Ledger, l'.excerpt n q = l.excerpt n q → g l' = x.map fun a => (a, f a l')) ∧
    ∀ a, x = .ok a → ∃ u, Confined n q u (f a)

theorem within_deletePackage : Within n q l fun l => .ok ((), l.deletePackage q) :=
  ⟨.ok (), fun _ l => l.deletePackage q, fun _ _ => rfl, fun _ _ => ⟨0, confined_deletePackage⟩⟩

theorem within_upload {text : String}
    (hq : ∀ p, Package.ofText? text = some p → p.info.name = q) : Within n q l (·.upload text) := by
  cases hp : Package.ofText? text with
  | none =>
      refine ⟨.error (.malformed .shape), fun _ l => l, fun l' _ => ?_, fun _ _ => ⟨0, confined_id⟩⟩
      simp [upload, hp, Except.map]
  | some p =>
      obtain rfl := hq p hp
      refine ⟨.ok p.info, fun _ => storing p.info.name p.info.version
        ⟨p, Digest.sha256 text.toUTF8.toList⟩, fun l' _ => ?_, fun _ _ => ⟨1, confined_storing _ _⟩⟩
      simp [upload, hp, Except.map, storing]

theorem within_install {i : Installation} (hn : i.release = n) (hq : i.package = q) :
    Within n q l (·.install i) := by
  subst hn hq
  refine ⟨(l.install i).map (·.1), fun r l' => l'.push r, fun l' h => ?_, fun r hr => ?_⟩
  · dsimp only [install]
    rw [platforms_of_excerpt h, live_of_excerpt h, stored_of_excerpt h, nextVersion_of_excerpt h]
    cases l.platforms.any (·.name == i.platform) <;> cases (l.live i.release).isOk <;>
      cases l.stored i.package i.packageVersion with
    | error e => rfl
    | ok s =>
        cases hm : Manifest.ofPackage s.package <;>
          simp [bind, Except.bind, pure, Except.pure, Except.map, hm] <;> rfl
  · obtain ⟨⟨r', k⟩, hi, rfl⟩ := Except.map_eq_ok_iff.1 hr
    obtain ⟨-, -, s, m, -, -, rfl, -⟩ := install_eq_ok_iff.1 hi
    exact ⟨0, confined_push rfl⟩

/-- A release takes the place of the one that is running. -/
theorem confined_replace {r : Release} (hr : r.name = n) (d : String) :
    Confined n q 0 fun l => (l.retire n d).push r :=
  (confined_push hr).comp (confined_retire d)

theorem within_upgrade {u : Upgrade} (hn : u.release = n) (hq : u.package = q) :
    Within n q l (·.upgrade u) := by
  subst hn hq
  refine ⟨(l.upgrade u).map (·.1),
    fun r l' => (l'.retire u.release (superseded (l.nextVersion u.release))).push r,
    fun l' h => ?_, fun r hr => ?_⟩
  · dsimp only [upgrade]
    rw [live_of_excerpt h, stored_of_excerpt h, nextVersion_of_excerpt h]
    cases l.live u.release with
    | error e => rfl
    | ok previous =>
        cases l.stored u.package u.packageVersion with
        | error e => rfl
        | ok s =>
            cases hm : Manifest.ofPackage s.package <;>
              simp [bind, Except.bind, pure, Except.pure, Except.map, hm]
  · obtain ⟨⟨r', k⟩, hu, rfl⟩ := Except.map_eq_ok_iff.1 hr
    obtain ⟨previous, s, m, -, -, -, rfl, -⟩ := upgrade_eq_ok_iff.1 hu
    exact ⟨0, confined_replace (r := l.replaced u previous s.package m) rfl _⟩

theorem within_rollback {version : Nat} (hn : ∀ r ∈ l.history n, r.name = n) :
    Within n q l (·.rollback n version) := by
  cases hlatest : l.latest n with
  | error e =>
      refine ⟨.error e, fun _ l => l, fun l' h => ?_, fun _ _ => ⟨0, confined_id⟩⟩
      dsimp only [rollback]
      rw [latest_of_excerpt h, hlatest]
      rfl
  | ok latest =>
      refine ⟨(l.rollback n version).map (·.1),
        fun r l' => (l'.retire n (superseded (latest.version + 1))).push r, fun l' h => ?_,
        fun r hr => ?_⟩
      · dsimp only [rollback]
        rw [latest_of_excerpt h, history_of_excerpt h, hlatest]
        cases hr : (l.history n).find?
          (·.version == if version = 0 then latest.version - 1 else version) with
        | none =>
            simp only [bind, Except.bind, hr]
            rfl
        | some r => simp [bind, Except.bind, pure, Except.pure, Except.map, hr]
      · obtain ⟨⟨r', k⟩, hrolled, rfl⟩ := Except.map_eq_ok_iff.1 hr
        obtain ⟨latest', target, -, htarget, rfl, -⟩ := rollback_eq_ok_iff.1 hrolled
        have hname : (restored latest' version target).name = n :=
          hn target (List.mem_of_find?_eq_some htarget)
        exact ⟨0, confined_replace hname _⟩

theorem within_delete : Within n q l (·.delete n) := by
  refine ⟨(l.delete n).map (·.1),
    fun _ l' => { l'.retire n "Delete complete" with reported := l'.reported.erase n },
    fun l' h => ?_, fun _ _ => ⟨0, ?_⟩⟩
  · dsimp only [delete]
    rw [live_of_excerpt h]
    cases l.live n <;> rfl
  · have hreported : ∀ l' : Ledger, (l'.retire n "Delete complete").reported = l'.reported :=
      fun l' => by rcases retire_eq (n := n) l' "Delete complete" with hl | ⟨rs, hl⟩ <;> rw [hl]
    have h := confined_silence.comp (confined_retire (n := n) (q := q) "Delete complete")
    simpa only [hreported] using h

end StreamPipeline.Ledger
