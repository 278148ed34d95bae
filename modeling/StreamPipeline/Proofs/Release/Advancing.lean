import StreamPipeline.Proofs.Release.Versions

/-!
# Package versions that advance

An upgrade that is given no package version falls back to the next patch release of the version that
is running. `World.Upgrading` is a run of such upgrades of one name, in whatever company: other
names are released and rolled back, moves fail, stages report.

**Package versions are written in normal form and move forward** (`World.versions_advance`), from
one upgrade to the next and so over any number of them (`Upgrading.rising`).
-/

namespace StreamPipeline

open Lifecycle (Move)

namespace World

variable {platforms : List Platform} {initial : State} {name : String} {w₀ w : World}
  {first : Release} {rs : List Release}

/-- What can become of a world by upgrades of a name that are given no version, among moves that
release nothing under this name; `rs` are the releases of the upgrades, the latest first. -/
inductive Upgrading (name : String) (w₀ : World) : List Release → World → Prop where
  | refl : Upgrading name w₀ [] w₀
  | upgraded {rs : List Release} {w w' : World} (t : Upgrading name w₀ rs w) (c : Configuration)
      (p : Properties) (o : UpgradeOptions) (r : Release) (ho : o.version = none)
      (hp : p.packageVersion? = none)
      (hm : ((Move.upgrade name p o).call c).Gives w (.ok r) w') : Upgrading name w₀ (r :: rs) w'
  | besides {rs : List Release} {w w' : World} (t : Upgrading name w₀ rs w) (c : Configuration)
      (m : Move) (result : Except Failure Release) (hm : (m.call c).Gives w result w')
      (hother : m.name ≠ name ∨ ∃ e, result = .error e) : Upgrading name w₀ rs w'
  | reported {rs : List Release} {w : World} (t : Upgrading name w₀ rs w) (n label : String)
      (s : State) : Upgrading name w₀ rs { w with ledger := w.ledger.setState n label s }
  | disturbed {rs : List Release} {w : World} (t : Upgrading name w₀ rs w) (d : Disturbance) :
      Upgrading name w₀ rs { w with disturbance := d }
  | defined {rs : List Release} {w : World} (t : Upgrading name w₀ rs w) (ds : Definitions) :
      Upgrading name w₀ rs { w with definitions := ds }

namespace Upgrading

theorem managed (t : Upgrading name w₀ rs w)
    (t₀ : Managed (fun _ _ => True) (fresh platforms initial) w₀) :
    Managed (fun _ _ => True) (fresh platforms initial) w := by
  induction t with
  | refl => exact t₀
  | upgraded _ c p o r _ _ hm ih => exact .moved ih c _ _ trivial hm
  | besides _ c m result hm _ ih => exact .moved ih c m result trivial hm
  | reported _ n label s ih => exact .reported ih n label s
  | disturbed _ d ih => exact .disturbed ih d
  | defined _ ds ih => exact .defined ih ds

end Upgrading

/-- Releases, the latest first, the latest of which is running: the version of each comes after
those of all that were released before it. -/
def Rising (l : Ledger) (name : String) (rs : List Release) : Prop :=
  (∃ current ∈ rs.head?, l.live name = .ok current) ∧
    rs.Pairwise fun later earlier => VersionPrecedes earlier.package.version later.package.version

/-- **One upgrade** that is given no version. -/
theorem Rising.upgraded {k k' : Content} {c : Configuration} {p : Properties} {o : UpgradeOptions}
    {r : Release} (h : Rising k.ledger name rs) (hm : k.Moves c (.upgrade name p o) (.ok r) k')
    (t : Ledger.Reaches { platforms, initial } k.ledger) (ho : o.version = none)
    (hp : p.packageVersion? = none) : Rising k'.ledger name (r :: rs) := by
  obtain ⟨⟨current, hhead, hlive⟩, hrising⟩ := h
  obtain ⟨hadds, hlive', -⟩ := hm.adds (.reaches (fun _ => .nil) t) rfl (by simp)
  cases hadds with
  | upgraded _ _ _ package values l s hready hs _ hinfo =>
      obtain ⟨-, hversion⟩ := hready.release_info t hs hinfo
      have hnext := (hready.falls_back ho hp hlive).2
      rw [← hversion] at hnext
      obtain ⟨earlier, rfl⟩ := List.head?_eq_some_iff.1 hhead
      refine ⟨⟨r, rfl, hlive'⟩, hrising.cons (List.forall_mem_cons.2 ⟨?_, fun q hq => ?_⟩)⟩
      · exact versionPrecedes_next hnext
      · exact (List.rel_of_pairwise_cons hrising hq).next hnext

theorem Rising.of_history {l l' : Ledger} (h : Rising l name rs)
    (hl : l'.history name = l.history name) : Rising l' name rs :=
  h.imp_left fun ⟨current, hhead, hlive⟩ =>
    ⟨current, hhead, (Ledger.live_of_history hl).trans hlive⟩

/-- **Any number of upgrades** that are given no version. -/
theorem Upgrading.rising (t : Upgrading name w₀ rs w)
    (t₀ : Managed (fun _ _ => True) (fresh platforms initial) w₀)
    (hfirst : w₀.ledger.live name = .ok first) : Rising w.ledger name (rs ++ [first]) := by
  induction t with
  | refl => exact ⟨⟨first, rfl, hfirst⟩, List.pairwise_singleton ..⟩
  | @upgraded _ w w' t c p o r ho hp hm ih =>
      have tw := t.managed t₀
      have hmoves := (moves_of_gives (tw.failing_eq rfl) hm).2
      have hk : Rising w.content.ledger name (_ ++ [first]) := ih
      exact hk.upgraded hmoves tw.reaches ho hp
  | @besides _ w w' t c m result hm hother ih =>
      have tw := t.managed t₀
      exact ih.of_history ((moves_of_gives (tw.failing_eq rfl) hm).2.history_eq tw.orderly hother)
  | reported _ n label s ih => exact ih.of_history rfl
  | disturbed _ _ ih => exact ih
  | defined _ _ ih => exact ih

end World

/-- **Package versions move forward.** For any pipeline and text:

* the normal form of a package version is accepted as it is;
* the version behind a text is refused just as its normal form is, with the same failure;
* behind a version whose patch number is not the last one of 64 bits there is one in normal form,
  with the next patch number and neither pre-release nor build part, that comes after it; behind
  the last one there is none, which is no refusal;
* where `name` is upgraded any number of times without being given a version, each release has a
  higher version than all that ran before, up to the one from which the upgrades started. -/
theorem World.versions_advance (platforms : List Platform) (initial : State) (name : String) :
    (∀ pipeline version normal, checkVersion pipeline version = .ok normal →
      checkVersion pipeline normal = .ok normal) ∧
    (∀ pipeline version f, nextVersion pipeline version = .error f ∧ f ≠ .broken .outOfRange ↔
      checkVersion pipeline version = .error f) ∧
    (∀ pipeline version v, SemVer.parse (Text.trim version) = .ok v →
      (v.patch < UInt64.size - 1 → ∃ next w, nextVersion pipeline version = .ok next ∧
        checkVersion pipeline next = .ok next ∧ SemVer.parse next = .ok w ∧
        w = { v with patch := v.patch + 1, pre := [], build := [] } ∧ v.Precedes w) ∧
      (v.patch = UInt64.size - 1 → nextVersion pipeline version = .error (.broken .outOfRange))) ∧
    ∀ w₀ first, Managed (fun _ _ => True) (fresh platforms initial) w₀ →
      w₀.ledger.live name = .ok first → ∀ rs w, Upgrading name w₀ rs w →
      (rs ++ [first]).Pairwise fun later earlier =>
        VersionPrecedes earlier.package.version later.package.version := by
  refine ⟨fun pipeline version normal => checkVersion_of_checkVersion, fun pipeline version f => ?_,
    fun pipeline version v hv => ⟨fun hpatch => ?_, fun hpatch => ?_⟩,
    fun w₀ first t₀ hfirst rs w t => (t.rising t₀ hfirst).2⟩
  · exact nextVersion_refused_iff
  · have hnext : v.nextPatch = some { v with patch := v.patch + 1, pre := [], build := [] } :=
      SemVer.nextPatch_eq_some_iff.2 ⟨Nat.add_lt_of_lt_sub hpatch, rfl⟩
    have hreadable := (SemVer.readable_of_parse hv).nextPatch hnext
    exact ⟨_, _, nextVersion_eq_ok_iff.2 ⟨v, _, hv, hnext, rfl⟩,
      checkVersion_render hreadable pipeline, SemVer.parse_render hreadable, rfl,
      SemVer.precedes_nextPatch hnext⟩
  · have hnone : v.nextPatch = none := by
      simp [SemVer.nextPatch, SemVer.bound, UInt64.size, hpatch]
    simp only [nextVersion, hv, hnone]

/-- The version behind a candidate for a release drops what makes it one, the last patch release has
none behind it, and an upgrade of the pipeline of one stage has a higher version than what ran. -/
theorem World.versions_advance_clock :
    checkVersion "tick" " 1.2.3-rc.1+b7 " = .ok "1.2.3-rc.1+b7" ∧
    checkVersion "tick" "1.2.3-rc.1+b7" = .ok "1.2.3-rc.1+b7" ∧
    (∃ next, nextVersion "tick" "1.2.3-rc.1+b7" = .ok next ∧ checkVersion "tick" next = .ok next) ∧
    (∃ f, checkVersion "tick" "1.2" = .error f ∧ nextVersion "tick" "1.2" = .error f) ∧
    nextVersion "tick" "0.0.18446744073709551615" = .error (.broken .outOfRange) ∧
    ∃ w₁ first w r, Managed (fun _ _ => True) (fresh [⟨"default", "local", ""⟩] .deployed) w₁ ∧
      w₁.ledger.live "tick" = .ok first ∧ Upgrading "tick" w₁ [r] w ∧
      VersionPrecedes first.package.version r.package.version := by
  obtain ⟨hchecked, hrefused, hnext, hrising⟩ :=
    versions_advance [⟨"default", "local", ""⟩] .deployed "tick"
  have hcandidate : checkVersion "tick" " 1.2.3-rc.1+b7 " = .ok "1.2.3-rc.1+b7" := by decide
  refine ⟨hcandidate, hchecked _ _ _ hcandidate, ?_, ?_, ?_, ?_⟩
  · have hparse : SemVer.parse (Text.trim "1.2.3-rc.1+b7") =
        .ok ⟨1, 2, 3, ["rc".toList, "1".toList], ["b7".toList]⟩ := by decide
    obtain ⟨next, w, h, hnormal, -⟩ := (hnext "tick" _ _ hparse).1 (by decide)
    exact ⟨next, h, hnormal⟩
  · have h : checkVersion "tick" "1.2" =
        .error (.invalid "tick" (.version "1.2" (.endsIn .minor))) := by decide
    exact ⟨_, h, ((hrefused _ _ _).2 h).1⟩
  · exact (hnext "tick" _ ⟨0, 0, UInt64.size - 1, [], []⟩ (by decide)).2 rfl
  · obtain ⟨r₁, w₁, r₂, w₂, r₃, w₃, r₄, w₄, g₁, g₂, -⟩ := Samples.exists_clock_run
    have t₁ : Managed (fun _ _ => True) (fresh [⟨"default", "local", ""⟩] .deployed) w₁ :=
      .moved .refl _ (.install ..) _ trivial g₁
    have hlive : w₁.ledger.live "tick" = .ok r₁ :=
      ((ready_fresh _ _).shipped (m := .install _ _ _) g₁ rfl (by simp)).1
    have t₂ : Upgrading "tick" w₁ [r₂] w₂ := .upgraded .refl _ _ _ _ rfl (by decide) g₂
    exact ⟨w₁, r₁, w₂, r₂, t₁, hlive, t₂,
      List.rel_of_pairwise_cons (hrising w₁ r₁ t₁ hlive _ w₂ t₂) (List.mem_singleton_self _)⟩

end StreamPipeline
