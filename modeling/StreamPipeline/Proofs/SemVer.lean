import StreamPipeline.Proofs.SemVer.Written
import StreamPipeline.Release.Package

/-!
# The next patch release

The normal form of a package version is accepted as it is (`checkVersion_of_checkVersion`). The
version behind a package version is in normal form and can be read again (`parse_nextVersion`). It
comes after that version, and what comes after it comes after that version too
(`VersionPrecedes.of_next`).
-/

namespace StreamPipeline

namespace SemVer

/-! ### The next version -/

theorem nextPatch_eq_some_iff {v w : SemVer} : v.nextPatch = some w ↔
    v.patch + 1 < bound ∧ w = { v with patch := v.patch + 1, pre := [], build := [] } := by
  unfold nextPatch
  split
  · simp [*, eq_comm]
  · simp [*]

/-- The next patch release can be read. -/
theorem Readable.nextPatch {v w : SemVer} (h : v.Readable) (hw : v.nextPatch = some w) :
    w.Readable := by
  obtain ⟨hpatch, rfl⟩ := nextPatch_eq_some_iff.1 hw
  exact ⟨h.major_lt, h.minor_lt, hpatch, .inl rfl, .inl rfl⟩

/-! ### Precedence -/

theorem not_identifierPrecedes_self (a : List Char) : identifierPrecedes a a = false := by
  unfold identifierPrecedes
  cases isNumeric a <;> simp

theorem not_identifiersPrecede_self (as : List (List Char)) : identifiersPrecede as as = false := by
  induction as with
  | nil => rfl
  | cons a as ih => simp [identifiersPrecede, not_identifierPrecedes_self, ih]

theorem not_prePrecedes_self (a : List (List Char)) : prePrecedes a a = false := by
  cases a with
  | nil => rfl
  | cons a as => exact not_identifiersPrecede_self (a :: as)

/-- No version precedes itself. -/
theorem not_precedes_self (v : SemVer) : ¬ v.Precedes v := by
  simp [Precedes, not_prePrecedes_self]

/-- What the next patch release precedes, the present one precedes. -/
theorem Precedes.of_nextPatch {v w x : SemVer} (h : v.nextPatch = some w) (hx : w.Precedes x) :
    v.Precedes x := by
  obtain ⟨-, rfl⟩ := nextPatch_eq_some_iff.1 h
  simp only [Precedes] at hx ⊢
  omega

/-- What precedes a version precedes its next patch release. -/
theorem Precedes.nextPatch {v w x : SemVer} (h : v.Precedes w) (hx : w.nextPatch = some x) :
    v.Precedes x := by
  obtain ⟨-, rfl⟩ := nextPatch_eq_some_iff.1 hx
  simp only [Precedes] at h ⊢
  omega

end SemVer

/-! ### Package versions -/

theorem checkVersion_eq_ok_iff {pipeline version normal : String} :
    checkVersion pipeline version = .ok normal ↔
      ∃ v, SemVer.parse (Text.trim version) = .ok v ∧ v.render = normal := by
  unfold checkVersion
  cases SemVer.parse (Text.trim version) <;> simp

/-- A version that can be read is written in its normal form. -/
theorem checkVersion_render {v : SemVer} (h : v.Readable) (pipeline : String) :
    checkVersion pipeline v.render = .ok v.render :=
  checkVersion_eq_ok_iff.2 ⟨v, by rw [SemVer.trim_render h, SemVer.parse_render h], rfl⟩

/-- The normal form of a package version is accepted as it is. -/
theorem checkVersion_of_checkVersion {pipeline version normal : String}
    (h : checkVersion pipeline version = .ok normal) :
    checkVersion pipeline normal = .ok normal := by
  obtain ⟨v, hv, rfl⟩ := checkVersion_eq_ok_iff.1 h
  exact checkVersion_render (SemVer.readable_of_parse hv) pipeline

theorem nextVersion_eq_ok_iff {pipeline version next : String} :
    nextVersion pipeline version = .ok next ↔
      ∃ v w, SemVer.parse (Text.trim version) = .ok v ∧ v.nextPatch = some w ∧ w.render = next := by
  unfold nextVersion
  cases SemVer.parse (Text.trim version) with
  | error fault => simp
  | ok v => cases h : v.nextPatch <;> simp [h]

/-- What has no normal form has no next version, for the same reason; the last patch number is
another one. -/
theorem nextVersion_refused_iff {pipeline version : String} {f : Failure} :
    nextVersion pipeline version = .error f ∧ f ≠ .broken .outOfRange ↔
      checkVersion pipeline version = .error f := by
  unfold nextVersion checkVersion
  cases SemVer.parse (Text.trim version) with
  | error fault => simpa using fun h => by simp [← h]
  | ok v =>
      dsimp only
      cases v.nextPatch <;> simp +contextual [eq_comm]

/-- The version behind a package version is read as the next patch release. -/
theorem parse_nextVersion {pipeline version next : String}
    (h : nextVersion pipeline version = .ok next) :
    ∃ v w, SemVer.parse (Text.trim version) = .ok v ∧ v.nextPatch = some w ∧
      SemVer.parse (Text.trim next) = .ok w := by
  obtain ⟨v, w, hv, hw, rfl⟩ := nextVersion_eq_ok_iff.1 h
  have hreadable := (SemVer.readable_of_parse hv).nextPatch hw
  exact ⟨v, w, hv, hw, by rw [SemVer.trim_render hreadable, SemVer.parse_render hreadable]⟩

/-- One package version is released before another, where both can be read. -/
def VersionPrecedes (version other : String) : Prop :=
  ∃ v w, SemVer.parse (Text.trim version) = .ok v ∧ SemVer.parse (Text.trim other) = .ok w ∧
    v.Precedes w

theorem not_versionPrecedes_self (version : String) : ¬ VersionPrecedes version version := by
  rintro ⟨v, w, hv, hw, h⟩
  cases hv.symm.trans hw
  exact SemVer.not_precedes_self v h

/-- The version behind a package version comes after it. -/
theorem versionPrecedes_next {pipeline version next : String}
    (h : nextVersion pipeline version = .ok next) : VersionPrecedes version next :=
  let ⟨v, w, hv, hw, hnext⟩ := parse_nextVersion h
  ⟨v, w, hv, hnext, SemVer.precedes_nextPatch hw⟩

/-- What comes after the version behind a package version comes after that one. -/
theorem VersionPrecedes.of_next {pipeline version next other : String}
    (h : nextVersion pipeline version = .ok next) (hother : VersionPrecedes next other) :
    VersionPrecedes version other := by
  obtain ⟨v, w, hv, hw, hnext⟩ := parse_nextVersion h
  obtain ⟨w', x, hw', hx, hprecedes⟩ := hother
  cases hnext.symm.trans hw'
  exact ⟨v, x, hv, hx, .of_nextPatch hw hprecedes⟩

/-- What comes before a package version comes before the version behind it. -/
theorem VersionPrecedes.next {pipeline version other next : String}
    (hother : VersionPrecedes version other) (h : nextVersion pipeline other = .ok next) :
    VersionPrecedes version next := by
  obtain ⟨v, w, hv, hw, hprecedes⟩ := hother
  obtain ⟨w', x, hw', hx, hnext⟩ := parse_nextVersion h
  cases hw.symm.trans hw'
  exact ⟨v, x, hv, hnext, hprecedes.nextPatch hx⟩

end StreamPipeline
