import StreamPipeline.Proofs.Release.Updated

/-!
# Artifacts that are pinned again and again

An artifact is pinned to a version in two places: for the coordinate of a request when a stage is
deployed, and by an override that is merged into a manifest when it is updated. `Artifact.Pins` is
either of them, `Artifact.Repins` any number of them, in whichever order.

**Both are one function** (`Artifact.pinned_alike`): it changes the end of a locator that ends with
a colon and the version, and nothing else, and of several versions to which an artifact was pinned
only the last one counts.
-/

namespace StreamPipeline

/-- Where a program is found, and its version. -/
structure Artifact where
  locator : String
  version : String

/-- The artifact of a coordinate. -/
def Coordinate.artifact (c : Coordinate) : Artifact := ⟨c.locator, c.version⟩

/-- The artifact that an entry of a manifest runs. -/
def Entry.artifact (e : Entry) : Artifact := ⟨e.spec.resource, e.spec.version⟩

namespace Artifact

variable {a b : Artifact} {version : String} {versions : List String}

/-- An artifact is pinned to a version: for a coordinate, or by an override of the version that is
merged into an entry. -/
inductive Pins : Artifact → String → Artifact → Prop
  | coordinate (c : Coordinate) (version : String) :
      Pins c.artifact version (c.pin version).artifact
  | entry {m : Manifest} {os : Overrides} {i : Nat} {e e₁ : Entry} {o : Override}
      {version : String} (he : m.entries[i]? = some e) (ho : os.get? e.label = some o)
      (hc : o.coordinate = none) (hv : o.version = some version)
      (he₁ : (m.merge os).entries[i]? = some e₁) : Pins e.artifact version e₁.artifact

/-- An artifact is pinned to one version after another, of which the latest is the first. -/
inductive Repins (a : Artifact) : List String → Artifact → Prop
  | refl : Repins a [] a
  | pin {b c : Artifact} {version : String} {versions : List String} (t : Repins a versions b)
      (h : b.Pins version c) : Repins a (version :: versions) c

/-- The artifact under another version. -/
def pinned (a : Artifact) (version : String) : Artifact :=
  ⟨pinLocator a.locator a.version version, version⟩

/-! ### One pin -/

/-- An override of the version, merged into an entry, pins what the entry runs. -/
theorem exists_merged {m : Manifest} {os : Overrides} {i : Nat} {e : Entry} {o : Override}
    (he : m.entries[i]? = some e) (ho : os.get? e.label = some o) (hc : o.coordinate = none)
    (hv : o.version = some version) :
    ∃ e₁, (m.merge os).entries[i]? = some e₁ ∧ e₁.artifact = e.artifact.pinned version := by
  refine ⟨e.updated os, by rw [Manifest.getElem?_merge, he, Option.map_some], ?_⟩
  have habout : os.about e.label = o := by rw [Overrides.about, ho, Option.getD_some]
  rw [Entry.updated, habout, Override.apply, hc, hv]
  rfl

/-- **There is one way to pin an artifact to a version.** -/
theorem pins_iff : a.Pins version b ↔ b = a.pinned version := by
  constructor
  · intro h
    cases h with
    | coordinate c => rfl
    | entry he ho hc hv he₁ =>
        obtain ⟨e₁, he₁', hpinned⟩ := exists_merged he ho hc hv
        obtain rfl := Option.some.inj (he₁.symm.trans he₁')
        exact hpinned
  · rintro rfl
    exact .coordinate ⟨"", "", a.version, a.locator⟩ version

theorem pinned_of_versioned {base : String} (h : a.locator = base ++ ":" ++ a.version) :
    a.pinned version = ⟨base ++ ":" ++ version, version⟩ := by
  rw [pinned, h, pinLocator_append]

theorem pinned_of_ne (h : ∀ base, a.locator ≠ base ++ ":" ++ a.version) :
    a.pinned version = ⟨a.locator, version⟩ := by
  rw [pinned, pinLocator_of_ne h]

/-! ### One pin after another -/

/-- An artifact whose locator ends with its version stays one, under the latest version. -/
theorem Repins.eq {base old : String} (t : Repins ⟨base ++ ":" ++ old, old⟩ versions b) :
    b = ⟨base ++ ":" ++ versions.headD old, versions.headD old⟩ := by
  induction t with
  | refl => rfl
  | pin t h ih =>
      subst ih
      exact (pins_iff.1 h).trans (pinned_of_versioned rfl)

/-- **Pinning is one function**, whichever way it is done.

* An override of the version that is merged into an entry gives it the locator and the version that
  pinning gives a coordinate which has those of the entry.
* Of a locator that ends with a colon and the version just this end is changed, and any other
  locator is left as it is.
* Whatever an artifact is pinned to whose locator ends so, in whichever ways, its locator ends with
  the latest version, and it is what comes of pinning it to that alone. -/
theorem pinned_alike :
    (∀ (c : Coordinate) (m : Manifest) (os : Overrides) (i : Nat) (e : Entry) (o : Override)
      (version : String), m.entries[i]? = some e → os.get? e.label = some o →
      o.coordinate = none → o.version = some version →
      c.locator = e.spec.resource → c.version = e.spec.version →
      ∃ e₁, (m.merge os).entries[i]? = some e₁ ∧ e₁.spec.resource = (c.pin version).locator ∧
        e₁.spec.version = (c.pin version).version) ∧
    (∀ (a b : Artifact) (version : String), a.Pins version b → b.version = version ∧
      (∀ base, a.locator = base ++ ":" ++ a.version → b.locator = base ++ ":" ++ version) ∧
      ((∀ base, a.locator ≠ base ++ ":" ++ a.version) → b.locator = a.locator)) ∧
    ∀ (base old latest : String) (earlier : List String) (b : Artifact),
      Repins ⟨base ++ ":" ++ old, old⟩ (latest :: earlier) b →
        b.locator = base ++ ":" ++ latest ∧ b.version = latest ∧
          ∀ b₁, Pins ⟨base ++ ":" ++ old, old⟩ latest b₁ ↔ b₁ = b := by
  refine ⟨fun c m os i e o version he ho hc hv hlocator hversion => ?_,
    fun a b version h => ?_, fun base old latest earlier b t => ?_⟩
  · obtain ⟨e₁, he₁, hpinned⟩ := exists_merged he ho hc hv
    have hsame : c.artifact = e.artifact := by
      rw [Coordinate.artifact, hlocator, hversion]
      rfl
    have hpin : e₁.artifact = (c.pin version).artifact :=
      hpinned.trans (hsame ▸ pins_iff.1 (.coordinate c version)).symm
    exact ⟨e₁, he₁, congrArg Artifact.locator hpin, congrArg Artifact.version hpin⟩
  · obtain rfl := pins_iff.1 h
    exact ⟨rfl, fun base hbase => by rw [pinned_of_versioned hbase],
      fun hne => by rw [pinned_of_ne hne]⟩
  · obtain rfl := t.eq
    refine ⟨rfl, rfl, fun b₁ => ?_⟩
    rw [pins_iff, pinned_of_versioned rfl]
    rfl

/-- An artifact whose version has a colon in it, and whose locator has that version twice. -/
def mirrored : Coordinate := ⟨"log", "maven", "1:2", "mirror:1:2" ++ ":" ++ "1:2"⟩

/-- A stage that runs this artifact, pinned to a version without any text. -/
def blank : Entry :=
  ⟨"log", "log", .sink, { resource := (mirrored.pin "").locator, version := "" }⟩

/-- The artifact is pinned to no text for a coordinate, and then to another version by an override:
the end of its locator is changed, and changed again. -/
theorem pinned_alike_twice : ∃ b : Artifact,
    Repins mirrored.artifact ["3.0", ""] b ∧ b.locator = "mirror:1:2:3.0" ∧ b.version = "3.0" ∧
      Pins mirrored.artifact "3.0" b := by
  have ho : (StringMap.insert ∅ "log" { version := some "3.0" } : Overrides).get? blank.label =
      some { version := some "3.0" } := StringMap.get?_insert_self ..
  obtain ⟨e₁, he₁, -, -⟩ :=
    pinned_alike.1 (mirrored.pin "") ⟨[blank]⟩ _ 0 blank _ "3.0" rfl ho rfl rfl rfl rfl
  have t : Repins mirrored.artifact ["3.0", ""] e₁.artifact :=
    (Repins.refl.pin (.coordinate mirrored "")).pin
      (.entry (m := ⟨[blank]⟩) (i := 0) rfl ho rfl rfl he₁)
  obtain ⟨hlocator, hversion, halone⟩ := pinned_alike.2.2 "mirror:1:2" "1:2" "3.0" [""] _ t
  exact ⟨e₁.artifact, t, hlocator.trans (by decide), hversion, (halone _).2 rfl⟩

end Artifact

end StreamPipeline
