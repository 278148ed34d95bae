import Mathlib.Data.List.Induction
import StreamPipeline.Proofs.Release.Stored

/-!
# What has been uploaded

A ledger does not keep the texts that are uploaded, only the package that was read from each and its
digest. After any commands each stored package was read from an uploaded text that has its digest,
and is found under its own name and version (`filed_after`).

So a package that is made ready is found with its digest (`exists_digest_of_ensure`), and what is
found is that package itself, whether it was uploaded or was there before, unless another text with
the same name, version and digest had been uploaded (`Filed.trusts`, `Trusts.stored?_ensure`).
-/

namespace StreamPipeline.Ledger

/-! ### Runs by their commands -/

/-- The ledger after commands, one after the other. -/
def after (l : Ledger) (cs : List Command) : Ledger := cs.foldl (fun l c => (l.perform c).2) l

theorem after_append (l : Ledger) (cs : List Command) (c : Command) :
    l.after (cs ++ [c]) = ((l.after cs).perform c).2 :=
  List.foldl_append ..

/-- A ledger is reached by a list of commands. -/
theorem reaches_iff {l k : Ledger} : Reaches l k ↔ ∃ cs, k = l.after cs := by
  constructor
  · intro t
    induction t with
    | refl => exact ⟨[], rfl⟩
    | step _ c ih =>
        obtain ⟨cs, rfl⟩ := ih
        exact ⟨cs ++ [c], (after_append l cs c).symm⟩
  · rintro ⟨cs, rfl⟩
    induction cs using List.reverseRecOn with
    | nil => exact .refl
    | append_singleton cs c ih => exact after_append l cs c ▸ .step ih c

/-! ### Stored packages -/

/-- A package is stored as what was read from an uploaded text, under its own name and version. -/
structure Uploaded (cs : List Command) (name version : String) (s : StoredPackage) : Prop where
  name_eq : s.package.info.name = name
  version_eq : s.package.info.version = version
  read : ∃ text, Command.upload text ∈ cs ∧ Package.ofText? text = some s.package ∧
    Digest.sha256 text.toUTF8.toList = s.digest

/-- Every stored package was uploaded by one of the commands. -/
def Filed (cs : List Command) (l : Ledger) : Prop :=
  ∀ name version s, l.stored? name version = some s → Uploaded cs name version s

variable {cs : List Command} {l k : Ledger} {p : Package}

theorem Uploaded.mono {cs cs' : List Command} (hcs : cs ⊆ cs') {name version : String}
    {s : StoredPackage} (h : Uploaded cs name version s) : Uploaded cs' name version s :=
  let ⟨text, ht, hread⟩ := h.read
  ⟨h.name_eq, h.version_eq, text, hcs ht, hread⟩

theorem Filed.mono {cs cs' : List Command} (hcs : cs ⊆ cs') (h : Filed cs l) : Filed cs' l :=
  fun name version s hs => (h name version s hs).mono hcs

theorem stored?_of_packages (h : k.packages = l.packages) (name version : String) :
    k.stored? name version = l.stored? name version := by
  rw [stored?, stored?, h]

theorem Filed.of_packages (h : Filed cs l) (hk : k.packages = l.packages) : Filed cs k :=
  fun name version s hs => h name version s (stored?_of_packages hk name version ▸ hs)

/-- What stores a package is an upload of it. -/
theorem filed_perform (h : Filed cs l) (c : Command) : Filed (cs ++ [c]) (l.perform c).2 := by
  have h := h.mono (List.subset_append_left cs [c])
  rcases perform_cases l c with ⟨e, -, hc⟩ | ⟨r, k, ha, hc⟩
  · rw [hc]
    exact h
  rw [hc]
  cases c with
  | upload text =>
      obtain ⟨⟨info, k'⟩, hu, hk⟩ := Except.map_eq_ok_iff.1 ha
      cases hk
      obtain ⟨p, hp, hstored⟩ := stored?_of_upload hu
      intro name version s hs
      rw [hstored] at hs
      split at hs
      · rename_i hat
        cases hs
        exact ⟨hat.1.symm, hat.2.symm, text, by simp, hp, rfl⟩
      · exact h name version s hs
  | deletePackage name =>
      cases ha
      exact fun n version s hs => h n version s (stored?_of_deletePackage hs)
  | setState name label s => cases ha; exact h.of_packages rfl
  | install i =>
      obtain ⟨⟨r', k'⟩, hi, hk⟩ := Except.map_eq_ok_iff.1 ha
      cases hk
      obtain ⟨-, -, s, m, -, -, -, rfl⟩ := install_eq_ok_iff.1 hi
      exact h.of_packages rfl
  | upgrade u =>
      obtain ⟨⟨r', k'⟩, hu, hk⟩ := Except.map_eq_ok_iff.1 ha
      cases hk
      obtain ⟨previous, s, m, -, -, -, -, rfl⟩ := upgrade_eq_ok_iff.1 hu
      exact h.of_packages (packages_retire l _ _)
  | rollback name version =>
      obtain ⟨⟨r', k'⟩, hr, hk⟩ := Except.map_eq_ok_iff.1 ha
      cases hk
      obtain ⟨latest, target, -, -, -, rfl⟩ := rollback_eq_ok_iff.1 hr
      exact h.of_packages (packages_retire l _ _)
  | delete name =>
      obtain ⟨⟨r', k'⟩, hd, hk⟩ := Except.map_eq_ok_iff.1 ha
      cases hk
      obtain ⟨live, -, -, rfl⟩ := delete_eq_ok_iff.1 hd
      exact h.of_packages (packages_retire l _ _)

/-- **After any commands, all that is stored was uploaded by one of them.** -/
theorem filed_after (platforms : List Platform) (initial : State) (cs : List Command) :
    Filed cs (after { platforms, initial } cs) := by
  induction cs using List.reverseRecOn with
  | nil =>
      intro name version s hs
      cases hs
  | append_singleton cs c ih => exact after_append _ cs c ▸ filed_perform ih c

/-- Whatever commands there were, a stored package carries the name and version under which it is
found. -/
theorem Reaches.stored_info {platforms : List Platform} {initial : State}
    (t : Reaches { platforms, initial } l) {name version : String} {s : StoredPackage}
    (hs : l.stored? name version = some s) :
    s.package.info.name = name ∧ s.package.info.version = version := by
  obtain ⟨cs, rfl⟩ := reaches_iff.1 t
  have h := filed_after platforms initial cs name version s hs
  exact ⟨h.name_eq, h.version_eq⟩

/-! ### Packages made ready -/

/-- A package that was made ready is found with its digest. -/
theorem exists_digest_of_ensure (hp : p.Packed) (h : l.ensure p = .ok ((), k)) :
    ∃ s, k.stored? p.info.name p.info.version = some s ∧ s.digest = p.digest := by
  rcases ensure_cases h with ⟨rfl, hs⟩ | ⟨info, hu⟩
  · exact hs
  · exact ⟨_, (stored?_upload hu hp _ _).trans (if_pos ⟨rfl, rfl⟩), rfl⟩

/-- Making a package ready touches no other package. -/
theorem stored?_ensure_of_ne (hp : p.Packed) (h : l.ensure p = .ok ((), k)) {name version : String}
    (hne : ¬ (name = p.info.name ∧ version = p.info.version)) :
    k.stored? name version = l.stored? name version := by
  rcases ensure_cases h with ⟨rfl, -⟩ | ⟨info, hu⟩
  · rfl
  · exact (stored?_upload hu hp _ _).trans (if_neg hne)

/-- No other text that was uploaded as a package of this name and version has its digest. -/
def Unmistaken (cs : List Command) (p : Package) : Prop :=
  ∀ text q, Command.upload text ∈ cs → Package.ofText? text = some q →
    q.info.name = p.info.name → q.info.version = p.info.version →
    Digest.sha256 text.toUTF8.toList = p.digest → text = p.text

/-- Nothing is mistaken for a package where only another version was uploaded. -/
theorem unmistaken_of_ne {q : Package} (hp : p.Packed)
    (huploads : ∀ text, .upload text ∈ cs → text = p.text)
    (hne : p.info.version ≠ q.info.version) : Unmistaken cs q := by
  intro text p' ht hread _ hversion _
  obtain rfl := huploads text ht
  cases hp.ofText?_text.symm.trans hread
  exact absurd hversion hne

/-- What is stored in the place of a package with its digest is that package. -/
def Trusts (l : Ledger) (p : Package) : Prop :=
  ∀ s, l.stored? p.info.name p.info.version = some s → s.digest = p.digest → s.package = p

/-- What was uploaded is trusted, unless it is mistaken for another text. -/
theorem Filed.trusts (hl : Filed cs l) (hp : p.Packed) (hcs : Unmistaken cs p) : l.Trusts p := by
  intro s hs hdigest
  obtain ⟨hname, hversion, text, ht, hread, hsha⟩ := hl _ _ s hs
  have htext : text = p.text := hcs text _ ht hread hname hversion (hsha.trans hdigest)
  rw [htext, hp.ofText?_text] at hread
  exact (Option.some.inj hread).symm

/-- **What is found is the package that was made ready**, whether or not its upload was left out. -/
theorem Trusts.stored?_ensure (hl : l.Trusts p) (hp : p.Packed) (h : l.ensure p = .ok ((), k)) :
    k.stored? p.info.name p.info.version = some ⟨p, p.digest⟩ := by
  rcases ensure_cases h with ⟨rfl, s, hs, hdigest⟩ | ⟨info, hu⟩
  · have hfound : s = ⟨p, p.digest⟩ := by
      obtain ⟨q, digest⟩ := s
      exact congrArg₂ StoredPackage.mk (hl _ hs hdigest) hdigest
    rw [hs, hfound]
  · exact (stored?_upload hu hp _ _).trans (if_pos ⟨rfl, rfl⟩)

end StreamPipeline.Ledger
