import StreamPipeline.Proofs.Service.Deployment

/-!
# Releases without a definition

A deletion undeploys a pipeline where what its stages report says that it is not undeployed. A
running release whose stages all report nothing known, or all that they are undeployed, is thereby
taken for none: the deletion forgets the definition and leaves the release running
(`Content.Blind`).

`orphaned_iff_blind_deletion` says that this is the only way for a release to be left behind, and
that only a new definition of the same name makes up for it.
-/

namespace StreamPipeline

/-- A release is running under a name without a definition. -/
def Content.Orphaned (k : Content) (name : String) : Prop :=
  k.ledger.IsLive name ∧ k.definitions.get? name = none

namespace Content

variable {k : Content} {n : String} {d : Definition}

theorem orphaned_told (es : List Event) (name : String) :
    (k.told es).Orphaned name ↔ k.Orphaned name :=
  Iff.rfl

/-- A ledger that runs the same releases but for a name that has a definition. -/
theorem orphaned_keeping {l : Ledger} (hd : k.definitions.get? n = some d)
    (hlive : ∀ name ≠ n, (l.IsLive name ↔ k.ledger.IsLive name)) (name : String) :
    (k.keeping l).Orphaned name ↔ k.Orphaned name := by
  by_cases hn : name = n
  · subst hn
    simp [Orphaned, hd]
  · exact and_congr_left' (hlive name hn)

/-- A definition that follows its release is still one. -/
theorem orphaned_reconciled (hkeyed : k.Keyed) (hd : k.definitions.get? n = some d) (m : Manifest)
    (name : String) : (k.reconciled n m).Orphaned name ↔ k.Orphaned name := by
  rw [Orphaned, Orphaned, ledger_reconciled, hkeyed.definitions_reconciled hd,
    StringMap.get?_insert]
  by_cases hn : name = n
  · simp [hn, hd]
  · simp [hn]

theorem orphaned_forgetting (name : String) : (k.forgetting n).Orphaned name ↔
    k.ledger.IsLive name ∧ (name = n ∨ k.definitions.get? name = none) := by
  rw [Orphaned, ledger_forgetting, definitions_forgetting, StringMap.get?_erase]
  by_cases hn : name = n <;> simp [hn]

end Content

namespace Transition

variable {c : Configuration} {registry : Registry} {k k' : Content} {op : Operation}
  {r : Except Failure Unit}

/-- What neither creates nor deletes leaves no release behind and makes up for none. -/
theorem orphaned_kept (t : Transition c registry k op r k') (hkeyed : k.Keyed)
    (horderly : k.ledger.Orderly) (hcreate : ∀ d, op ≠ .create d) (hdelete : ∀ n, op ≠ .delete n)
    (name : String) : k'.Orphaned name ↔ k.Orphaned name := by
  have hensured : ∀ {l p} name, k.ledger.ensure p = .ok ((), l) →
      (l.IsLive name ↔ k.ledger.IsLive name) :=
    fun name h => Ledger.isLive_congr (Ledger.history_ensure h name)
  cases t with
  | refused | deployRefused | idle => exact Iff.rfl
  | created d => exact absurd rfl (hcreate d)
  | forgotten n | deleted n => exact absurd rfl (hdelete n)
  | deployFailed n p d e requests package l hd hr hready hi =>
      exact Content.orphaned_keeping hd (fun name _ => hensured name hready.ensured) name
  | upgradeFailed n p o d e package values l hd hready hu =>
      exact Content.orphaned_keeping hd (fun name _ => hensured name hready.ensured) name
  | deployed n p d requests package l l' r ids hd hr hready hi =>
      -- the new release runs under the name of the definition, which is the name asked for
      refine Content.orphaned_keeping hd (fun name hne => ?_) name
      refine (Ledger.isLive_install hi).trans ?_
      simpa [Package.installation, hkeyed n d hd, hne] using hensured name hready.ensured
  | upgraded n p o d package values l l' r hd hready hu =>
      rw [Content.orphaned_told, Content.orphaned_reconciled (k := k.keeping l') hkeyed hd]
      refine Content.orphaned_keeping hd (fun name _ => ?_) name
      exact (Ledger.isLive_upgrade hu).trans (hensured name hready.ensured)
  | rolledBack n version d l r hd hr =>
      rw [Content.orphaned_told, Content.orphaned_reconciled (k := k.keeping l) hkeyed hd]
      refine Content.orphaned_keeping hd (fun name hne => ?_) name
      simpa [hne] using Ledger.isLive_rollback horderly hr (n := name)
  | undeployed n d l r hd hu =>
      rw [Content.orphaned_told]
      refine Content.orphaned_keeping hd (fun name hne => ?_) name
      simpa [hne] using Ledger.isLive_uninstall hu (n := name)

/-- A transition leaves a release behind by a blind deletion; a release that was left behind stays
so unless it is given a definition. -/
theorem orphaned_iff (t : Transition c registry k op r k') (hkeyed : k.Keyed)
    (horderly : k.ledger.Orderly) (name : String) :
    k'.Orphaned name ↔
      (k.Orphaned name ∧ ∀ d, op = .create d → r = .ok () → d.name ≠ name) ∨
        op = .delete name ∧ r = .ok () ∧ k.Blind name := by
  cases op with
  | create d =>
      cases t with
      | refused _ e h => simp
      | created _ h =>
          simp only [Content.Orphaned, StringMap.get?_insert]
          by_cases hn : name = d.name
          · simp [hn]
          · simp [hn, Ne.symm hn]
  | delete n =>
      cases t with
      | refused _ e h => simp
      | forgotten _ d hd hs =>
          -- what is forgotten unseen runs exactly if the deletion was blind
          rw [Content.orphaned_forgetting, Content.blind_iff, Content.Orphaned]
          by_cases hn : name = n
          · simp [hn, hd, hs]
          · simp [hn, Ne.symm hn]
      | deleted _ d s l r hd hs hne hu =>
          rw [Content.orphaned_forgetting, Content.blind_iff, Content.Orphaned]
          by_cases hn : name = n
          · simp [hn, hd, hs, hne, Ledger.isLive_uninstall hu]
          · simp [hn, Ne.symm hn, Ledger.isLive_uninstall hu]
  | deploy | undeploy | update | rollback =>
      simpa using t.orphaned_kept hkeyed horderly (by simp) (by simp) name

/-- A deletion leaves its release running exactly if it was blind. -/
theorem isLive_after_deletion {name : String}
    (t : Transition c registry k (.delete name) (.ok ()) k') :
    k'.ledger.IsLive name ↔ k.Blind name := by
  rw [Content.blind_iff]
  cases t with
  | forgotten _ d hd hs => simp [hs]
  | deleted _ d s l r hd hs hne hu => simp [hs, hne, Ledger.isLive_uninstall hu]

end Transition

/-- Where stages start from a state in which nothing seems to run, every pipeline that can be
deployed can be deleted at once, blindly. -/
theorem World.exists_blind_deletion (platforms : List Platform) {initial : State}
    (hinitial : initial = .unknown ∨ initial = .undeployed) {c : Configuration}
    {registry : Registry} {d : Definition} {requests : List Request} {p : Properties}
    {package : Package} (poller : Poller)
    (hplatform : platforms.any (·.name == p.platform?.getD c.platform) = true)
    (hrequests : Request.build registry d p = .ok requests)
    (hpacked : c.packager.package d requests p = .ok package) :
    ∃ w w', Reaches (fresh platforms initial) w ∧
      w.Performs c poller registry (.delete d.name) (.ok ()) w' ∧ w.content.Blind d.name := by
  obtain ⟨w, t, hd, hup, ⟨r, hr⟩, hreports⟩ :=
    exists_deployed platforms initial poller hplatform hrequests hpacked
  have hblind : w.content.Blind d.name := by
    refine ⟨?_, r, hr, hinitial.imp (fun h e _ => ?_) fun h e _ => ?_⟩
    · rw [content, hup]
      rfl
    · exact (hreports e.label).trans h
    · exact (hreports e.label).trans h
  obtain ⟨⟨r, w', hop⟩, honly⟩ :=
    (t.settled (settled_fresh platforms initial)).performs c poller registry (.delete d.name)
  refine ⟨w, w', t, ?_, hblind⟩
  have hseen := (Content.blind_iff.1 hblind).2
  have ht := (honly r w' hop).2
  generalize w'.content = k' at ht
  cases r with
  | ok u => exact hop
  | error e =>
      cases ht with
      | refused _ _ h =>
          rcases h with h | ⟨e, he⟩
          · cases hd.symm.trans h
          · cases hseen.symm.trans he

/-- On a run without a blind deletion no release is left behind. -/
theorem World.Run.not_orphaned {platforms : List Platform} {initial : State} {w : World}
    (t : Run (fun k op => ∀ name, op = .delete name → ¬ k.Blind name) (fresh platforms initial) w) :
    ∀ name, ¬ w.content.Orphaned name := by
  have h₀ : ∀ name, ¬ (fresh platforms initial).content.Orphaned name := by
    rintro name ⟨⟨r, hr⟩, -⟩
    cases hr
  -- each step needs orderly histories and definitions that are found under their own names
  refine (t.invariant
    (I := fun k => (∀ name, ¬ k.Orphaned name) ∧ k.Keyed ∧ k.ledger.Orderly)
    (settled_fresh platforms initial) ⟨h₀, (fun _ _ h => nomatch h), fun _ => .nil⟩
    (fun c registry k op r k' ⟨hk, hkeyed, horderly⟩ hsighted ht => ⟨fun name h => ?_,
      ht.keyed hkeyed, horderly.reaches ht.reaches⟩)
    (fun k name label s hk => hk) (fun k names hk => hk)).1
  rcases (ht.orphaned_iff hkeyed horderly name).1 h with ⟨h, -⟩ | ⟨hop, -, hblind⟩
  · exact hk name h
  · exact hsighted name hop hblind

/-- **Only blind deletions leave a running release behind.**  From a world in which nothing has
happened yet:

* on every run without a blind deletion, each name with a running release has a definition;
* on every run at all, an operation leaves a release behind under a name exactly if it is a
  deletion of that name that was blind, and what was left behind before stays so unless a definition
  of that name is created;
* after a deletion that succeeds there is a running release of that name exactly if the deletion
  was blind. -/
theorem World.orphaned_iff_blind_deletion (platforms : List Platform) (initial : State) :
    (∀ w, Run (fun k op => ∀ name, op = .delete name → ¬ k.Blind name) (fresh platforms initial) w →
      ∀ name, w.ledger.IsLive name → ∃ d, w.definitions.get? name = some d) ∧
    ∀ w, Reaches (fresh platforms initial) w → ∀ c poller registry op r w',
      w.Performs c poller registry op r w' → ∀ name,
        (w'.content.Orphaned name ↔
          (w.content.Orphaned name ∧ ∀ d, op = .create d → r = .ok () → d.name ≠ name) ∨
            op = .delete name ∧ r = .ok () ∧ w.content.Blind name) ∧
        (op = .delete name → r = .ok () → (w'.ledger.IsLive name ↔ w.content.Blind name)) := by
  refine ⟨fun w t name hlive => ?_, fun w t c poller registry op r w' hop name => ?_⟩
  · cases hd : w.definitions.get? name with
    | some d => exact ⟨d, rfl⟩
    | none => exact absurd ⟨hlive, hd⟩ (t.not_orphaned name)
  · have ht := ((t.settled (settled_fresh platforms initial)).performs c poller registry op).2
      r w' hop |>.2
    refine ⟨ht.orphaned_iff t.keyed t.orderly name, ?_⟩
    rintro rfl rfl
    exact ht.isLive_after_deletion

/-- A pipeline whose stages report nothing, deleted after it was deployed. -/
theorem World.orphaned_after_blind_deletion :
    ∃ w w', Reaches (fresh [⟨"default", "local", "In-process platform"⟩] .unknown) w ∧
      w.Performs { slots := 4 } ⟨4, ⟨10000000000⟩⟩ Samples.registry (.delete "ticktock") (.ok ())
        w' ∧
      w'.content.Orphaned "ticktock" := by
  obtain ⟨requests, package, hrequests, hpackage⟩ := Samples.exists_package
  obtain ⟨w, w', t, hop, hblind⟩ := exists_blind_deletion
    [⟨"default", "local", "In-process platform"⟩] (.inl rfl) (c := { slots := 4 })
    ⟨4, ⟨10000000000⟩⟩ (by decide) hrequests hpackage
  refine ⟨w, w', t, hop, ?_⟩
  exact ((orphaned_iff_blind_deletion [⟨"default", "local", "In-process platform"⟩] .unknown).2
    w t _ _ _ _ _ w' hop "ticktock").1.2 (.inr ⟨rfl, rfl, hblind⟩)

/-- Not every running release has a definition. -/
theorem World.not_defined_of_live :
    ¬ ∀ w, Reaches (fresh [⟨"default", "local", "In-process platform"⟩] .unknown) w →
      ∀ name, w.ledger.IsLive name → ∃ d, w.definitions.get? name = some d := by
  intro h
  obtain ⟨requests, package, hrequests, hpackage⟩ := Samples.exists_package
  obtain ⟨w, w', t, hop, hblind⟩ := exists_blind_deletion
    [⟨"default", "local", "In-process platform"⟩] (.inl rfl) (c := { slots := 4 })
    ⟨4, ⟨10000000000⟩⟩ (by decide) hrequests hpackage
  have ht := ((t.settled (settled_fresh _ _)).performs _ _ _ _).2 _ w' hop |>.2
  obtain ⟨hlive, hundefined⟩ :=
    (ht.orphaned_iff t.keyed t.orderly "ticktock").2 (.inr ⟨rfl, rfl, hblind⟩)
  obtain ⟨d', hd'⟩ := h w' (.operation t _ _ _ _ _ trivial hop) "ticktock" hlive
  cases hundefined.symm.trans hd'

end StreamPipeline
