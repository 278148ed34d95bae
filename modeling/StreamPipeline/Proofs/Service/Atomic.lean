import StreamPipeline.Proofs.Service.Deployment

/-!
# Operations that fail change nothing

An operation makes a package ready before it asks the ledger for a release, and writes the
definition after that. Between these steps nothing can fail any more where the ledger is stocked:
what has been made ready replaces what is running (`exists_upgrade`), and is installed unless
something is running. So an operation that fails leaves everything as it was
(`unchanged_of_failure`), with one exception: a deployment that does not see the release that is
running may have uploaded its package.
-/

namespace StreamPipeline

namespace Transition

variable {c : Configuration} {registry : Registry} {k k' : Content} {op : Operation}
  {r : Except Failure Unit} {d : Definition} {requests : List Request} {p : Properties}
  {package : Package} {l : Ledger}

/-- What is ready can replace what is running. -/
theorem exists_upgrade (hstocked : k.ledger.Stocked) {name : String} {o : UpgradeOptions}
    {values : Overrides} (hready : k.Upgradable name p o package values l) :
    ∃ r l', l.upgrade (package.upgrade name values o) = .ok (r, l') := by
  obtain ⟨current, hlive, -⟩ := hready.built
  obtain ⟨r, hr⟩ := (Ledger.isLive_congr (Ledger.history_ensure hready.ensured name)).2
    ⟨current, hlive⟩
  exact hstocked.exists_upgrade hready.packed hready.ensured values o hr

/-- A transition that fails keeps definitions and ledger, up to the packages that a deployment over
an unseen release uploads. -/
theorem unchanged (t : Transition c registry k op r k') (hkeyed : k.Keyed)
    (hstocked : k.ledger.Stocked) {e : Failure} (he : r = .error e) :
    k'.definitions = k.definitions ∧
      (k'.ledger = k.ledger ∨ ∃ name p package, op = .deploy name p ∧ k.Blind name ∧
        k.ledger.ensure package = .ok ((), k'.ledger)) := by
  cases t with
  | refused | deployRefused => exact ⟨rfl, .inl rfl⟩
  | deployFailed name p d e requests package l hd hr hready hi =>
      refine ⟨rfl, .inr ⟨name, p, package, rfl, ?_, hready.ensured⟩⟩
      exact hkeyed name d hd ▸ blind_of_install hstocked hready hi
  | upgradeFailed name p o d e package values l hd hready hu =>
      obtain ⟨r, l', hok⟩ := exists_upgrade hstocked hready
      cases hok.symm.trans hu
  | created | deployed | upgraded | rolledBack | idle | undeployed | forgotten | deleted => cases he

end Transition

/-- **An operation that fails changes nothing.**  On every run, with whatever services and releases
of which nothing can be learnt, an operation comes to a result. If that is a failure, all
definitions, releases and reported states are as they were; and so is the whole ledger, packages
included, unless the operation is a deployment of a name whose release is running unseen. -/
theorem World.unchanged_of_failure (platforms : List Platform) (initial : State) {w : World}
    (t : Reaches (fresh platforms initial) w) (c : Configuration) (poller : Poller)
    (registry : Registry) (op : Operation) :
    (∃ r w', w.Performs c poller registry op r w') ∧
    ∀ e w', w.Performs c poller registry op (.error e) w' →
      w'.definitions = w.definitions ∧ w'.ledger.releases = w.ledger.releases ∧
      w'.ledger.reported = w.ledger.reported ∧
      ((∀ name p, op = .deploy name p → ¬ w.content.Blind name) → w'.ledger = w.ledger) := by
  obtain ⟨htotal, honly⟩ :=
    (t.settled (settled_fresh platforms initial)).performs c poller registry op
  refine ⟨htotal, fun e w' h => ?_⟩
  obtain ⟨hdefs, hledger⟩ := (honly _ w' h).2.unchanged t.keyed t.stocked rfl
  refine ⟨hdefs, ?_⟩
  rcases hledger with hsame | ⟨name, p, package, rfl, hblind, hensured⟩
  · exact ⟨congrArg Ledger.releases hsame, congrArg Ledger.reported hsame, fun _ => hsame⟩
  · have hkept := Ledger.ensure_keeps hensured
    exact ⟨(congrArg Ledger.releases hkept :), (congrArg Ledger.reported hkept :),
      fun hsighted => absurd hblind (hsighted name p rfl)⟩

/-- A pipeline whose stages report nothing cannot be deployed once more. -/
theorem World.unchanged_by_second_deployment :
    ∃ w e w', Reaches (fresh [⟨"default", "local", "In-process platform"⟩] .unknown) w ∧
      w.content.Blind "ticktock" ∧
      w.Performs { slots := 4 } ⟨4, ⟨10000000000⟩⟩ Samples.registry (.deploy "ticktock" ∅)
        (.error e) w' ∧
      w'.definitions = w.definitions ∧ w'.ledger.releases = w.ledger.releases ∧
      w'.ledger.reported = w.ledger.reported := by
  obtain ⟨requests, package, hrequests, hpackage⟩ := Samples.exists_package
  obtain ⟨w, t, -, hup, hlive, hreports⟩ := exists_deployed
    [⟨"default", "local", "In-process platform"⟩] .unknown (c := { slots := 4 })
    ⟨4, ⟨10000000000⟩⟩ (by decide) hrequests hpackage
  obtain ⟨⟨r, w', hop⟩, hunchanged⟩ := unchanged_of_failure _ _ t { slots := 4 }
    ⟨4, ⟨10000000000⟩⟩ Samples.registry (.deploy "ticktock" ∅)
  obtain ⟨e, rfl⟩ := (((t.settled (settled_fresh _ _)).performs _ _ _ _).2 r w' hop).2
    |>.not_deployed_of_live t.keyed hlive
  obtain ⟨hdefs, hreleases, hreported, -⟩ := hunchanged e w' hop
  obtain ⟨r, hr⟩ := hlive
  have hblind : w.content.Blind "ticktock" := by
    refine ⟨?_, r, hr, .inl fun e _ => hreports e.label⟩
    rw [content, hup]
    rfl
  exact ⟨w, e, w', t, hblind, hop, hdefs, hreleases, hreported⟩

end StreamPipeline
