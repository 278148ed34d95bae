import StreamPipeline.Proofs.Release.Excerpt
import StreamPipeline.Proofs.Release.Lifecycle

/-!
# Calls that stay with one pipeline

`Content.excerpt k n q` is what of a content belongs to the pipeline with the name `n` and packages
under `q`. A content `Replaces` that by what another one has, and leaves all else but the number of
uploads and the events, to which it adds.

`Call.Stays n q c k Q` says that the call comes to one outcome wherever the excerpt is that of `k`,
by a change that replaces the excerpt; `Q` holds of the outcome and of a content that has what is
put there. There is one rule for each way to put calls together, and one for each operation of the
store and of the manager that is asked for under `n` and `q`.

Two such calls about different pipelines come to the same in either order (`Replaces.comm`).
-/

namespace StreamPipeline

namespace Content

variable {n q : String}

/-- What belongs to a pipeline. -/
structure Excerpt where
  definition : Option Definition
  ledger : Ledger.Excerpt
  isUnavailable : Bool

/-- What belongs to the pipeline with the name `n` and packages under `q`. -/
def excerpt (k : Content) (n q : String) : Excerpt :=
  ⟨k.definitions.get? n, k.ledger.excerpt n q, k.unavailable.contains n⟩

section

variable {k k' : Content} (h : k'.excerpt n q = k.excerpt n q)

include h

theorem definition_of_excerpt : k'.definitions.get? n = k.definitions.get? n :=
  congrArg Excerpt.definition h

theorem ledger_of_excerpt : k'.ledger.excerpt n q = k.ledger.excerpt n q :=
  congrArg Excerpt.ledger h

theorem status_of_excerpt : k'.status n = k.status n := by
  rw [status, Ledger.status_of_excerpt (ledger_of_excerpt h),
    show k'.unavailable.contains n = k.unavailable.contains n from congrArg Excerpt.isUnavailable h,
    status]

end

/-- The content `k'` is `k` but for what belongs to a pipeline, which is as in `j`, and for the
events `es` and `u` uploads more. -/
structure Replaces (n q : String) (j : Content) (es : List Event) (u : Nat) (k k' : Content) :
    Prop where
  excerpt : k'.excerpt n q = j.excerpt n q
  definitions : k'.definitions.erase n = k.definitions.erase n
  remainder : k'.ledger.remainder n q = k.ledger.remainder n q
  unavailable : k'.unavailable = k.unavailable
  uploads : k'.ledger.uploads = k.ledger.uploads + u
  events : k'.events = k.events ++ es

namespace Replaces

variable {k k' k'' j j' : Content} {es fs : List Event} {u v : Nat}

theorem refl (h : k.excerpt n q = j.excerpt n q) : Replaces n q j [] 0 k k :=
  ⟨h, rfl, rfl, rfl, rfl, (List.append_nil _).symm⟩

theorem trans (h : Replaces n q j es u k k') (h' : Replaces n q j' fs v k' k'') :
    Replaces n q j' (es ++ fs) (u + v) k k'' :=
  ⟨h'.excerpt, h'.definitions.trans h.definitions, h'.remainder.trans h.remainder,
    h'.unavailable.trans h.unavailable, by rw [h'.uploads, h.uploads, Nat.add_assoc],
    by rw [h'.events, h.events, List.append_assoc]⟩

end Replaces

end Content

namespace Call

variable {α β : Type} {n q : String} {c : Call World α} {f : α → Call World β} {k : Content}
  {Q : Except Failure α → Content → Prop} {R : Except Failure β → Content → Prop}

/-- Wherever the excerpt is that of `k`, the call comes to one outcome and puts one excerpt in its
place, as a content has it with `Q`. -/
def Stays (n q : String) (c : Call World α) (k : Content)
    (Q : Except Failure α → Content → Prop) : Prop :=
  ∃ r j es u, Q r j ∧ ∀ k' : Content, k'.excerpt n q = k.excerpt n q →
    c.Works k' fun r' k'' => r' = r ∧ Content.Replaces n q j es u k' k''

/-! ### Calls put together -/

/-- A call that only looks at what belongs to the pipeline. -/
theorem stays_of_looks {r : Except Failure α} (h : Q r k)
    (hc : ∀ k' : Content, k'.excerpt n q = k.excerpt n q →
      c.Works k' fun r' k'' => r' = r ∧ k'' = k') : c.Stays n q k Q :=
  ⟨r, k, [], 0, h, fun k' hk' => (hc k' hk').imp fun _ _ ⟨hr, hk⟩ =>
    ⟨hr, hk.symm ▸ Content.Replaces.refl hk'⟩⟩

theorem stays_pure {a : α} (h : Q (.ok a) k) : (pure a : Call World α).Stays n q k Q :=
  stays_of_looks h fun _ _ => works_pure ⟨rfl, rfl⟩

theorem stays_throw {e : Failure} (h : Q (.error e) k) : (throw e : Call World α).Stays n q k Q :=
  stays_of_looks h fun _ _ => works_throw ⟨rfl, rfl⟩

theorem stays_ofExcept {x : Except Failure α} (h : Q x k) : (ofExcept x).Stays n q k Q :=
  stays_of_looks h fun _ _ => works_ofExcept ⟨rfl, rfl⟩

theorem stays_bind (h : c.Stays n q k fun r j => match r with
    | .ok a => (f a).Stays n q j R
    | .error e => R (.error e) j) : (c >>= f).Stays n q k R := by
  obtain ⟨r, j, es, u, hr, hc⟩ := h
  cases r with
  | error e =>
      refine ⟨.error e, j, es, u, hr, fun k' hk' => works_bind ((hc k' hk').imp ?_)⟩
      rintro _ k'' ⟨rfl, hk''⟩
      exact ⟨rfl, hk''⟩
  | ok a =>
      obtain ⟨r', j', fs, v, hr', hf⟩ := hr
      refine ⟨r', j', es ++ fs, u + v, hr', fun k' hk' => works_bind ((hc k' hk').imp ?_)⟩
      rintro _ k'' ⟨rfl, hk''⟩
      exact (hf k'' hk''.excerpt).imp fun _ _ ⟨hr, h⟩ => ⟨hr, hk''.trans h⟩

theorem stays_tryCatch {g : Failure → Call World α} (h : c.Stays n q k fun r j => match r with
    | .ok a => Q (.ok a) j
    | .error e => (g e).Stays n q j Q) : (tryCatch c g).Stays n q k Q := by
  obtain ⟨r, j, es, u, hr, hc⟩ := h
  cases r with
  | ok a =>
      refine ⟨.ok a, j, es, u, hr, fun k' hk' => works_tryCatch ((hc k' hk').imp ?_)⟩
      rintro _ k'' ⟨rfl, hk''⟩
      exact ⟨rfl, hk''⟩
  | error e =>
      obtain ⟨r', j', fs, v, hr', hg⟩ := hr
      refine ⟨r', j', es ++ fs, u + v, hr', fun k' hk' => works_tryCatch ((hc k' hk').imp ?_)⟩
      rintro _ k'' ⟨rfl, hk''⟩
      exact (hg k'' hk''.excerpt).imp fun _ _ ⟨hr, h⟩ => ⟨hr, hk''.trans h⟩

theorem stays_map {g : α → β} (h : c.Stays n q k fun r j => R (r.map g) j) :
    (g <$> c).Stays n q k R := by
  obtain ⟨r, j, es, u, hr, hc⟩ := h
  refine ⟨r.map g, j, es, u, hr, fun k' hk' => works_map ((hc k' hk').imp ?_)⟩
  rintro _ k'' ⟨rfl, hk''⟩
  exact ⟨rfl, hk''⟩

theorem stays_discard {R : Except Failure Unit → Content → Prop}
    (h : c.Stays n q k fun r j => R (r.map fun _ => ()) j) : (discard c).Stays n q k R :=
  stays_map h

/-! ### The store -/

theorem stays_find {Q : Except Failure (Option Definition) → Content → Prop}
    (h : Q (.ok (k.definitions.get? n)) k) : (World.store.find n).Stays n q k Q :=
  stays_of_looks h fun _ hk' => works_find ⟨by rw [Content.definition_of_excerpt hk'], rfl⟩

/-- A change of the definition of the pipeline. -/
theorem stays_define (change : Definitions → Definitions) {r : Except Failure α}
    {o : Option Definition} (hn : ∀ ds, (change ds).get? n = o)
    (hrest : ∀ ds, (change ds).erase n = ds.erase n)
    (h : Q r { k with definitions := change k.definitions })
    (hc : ∀ k' : Content, k'.excerpt n q = k.excerpt n q →
      c.Works k' fun r' k'' => r' = r ∧ k'' = { k' with definitions := change k'.definitions }) :
    c.Stays n q k Q := by
  refine ⟨r, _, [], 0, h, fun k' hk' => (hc k' hk').imp ?_⟩
  rintro r' k'' ⟨hr, rfl⟩
  refine ⟨hr, ?_, hrest _, rfl, rfl, rfl, (List.append_nil _).symm⟩
  have hledger := Content.ledger_of_excerpt hk'
  have hdown := congrArg Content.Excerpt.isUnavailable hk'
  simp only [Content.excerpt] at hdown
  simp only [Content.excerpt, hn, hledger, hdown]

theorem stays_upsert {d : Definition} (hd : d.name = n) {Q : Except Failure Unit → Content → Prop}
    (h : Q (.ok ()) { k with definitions := k.definitions.insert d.name d }) :
    (World.store.upsert d).Stays n q k Q := by
  subst hd
  exact stays_define (·.insert d.name d) (fun ds => ds.get?_insert_self _ _)
    (fun ds => ds.erase_insert _ _) h fun _ _ => works_upsert ⟨rfl, rfl⟩

theorem stays_remove {Q : Except Failure (Option Definition) → Content → Prop}
    (h : Q (.ok (k.definitions.get? n)) { k with definitions := k.definitions.erase n }) :
    (World.store.delete n).Stays n q k Q :=
  stays_define (·.erase n) (o := none) (fun ds => by simp [StringMap.get?_erase])
    (fun ds => ds.erase_erase n) h fun _ hk' =>
      works_remove ⟨by rw [Content.definition_of_excerpt hk'], rfl⟩

theorem stays_save {d : Definition} (hd : d.name = n) {Q : Except Failure Unit → Content → Prop}
    (h : ∀ r j, Q r j) : (World.store.save d).Stays n q k Q := by
  subst hd
  have hcontains : ∀ k' : Content, k'.excerpt d.name q = k.excerpt d.name q →
      k'.definitions.contains d.name = k.definitions.contains d.name := fun k' hk' => by
    rw [StringMap.contains, Content.definition_of_excerpt hk', StringMap.contains]
  cases hthere : k.definitions.contains d.name with
  | true =>
      refine stays_of_looks (h _ _) fun k' hk' => works_save (fun hnew => ?_) fun _ => ⟨rfl, rfl⟩
      rw [hcontains k' hk', hthere] at hnew
      cases hnew
  | false =>
      refine stays_define (·.insert d.name d) (fun ds => ds.get?_insert_self _ _)
        (fun ds => ds.erase_insert _ _) (h _ _) fun k' hk' =>
          works_save (fun _ => ⟨rfl, rfl⟩) fun hold => ?_
      rw [hcontains k' hk', hthere] at hold
      cases hold

/-! ### The manager -/

theorem stays_status {Q : Except Failure (List StageStatus) → Content → Prop}
    (h : Q (k.status n) k) : (World.manager.status n).Stays n q k Q :=
  stays_of_looks h fun _ hk' => works_status ⟨Content.status_of_excerpt hk', rfl⟩

theorem stays_info {Q : Except Failure Release → Content → Prop} (h : Q (k.ledger.latest n) k) :
    (World.manager.info n).Stays n q k Q :=
  stays_of_looks h fun _ hk' =>
    works_info ⟨Ledger.latest_of_excerpt (Content.ledger_of_excerpt hk'), rfl⟩

theorem stays_platforms {Q : Except Failure (List Platform) → Content → Prop}
    (h : Q (.ok k.ledger.platforms) k) : World.manager.platforms.Stays n q k Q :=
  stays_of_looks h fun _ hk' =>
    works_platforms ⟨by rw [Ledger.platforms_of_excerpt (Content.ledger_of_excerpt hk')], rfl⟩

theorem stays_findPackage {version : String} {Q : Except Failure (Option Upload) → Content → Prop}
    (h : Q (.ok (k.ledger.findPackage q version)) k) :
    (World.manager.findPackage q version).Stays n q k Q :=
  stays_of_looks h fun _ hk' => works_findPackage
    ⟨by rw [Ledger.findPackage_of_excerpt (Content.ledger_of_excerpt hk')], rfl⟩

/-- A command to the ledger that is within what belongs to the pipeline. -/
theorem stays_update {g : Ledger → Except Failure (α × Ledger)} (hg : Ledger.Within n q k.ledger g)
    (h : ∀ l, Q ((g k.ledger).map (·.1)) (k.keeping l))
    (hc : ∀ (k' : Content) (P : Except Failure α → Content → Prop),
      P (apply g k'.ledger).1 { k' with ledger := (apply g k'.ledger).2 } → c.Works k' P) :
    c.Stays n q k Q := by
  obtain ⟨x, f, hx, hf⟩ := hg
  rw [hx k.ledger rfl] at h
  cases x with
  | error e =>
      refine ⟨.error e, k, [], 0, h k.ledger, fun k' hk' => hc k' _ ?_⟩
      rw [apply_of_error (hx k'.ledger (Content.ledger_of_excerpt hk'))]
      exact ⟨rfl, .refl hk'⟩
  | ok a =>
      obtain ⟨u, hu⟩ := hf a rfl
      refine ⟨.ok a, k.keeping (f a k.ledger), [], u, h _, fun k' hk' => hc k' _ ?_⟩
      have hledger := Content.ledger_of_excerpt hk'
      rw [apply_of_ok (hx k'.ledger hledger)]
      refine ⟨rfl, ?_, rfl, hu.remainder _, rfl, hu.uploads _, (List.append_nil _).symm⟩
      have hdefinition := Content.definition_of_excerpt hk'
      have hdown := congrArg Content.Excerpt.isUnavailable hk'
      simp only [Content.excerpt] at hdown
      simp only [Content.excerpt, Content.keeping, hdefinition, hdown, hu.excerpt hledger]

theorem stays_upload {text : String} (hq : ∀ p, Package.ofText? text = some p → p.info.name = q)
    {Q : Except Failure PackageInfo → Content → Prop} (h : ∀ r l, Q r (k.keeping l)) :
    (World.manager.upload text).Stays n q k Q :=
  stays_update (Ledger.within_upload hq) (fun l => h _ l) fun _ _ => works_upload

theorem stays_deletePackage {Q : Except Failure Unit → Content → Prop}
    (h : ∀ r l, Q r (k.keeping l)) : (World.manager.deletePackage q).Stays n q k Q :=
  stays_update Ledger.within_deletePackage (fun l => h _ l) fun _ _ hP => works_deletePackage hP

theorem stays_install {i : Installation} (hn : i.release = n) (hq : i.package = q)
    {Q : Except Failure Release → Content → Prop} (h : ∀ r l, Q r (k.keeping l)) :
    (World.manager.install i).Stays n q k Q :=
  stays_update (Ledger.within_install hn hq) (fun l => h _ l) fun _ _ => works_install

theorem stays_upgrade {u : Upgrade} (hn : u.release = n) (hq : u.package = q)
    {Q : Except Failure Release → Content → Prop} (h : ∀ r l, Q r (k.keeping l)) :
    (World.manager.upgrade u).Stays n q k Q :=
  stays_update (Ledger.within_upgrade hn hq) (fun l => h _ l) fun _ _ => works_upgrade

theorem stays_rollback {version : Nat} (hn : ∀ r ∈ k.ledger.history n, r.name = n)
    {Q : Except Failure Release → Content → Prop} (h : ∀ r l, Q r (k.keeping l)) :
    (World.manager.rollback n version).Stays n q k Q :=
  stays_update (Ledger.within_rollback hn) (fun l => h _ l) fun _ _ => works_rollback

theorem stays_delete {Q : Except Failure Release → Content → Prop}
    (h : ∀ l, Q ((k.ledger.delete n).map (·.1)) (k.keeping l)) :
    (World.manager.delete n).Stays n q k Q :=
  stays_update Ledger.within_delete h fun _ _ => works_delete

end Call

/-! ### Different pipelines -/

namespace Content

/-- The same but for the order of events. -/
structure Agrees (k k' : Content) : Prop where
  definitions : k'.definitions = k.definitions
  ledger : k'.ledger = k.ledger
  unavailable : k'.unavailable = k.unavailable
  events : k'.events.Perm k.events

namespace Replaces

variable {n q m p : String} {j i k a b ab ba : Content} {es fs : List Event} {u v : Nat}

/-- What belongs to another pipeline stays. -/
theorem excerpt_of_ne (h : Replaces n q j es u k a) (hn : m ≠ n) (hq : p ≠ q) :
    a.excerpt m p = k.excerpt m p := by
  simp only [Content.excerpt, StringMap.get?_of_erase_eq h.definitions hn,
    Ledger.excerpt_of_remainder h.remainder hn hq, h.unavailable]

/-- **What is replaced for two pipelines** is the same whichever is replaced first. -/
theorem comm (hn : m ≠ n) (hq : p ≠ q) (ha : Replaces n q j es u k a)
    (hab : Replaces m p i fs v a ab) (hb : Replaces m p i fs v k b)
    (hba : Replaces n q j es u b ba) : Agrees ab ba where
  definitions := StringMap.eq_of_replaced hn ha.definitions hab.definitions hb.definitions
    hba.definitions (definition_of_excerpt (hba.excerpt.trans ha.excerpt.symm))
    (definition_of_excerpt (hab.excerpt.trans hb.excerpt.symm))
  ledger := Ledger.eq_of_replaced hn hq ha.remainder hab.remainder hb.remainder hba.remainder
    (ledger_of_excerpt (hba.excerpt.trans ha.excerpt.symm))
    (ledger_of_excerpt (hab.excerpt.trans hb.excerpt.symm))
    (by rw [hba.uploads, hb.uploads, hab.uploads, ha.uploads, Nat.add_right_comm])
  unavailable := by rw [hba.unavailable, hb.unavailable, hab.unavailable, ha.unavailable]
  events := by
    rw [hba.events, hb.events, hab.events, ha.events, List.append_assoc, List.append_assoc]
    exact List.perm_append_comm.append_left _

end Replaces

end Content

end StreamPipeline
