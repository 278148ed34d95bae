import StreamPipeline.Proofs.Concurrent.Alone
import StreamPipeline.Simulation.World

/-!
# What calls do in a world

Of a world, the services that make releases work on its content: the definitions, the ledger, the
events, and of what disturbs them the releases about which nothing can be learnt. Locks, counts and
delays are left out.

`Call.Works c k Q` says that the call, where no watched call is made to fail, comes to an outcome
and a content with `Q` from whatever world has the content `k`, and leaves the locks alone. Each
operation of the store and of the manager has one rule that says what it does to the content.
-/

namespace StreamPipeline

/-- What services work on, without locks, counts and delays. -/
structure Content where
  definitions : Definitions
  ledger : Ledger
  events : List Event
  /-- The releases about which nothing can be learnt. -/
  unavailable : List String

/-- What the manager reports about the stages of a running release. -/
def Content.status (k : Content) (name : String) : Except Failure (List StageStatus) :=
  if k.unavailable.contains name then .error (.unavailable ("status of '" ++ name ++ "'"))
  else k.ledger.status name

theorem Content.status_of_unavailable {k : Content} {name : String}
    (h : k.unavailable.contains name = true) :
    k.status name = .error (.unavailable ("status of '" ++ name ++ "'")) :=
  if_pos h

theorem Content.status_of_available {k : Content} {name : String}
    (h : ¬ k.unavailable.contains name = true) : k.status name = k.ledger.status name :=
  if_neg h

/-- The content of a world. -/
def World.content (w : World) : Content :=
  ⟨w.definitions, w.ledger, w.events, w.disturbance.unavailable⟩

namespace Call

variable {α β : Type}

/-- From whatever world with the content `k`, the call comes to an outcome and a content with
`Q`. -/
def Works (c : Call World α) (k : Content) (Q : Except Failure α → Content → Prop) : Prop :=
  ∀ w : World, w.calls.failing = [] → w.content = k → c.Ends w fun r w' =>
    w'.calls.failing = [] ∧ w'.locks = w.locks ∧ Q r w'.content

variable {c : Call World α} {f : α → Call World β} {k : Content}
  {Q : Except Failure α → Content → Prop} {R : Except Failure β → Content → Prop}

/-! ### Calls put together -/

theorem Works.imp {P : Except Failure α → Content → Prop} (h : c.Works k P)
    (hPQ : ∀ r k', P r k' → Q r k') : c.Works k Q :=
  fun w hf hk => (h w hf hk).imp fun r _ ⟨hf', hl, hP⟩ => ⟨hf', hl, hPQ r _ hP⟩

theorem works_pure {a : α} (h : Q (.ok a) k) : (pure a : Call World α).Works k Q :=
  fun _ hf hk => ends_pure.2 ⟨hf, rfl, hk ▸ h⟩

theorem works_throw {e : Failure} (h : Q (.error e) k) : (throw e : Call World α).Works k Q :=
  fun _ hf hk => ends_throw.2 ⟨hf, rfl, hk ▸ h⟩

theorem works_ofExcept {x : Except Failure α} (h : Q x k) : (ofExcept x).Works k Q :=
  fun _ hf hk => ends_ofExcept.2 ⟨hf, rfl, hk ▸ h⟩

theorem works_bind (h : c.Works k fun r k' => match r with
    | .ok a => (f a).Works k' R
    | .error e => R (.error e) k') : (c >>= f).Works k R :=
  fun w hf hk => ends_bind.2 <| (h w hf hk).imp fun r w' ⟨hf', hl, hr⟩ => by
    cases r with
    | error e => exact ⟨hf', hl, hr⟩
    | ok a => exact (hr w' hf' rfl).imp fun _ _ ⟨hf'', hl', hR⟩ => ⟨hf'', hl'.trans hl, hR⟩

theorem works_tryCatch {g : Failure → Call World α} (h : c.Works k fun r k' => match r with
    | .ok a => Q (.ok a) k'
    | .error e => (g e).Works k' Q) : (tryCatch c g).Works k Q :=
  fun w hf hk => ends_tryCatch.2 <| (h w hf hk).imp fun r w' ⟨hf', hl, hr⟩ => by
    cases r with
    | ok a => exact ⟨hf', hl, hr⟩
    | error e => exact (hr w' hf' rfl).imp fun _ _ ⟨hf'', hl', hQ⟩ => ⟨hf'', hl'.trans hl, hQ⟩

theorem works_map {g : α → β} (h : c.Works k fun r k' => R (r.map g) k') : (g <$> c).Works k R :=
  fun w hf hk => ends_map.2 (h w hf hk)

theorem works_discard {R : Except Failure Unit → Content → Prop}
    (h : c.Works k fun r k' => R (r.map fun _ => ()) k') : (discard c).Works k R :=
  works_map h

/-- An activity that changes neither the locks nor what is watched. -/
theorem works_ofActivity {p : Activity World α}
    (h : ∀ w : World, w.content = k → ∃ a w', p.alone w = some (a, w') ∧ w'.calls = w.calls ∧
      w'.locks = w.locks ∧ Q (.ok a) w'.content) : (ofActivity p).Works k Q :=
  fun w hf hk =>
    let ⟨_, _, hp, hc, hl, hQ⟩ := h w hk
    (ends_ofActivity hp).2 ⟨hc ▸ hf, hl, hQ⟩

/-- A watched call does what it does, where no call is made to fail. -/
theorem works_noted {name : String} (h : c.Works k Q) :
    (CallLog.noted World.callsPart name c).Works k Q := by
  refine works_bind fun w hf hk => (ends_ofActivity rfl).2 ?_
  have hnote : (World.callsPart.lift (·.note name) w).1 = none := by
    simp [World.callsPart, Part.lift, CallLog.note, hf]
  refine ⟨hf, rfl, ?_⟩
  dsimp only
  rw [hnote]
  exact hk.symm ▸ h

/-! ### The store -/

theorem works_find {name : String} {Q : Except Failure (Option Definition) → Content → Prop}
    (h : Q (.ok (k.definitions.get? name)) k) : (World.store.find name).Works k Q := by
  refine works_noted fun w hf hk =>
    (ends_query (f := fun ds : Definitions => .ok (ds.get? name))).2 ⟨hf, rfl, ?_⟩
  subst hk
  exact h

theorem works_save {d : Definition} {Q : Except Failure Unit → Content → Prop}
    (hsaved : k.definitions.contains d.name = false →
      Q (.ok ()) { k with definitions := k.definitions.insert d.name d })
    (hrefused : k.definitions.contains d.name = true →
      Q (.error (.conflict .duplicateName d.name)) k) : (World.store.save d).Works k Q := by
  refine works_noted fun w hf hk => ends_update.2 ⟨hf, rfl, ?_⟩
  subst hk
  cases hd : w.definitions.contains d.name
  · simpa [World.content, World.definitionsPart, apply, Definitions.save, hd, Except.map]
      using hsaved hd
  · simpa [World.content, World.definitionsPart, apply, Definitions.save, hd, Except.map]
      using hrefused hd

theorem works_upsert {d : Definition} {Q : Except Failure Unit → Content → Prop}
    (h : Q (.ok ()) { k with definitions := k.definitions.insert d.name d }) :
    (World.store.upsert d).Works k Q := by
  refine works_noted fun w hf hk => ends_update.2 ⟨hf, rfl, ?_⟩
  subst hk
  exact h

theorem works_remove {name : String} {Q : Except Failure (Option Definition) → Content → Prop}
    (h : Q (.ok (k.definitions.get? name)) { k with definitions := k.definitions.erase name }) :
    (World.store.delete name).Works k Q := by
  refine works_noted fun w hf hk => ends_update.2 ⟨hf, rfl, ?_⟩
  subst hk
  exact h

/-! ### The manager -/

/-- A question to the ledger. -/
theorem works_query {g : Ledger → Except Failure α} (h : Q (g k.ledger) k) :
    (query World.ledgerPart g).Works k Q := by
  refine fun w hf hk => ends_query.2 ⟨hf, rfl, ?_⟩
  subst hk
  exact h

/-- A command to the ledger. -/
theorem works_update {g : Ledger → Except Failure (α × Ledger)}
    (h : Q (apply g k.ledger).1 { k with ledger := (apply g k.ledger).2 }) :
    (update World.ledgerPart g).Works k Q := by
  refine fun w hf hk => ends_update.2 ⟨hf, rfl, ?_⟩
  subst hk
  exact h

theorem works_upload {text : String} {Q : Except Failure PackageInfo → Content → Prop}
    (h : Q (apply (·.upload text) k.ledger).1
      { k with ledger := (apply (·.upload text) k.ledger).2 }) :
    (World.manager.upload text).Works k Q :=
  works_noted (works_update h)

theorem works_findPackage {name version : String}
    {Q : Except Failure (Option Upload) → Content → Prop}
    (h : Q (.ok (k.ledger.findPackage name version)) k) :
    (World.manager.findPackage name version).Works k Q :=
  works_noted (works_query (g := fun l => .ok (l.findPackage name version)) h)

theorem works_deletePackage {name : String} {Q : Except Failure Unit → Content → Prop}
    (h : Q (.ok ()) { k with ledger := k.ledger.deletePackage name }) :
    (World.manager.deletePackage name).Works k Q :=
  works_noted (works_update h)

theorem works_upgrade {u : Upgrade} {Q : Except Failure Release → Content → Prop}
    (h : Q (apply (·.upgrade u) k.ledger).1
      { k with ledger := (apply (·.upgrade u) k.ledger).2 }) :
    (World.manager.upgrade u).Works k Q :=
  works_noted (works_update h)

theorem works_rollback {name : String} {version : Nat}
    {Q : Except Failure Release → Content → Prop}
    (h : Q (apply (·.rollback name version) k.ledger).1
      { k with ledger := (apply (·.rollback name version) k.ledger).2 }) :
    (World.manager.rollback name version).Works k Q :=
  works_noted (works_update h)

theorem works_delete {name : String} {Q : Except Failure Release → Content → Prop}
    (h : Q (apply (·.delete name) k.ledger).1
      { k with ledger := (apply (·.delete name) k.ledger).2 }) :
    (World.manager.delete name).Works k Q :=
  works_noted (works_update h)

theorem works_info {name : String} {Q : Except Failure Release → Content → Prop}
    (h : Q (k.ledger.latest name) k) : (World.manager.info name).Works k Q :=
  works_noted (works_query (g := (·.latest name)) h)

theorem works_platforms {Q : Except Failure (List Platform) → Content → Prop}
    (h : Q (.ok k.ledger.platforms) k) : World.manager.platforms.Works k Q :=
  works_noted (works_query (g := fun l => .ok l.platforms) h)

/-- However long a pause is, nothing has changed after it. -/
theorem alone_pauseIfAny {σ : Type} (delay : Option Nat) (s : σ) :
    (pauseIfAny delay : Activity σ Unit).alone s = some ((), s) := by
  cases delay <;> rfl

theorem works_install {i : Installation} {Q : Except Failure Release → Content → Prop}
    (h : Q (apply (·.install i) k.ledger).1
      { k with ledger := (apply (·.install i) k.ledger).2 }) :
    (World.manager.install i).Works k Q := by
  refine works_noted (works_bind (works_ofActivity fun w hk =>
    ⟨(), { w with disturbance.installs := w.disturbance.installs + 1 }, ?_, rfl, rfl, ?_⟩))
  · exact (Activity.alone_bind _ _ w).trans (alone_pauseIfAny _ _)
  · subst hk
    exact works_update h

theorem works_status {name : String} {Q : Except Failure (List StageStatus) → Content → Prop}
    (h : Q (k.status name) k) : (World.manager.status name).Works k Q := by
  refine works_noted (works_bind (works_ofActivity fun w hk => ⟨w.disturbance.unavailable.contains
    name, { w with disturbance.statuses := w.disturbance.statuses + 1 }, ?_, rfl, rfl, ?_⟩))
  · refine (Activity.alone_bind _ _ w).trans ((Activity.alone_bind _ _ _).trans ?_)
    rw [alone_pauseIfAny]
    rfl
  · subst hk
    by_cases hdown : w.disturbance.unavailable.contains name = true
    · rw [Content.status_of_unavailable (k := w.content) hdown] at h
      dsimp only
      rw [if_pos hdown]
      exact works_bind (works_throw h)
    · rw [Content.status_of_available (k := w.content) hdown] at h
      dsimp only
      rw [if_neg hdown]
      exact works_query (g := (·.status name)) h

end Call

end StreamPipeline
