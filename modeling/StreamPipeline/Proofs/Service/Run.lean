import StreamPipeline.Proofs.Release.Stored
import StreamPipeline.Proofs.Service.Operation

/-!
# Runs of a service

`World.Run` is what can happen to a world: operations of services with whatever configuration,
registry and outcome, states that stages are made to report, and changes of what can be learnt, in
any order and number. On every run the locks are free between operations (`Run.settled`), and so an
operation comes to one result, which is as `Transition` says (`Settled.performs`).

`Run.invariant` is the induction for all of them: what holds of the content at first and is kept by
each transition holds on every run. The ledger of a run is a run of commands to the ledger
(`Run.reaches`), and definitions are found under their own names (`Run.keyed`).
-/

namespace StreamPipeline

namespace World

/-- A world in which nothing has happened yet. -/
def fresh (platforms : List Platform) (initial : State) : World :=
  { ledger := { platforms, initial } }

/-- What an operation of a service comes to in a world. -/
def Performs (w : World) (c : Configuration) (poller : Poller) (registry : Registry)
    (op : Operation) (r : Except Failure Unit) (w' : World) : Prop :=
  (op.call (releaseService c poller registry)).Gives w r w'

/-- What can become of a world by operations that are allowed, where stages are made to report
states and what can be learnt changes. -/
inductive Run (allowed : Content → Operation → Prop) (w₀ : World) : World → Prop where
  | refl : Run allowed w₀ w₀
  | operation {w w' : World} (t : Run allowed w₀ w) (c : Configuration) (poller : Poller)
      (registry : Registry) (op : Operation) (r : Except Failure Unit)
      (h : allowed w.content op) (hop : w.Performs c poller registry op r w') :
      Run allowed w₀ w'
  | reported {w : World} (t : Run allowed w₀ w) (name label : String) (s : State) :
      Run allowed w₀ { w with ledger := w.ledger.setState name label s }
  | disturbed {w : World} (t : Run allowed w₀ w) (d : Disturbance) :
      Run allowed w₀ { w with disturbance := d }

/-- The run of any operations. -/
abbrev Reaches (w₀ w : World) : Prop := Run (fun _ _ => True) w₀ w

/-- No watched call is made to fail, and no lock is held. -/
def Settled (w : World) : Prop := w.calls.failing = [] ∧ w.locks.held = []

theorem settled_fresh (platforms : List Platform) (initial : State) :
    (fresh platforms initial).Settled :=
  ⟨rfl, rfl⟩

variable {allowed : Content → Operation → Prop} {w₀ w w' : World} {c : Configuration}
  {poller : Poller} {registry : Registry} {op : Operation} {r : Except Failure Unit}

/-- **An operation comes to one result**, which one of the transitions allows. -/
theorem Settled.performs (h : w.Settled) (c : Configuration) (poller : Poller)
    (registry : Registry) (op : Operation) :
    (∃ r w', w.Performs c poller registry op r w') ∧
    ∀ r w', w.Performs c poller registry op r w' →
      w'.Settled ∧ Transition c registry w.content op r w'.content := by
  obtain ⟨htotal, honly⟩ := (Call.serves_operation op w h.1 h.2 rfl :
    (op.call (releaseService c poller registry)).Ends w _).gives
  exact ⟨htotal, fun r w' g => ⟨⟨(honly r w' g).1, (honly r w' g).2.1⟩, (honly r w' g).2.2⟩⟩

namespace Run

theorem settled (h₀ : w₀.Settled) (t : Run allowed w₀ w) : w.Settled := by
  induction t with
  | refl => exact h₀
  | operation _ c poller registry op r _ hop ih =>
      exact ((Settled.performs ih c poller registry op).2 r _ hop).1
  | reported _ _ _ _ ih => exact ih
  | disturbed _ _ ih => exact ih

/-- **The induction over runs.** -/
theorem invariant {I : Content → Prop} (h₀ : w₀.Settled) (hI : I w₀.content)
    (hop : ∀ c registry k op r k', I k → allowed k op → Transition c registry k op r k' → I k')
    (hreported : ∀ k name label s, I k → I (k.keeping (k.ledger.setState name label s)))
    (hdisturbed : ∀ k names, I k → I { k with unavailable := names })
    (t : Run allowed w₀ w) : I w.content := by
  induction t with
  | refl => exact hI
  | @operation w w' t c poller registry op r ha hp ih =>
      have ht := ((Settled.performs (t.settled h₀) c poller registry op).2 r w' hp).2
      exact hop c registry w.content op r w'.content ih ha ht
  | reported _ name label s ih => exact hreported _ name label s ih
  | disturbed _ d ih => exact hdisturbed _ d.unavailable ih

end Run

end World

namespace Content

variable {k : Content}

@[simp] theorem ledger_told (k : Content) (es : List Event) : (k.told es).ledger = k.ledger := rfl

@[simp] theorem definitions_told (k : Content) (es : List Event) :
    (k.told es).definitions = k.definitions :=
  rfl

@[simp] theorem ledger_keeping (k : Content) (l : Ledger) : (k.keeping l).ledger = l := rfl

@[simp] theorem definitions_keeping (k : Content) (l : Ledger) :
    (k.keeping l).definitions = k.definitions :=
  rfl

@[simp] theorem ledger_forgetting (k : Content) (name : String) :
    (k.forgetting name).ledger = k.ledger :=
  rfl

@[simp] theorem definitions_forgetting (k : Content) (name : String) :
    (k.forgetting name).definitions = k.definitions.erase name :=
  rfl

@[simp] theorem ledger_reconciled (k : Content) (name : String) (m : Manifest) :
    (k.reconciled name m).ledger = k.ledger := by
  unfold reconciled
  split <;> rfl

/-- Every definition is found under its own name. -/
def Keyed (k : Content) : Prop := ∀ name d, k.definitions.get? name = some d → d.name = name

theorem Keyed.definitions_reconciled (h : k.Keyed) {name : String} {d : Definition}
    (hd : k.definitions.get? name = some d) (m : Manifest) :
    (k.reconciled name m).definitions =
      k.definitions.insert name (d.withSettings m.settings) := by
  rw [reconciled, hd]
  exact congrArg (k.definitions.insert · _) (h name d hd)

end Content

/-- What a transition does to the ledger is a run of commands. -/
theorem Transition.reaches {c : Configuration} {registry : Registry} {k k' : Content}
    {op : Operation} {r : Except Failure Unit} (t : Transition c registry k op r k') :
    k.ledger.Reaches k'.ledger := by
  cases t with
  | refused | created | deployRefused | idle | forgotten => exact .refl
  | deployFailed name p d e requests package l hd hr hready hi =>
      exact Ledger.reaches_ensure hready.ensured
  | deployed name p d requests package l l' r ids hd hr hready hi =>
      exact (Ledger.reaches_ensure hready.ensured).trans (Ledger.reaches_install hi)
  | upgraded name p o d package values l l' r hd hready hu =>
      simpa using (Ledger.reaches_ensure hready.ensured).trans (Ledger.reaches_upgrade hu)
  | upgradeFailed name p o d e package values l hd hready hu =>
      exact Ledger.reaches_ensure hready.ensured
  | rolledBack name version d l r hd hr => simpa using Ledger.reaches_rollback hr
  | undeployed name d l r hd hu => exact Ledger.reaches_uninstall hu
  | deleted name d s l r hd hs hne hu => exact Ledger.reaches_uninstall hu

/-- What holds of all definitions that are created, whatever settings they are given, holds of all
that are stored. -/
theorem Transition.all_definitions {P : String → Definition → Prop} {c : Configuration}
    {registry : Registry} {k k' : Content} {op : Operation} {r : Except Failure Unit}
    (t : Transition c registry k op r k')
    (hk : ∀ name d, k.definitions.get? name = some d → P name d)
    (hcreate : ∀ d, op = .create d → P d.name d)
    (hset : ∀ name d updates, P name d → P d.name (d.withSettings updates)) :
    ∀ name d, k'.definitions.get? name = some d → P name d := by
  have hinsert : ∀ d', P d'.name d' → ∀ name d,
      (k.definitions.insert d'.name d').get? name = some d → P name d := by
    intro d' hd' name d hd
    rcases (StringMap.get?_insert_eq_some_iff _).1 hd with ⟨rfl, rfl⟩ | ⟨-, hd⟩
    · exact hd'
    · exact hk name d hd
  have hreconciled : ∀ (l : Ledger) n m name d,
      ((k.keeping l).reconciled n m).definitions.get? name = some d → P name d := by
    intro l n m
    unfold Content.reconciled
    split
    · rename_i d hd
      exact hinsert (d.withSettings m.settings) (hset n d _ (hk n d hd))
    · exact hk
  have hforgotten : ∀ n name d, (k.definitions.erase n).get? name = some d → P name d :=
    fun n name d hd => hk name d ((StringMap.get?_erase_eq_some_iff _).1 hd).2
  cases t with
  | created d => exact hinsert d (hcreate d rfl)
  | upgraded => exact hreconciled _ _ _
  | rolledBack => exact hreconciled _ _ _
  | forgotten => exact hforgotten _
  | deleted => exact hforgotten _
  | _ => exact hk

theorem Transition.keyed {c : Configuration} {registry : Registry} {k k' : Content}
    {op : Operation} {r : Except Failure Unit} (t : Transition c registry k op r k')
    (h : k.Keyed) : k'.Keyed :=
  t.all_definitions h (fun _ _ => rfl) fun _ _ _ _ => rfl

/-- What a service uploads are packages of stages. -/
theorem Transition.stocked {c : Configuration} {registry : Registry} {k k' : Content}
    {op : Operation} {r : Except Failure Unit} (t : Transition c registry k op r k')
    (h : k.ledger.Stocked) : k'.ledger.Stocked := by
  cases t with
  | refused | created | deployRefused | idle | forgotten => exact h
  | deployFailed name p d e requests package l hd hr hready hi =>
      exact h.ensure (Packager.packed_of_package hready.packed) hready.ensured
  | deployed name p d requests package l l' r ids hd hr hready hi =>
      exact (h.ensure (Packager.packed_of_package hready.packed) hready.ensured).install hi
  | upgraded name p o d package values l l' r hd hready hu =>
      simpa using (h.ensure hready.packed hready.ensured).upgrade hu
  | upgradeFailed name p o d e package values l hd hready hu =>
      exact h.ensure hready.packed hready.ensured
  | rolledBack name version d l r hd hr => simpa using h.rollback hr
  | undeployed name d l r hd hu => exact h.uninstall hu
  | deleted name d s l r hd hs hne hu => exact h.uninstall hu

namespace World.Run

variable {allowed : Content → Operation → Prop} {w : World} {platforms : List Platform}
  {initial : State}

/-- The ledger of a run is a run of commands. -/
theorem reaches (t : Run allowed (fresh platforms initial) w) :
    Ledger.Reaches { platforms, initial } w.ledger :=
  t.invariant (I := fun k => Ledger.Reaches { platforms, initial } k.ledger)
    (settled_fresh platforms initial) .refl (fun _ _ _ _ _ _ hk _ ht => hk.trans ht.reaches)
    (fun _ name label s hk => hk.step (.setState name label s)) (fun _ _ hk => hk)

theorem orderly (t : Run allowed (fresh platforms initial) w) : w.ledger.Orderly :=
  Ledger.Orderly.reaches (fun _ => .nil) t.reaches

theorem keyed (t : Run allowed (fresh platforms initial) w) : w.content.Keyed :=
  t.invariant (settled_fresh platforms initial) (fun _ _ h => nomatch h)
    (fun _ _ _ _ _ _ hk _ ht => ht.keyed hk) (fun _ _ _ _ hk => hk) (fun _ _ hk => hk)

theorem stocked (t : Run allowed (fresh platforms initial) w) : w.ledger.Stocked :=
  t.invariant (I := fun k => k.ledger.Stocked) (settled_fresh platforms initial)
    (fun _ _ _ h => nomatch h) (fun _ _ _ _ _ _ hk _ ht => ht.stocked hk)
    (fun _ _ _ _ hk => hk.of_packages rfl) (fun _ _ hk => hk)

end World.Run

end StreamPipeline
