import Mathlib.Data.List.Basic
import StreamPipeline.Proofs.Service.Deployment

/-!
# The events of a service mirror its releases

What a transition tells is one of a few things (`Transition.tells`): nothing, a deployment that was
asked for together with its answer, a release that replaced another, or an end. A transition tells
of a release exactly when it makes one, under the number that the release has.

**On every run the events tell the history** (`World.events_mirror_history`). The releases that are
told under a name are numbered from one to the number of releases in its history; a deployment that
is asked for is answered by the next event of its name, and nothing else is ever answered; and an
operation that finds no definition tells nothing.
-/

namespace StreamPipeline

namespace Event

/-- The event tells of a new release. -/
def tellsRelease (e : Event) : Bool :=
  e.type == "stream.deployed" || e.type == "stream.upgraded" || e.type == "stream.rolled_back"

/-- The event tells that a deployment was asked for. -/
def asks (e : Event) : Bool := e.type == "stream.deploy.requested"

/-- The event tells what came of a deployment. -/
def answers (e : Event) : Bool := e.type == "stream.deployed" || e.type == "stream.deploy.failed"

/-- The events about a pipeline. -/
def about (name : String) (es : List Event) : List Event := es.filter (·.pipeline == name)

/-- The numbers under which new releases are told. -/
def versions (es : List Event) : List (Option Json) :=
  (es.filter tellsRelease).map (·.get? "release_version")

/-- Each deployment that is asked for is answered at once, and there are no other answers. -/
inductive Answered : List Event → Prop where
  | nil : Answered []
  | asked {e f : Event} {es : List Event} (he : e.asks = true) (hf : f.answers = true)
      (t : Answered es) : Answered (e :: f :: es)
  | other {e : Event} {es : List Event} (hasks : e.asks = false) (hanswers : e.answers = false)
      (t : Answered es) : Answered (e :: es)

@[simp] theorem about_append (name : String) (es fs : List Event) :
    about name (es ++ fs) = about name es ++ about name fs :=
  List.filter_append ..

@[simp] theorem versions_append (es fs : List Event) :
    versions (es ++ fs) = versions es ++ versions fs := by
  simp [versions]

/-- Events of one pipeline are all about it, or none is. -/
theorem about_of_pipeline {n : String} {es : List Event} (h : ∀ e ∈ es, e.pipeline = n)
    (name : String) : about name es = if name = n then es else [] := by
  split
  · subst name
    exact List.filter_eq_self.2 fun e he => beq_iff_eq.2 (h e he)
  · rename_i hne
    exact List.filter_eq_nil_iff.2 fun e he => by simpa [h e he] using Ne.symm hne

/-- Nothing asks and answers at once. -/
theorem answers_of_asks {e : Event} (h : e.asks = true) : e.answers = false := by
  simp only [asks, beq_iff_eq] at h
  simp [answers, h]

namespace Answered

variable {es fs before after : List Event} {e : Event}

theorem append (h : Answered es) (hf : Answered fs) : Answered (es ++ fs) := by
  induction h with
  | nil => exact hf
  | asked he hf _ ih => exact .asked he hf ih
  | other hasks hanswers _ ih => exact .other hasks hanswers ih

/-- Behind a deployment that is asked for stands its answer. -/
theorem next (h : Answered (before ++ e :: after)) (he : e.asks = true) :
    ∃ f rest, after = f :: rest ∧ f.answers = true := by
  generalize hes : before ++ e :: after = es at h
  induction h generalizing before with
  | nil => simp at hes
  | @asked a b es ha hb t ih =>
      match before with
      | [] =>
          cases hes
          exact ⟨b, es, rfl, hb⟩
      | [_] =>
          cases hes
          exact absurd hb (by simp [answers_of_asks he])
      | _ :: _ :: before =>
          cases hes
          exact ih rfl
  | other hasks _ _ ih =>
      match before with
      | [] =>
          cases hes
          exact absurd he (by simp [hasks])
      | _ :: before =>
          cases hes
          exact ih rfl

/-- In front of an answer stands the deployment that was asked for. -/
theorem previous (h : Answered (before ++ e :: after)) (he : e.answers = true) :
    ∃ first f, before = first ++ [f] ∧ f.asks = true := by
  generalize hes : before ++ e :: after = es at h
  induction h generalizing before with
  | nil => simp at hes
  | @asked a b es ha hb t ih =>
      match before with
      | [] =>
          cases hes
          exact absurd he (by simp [answers_of_asks ha])
      | [_] =>
          cases hes
          exact ⟨[], a, rfl, ha⟩
      | _ :: _ :: before =>
          cases hes
          obtain ⟨first, f, rfl, hf⟩ := ih rfl
          exact ⟨_ :: _ :: first, f, rfl, hf⟩
  | other _ hanswers _ ih =>
      match before with
      | [] =>
          cases hes
          exact absurd he (by simp [hanswers])
      | _ :: before =>
          cases hes
          obtain ⟨first, f, rfl, hf⟩ := ih rfl
          exact ⟨_ :: first, f, rfl, hf⟩

end Answered

end Event

/-! ### Numbers of releases -/

namespace Ledger

variable {l k : Ledger} {name : String} {r : Release}

/-- A release was added under a name, and has the next number there. -/
def Adds (l : Ledger) (name : String) (version : Nat) (k : Ledger) : Prop :=
  version = (l.history name).length + 1 ∧
    ∀ n, (k.history n).length = (l.history n).length + if n = name then 1 else 0

theorem adds_push {d : String} (hname : r.name = name)
    (hversion : r.version = (l.history name).length + 1) :
    l.Adds name r.version ((l.retire name d).push r) := by
  refine ⟨hversion, fun n => ?_⟩
  rw [history_push, history_retire, hname]
  by_cases hn : n = name <;> simp [hn]

theorem adds_install (h : l.Orderly) {i : Installation} (hi : l.install i = .ok (r, k)) :
    l.Adds i.release r.version k := by
  obtain ⟨-, -, p, m, -, -, rfl, rfl⟩ := install_eq_ok_iff.1 hi
  refine ⟨h.nextVersion i.release, fun n => ?_⟩
  rw [history_push]
  by_cases hn : n = i.release <;> simp [hn, installed]

theorem adds_upgrade (h : l.Orderly) {u : Upgrade} (hu : l.upgrade u = .ok (r, k)) :
    l.Adds u.release r.version k := by
  obtain ⟨previous, p, m, -, -, -, rfl, rfl⟩ := upgrade_eq_ok_iff.1 hu
  exact adds_push rfl (h.nextVersion u.release)

theorem adds_rollback (h : l.Orderly) {v : Nat} (hr : l.rollback name v = .ok (r, k)) :
    l.Adds name r.version k := by
  obtain ⟨latest, target, hlatest, htarget, rfl, rfl⟩ := rollback_eq_ok_iff.1 hr
  refine adds_push ?_ (congrArg (· + 1) (h.latest_version hlatest))
  exact (h name).name_eq target (List.mem_of_find?_eq_some htarget)

/-- The end of a release leaves as many releases as there were. -/
theorem length_history_uninstall (h : l.uninstall name = .ok (r, k)) (n : String) :
    (k.history n).length = (l.history n).length := by
  obtain ⟨l', hd, rfl⟩ := uninstall_eq_ok_iff.1 h
  obtain ⟨live, -, -, rfl⟩ := delete_eq_ok_iff.1 hd
  show ((l.retire name _).history n).length = _
  rw [history_retire]
  split <;> simp

/-- A package that was made ready changes nothing about the numbers. -/
theorem Adds.of_ensure {m : Ledger} {version : Nat} {p : Package} (h : k.Adds name version m)
    (hensured : l.ensure p = .ok ((), k)) : l.Adds name version m := by
  simpa only [Adds, history_ensure hensured] using h

end Ledger

namespace Content

@[simp] theorem events_told (k : Content) (es : List Event) :
    (k.told es).events = k.events ++ es := rfl

@[simp] theorem events_keeping (k : Content) (l : Ledger) : (k.keeping l).events = k.events := rfl

@[simp] theorem events_forgetting (k : Content) (name : String) :
    (k.forgetting name).events = k.events := rfl

@[simp] theorem events_reconciled (k : Content) (name : String) (m : Manifest) :
    (k.reconciled name m).events = k.events := by
  unfold reconciled
  split <;> rfl

end Content

/-! ### What a transition tells -/

/-- What can be told about a name while the ledger `l` becomes `l'`. -/
inductive Tells (l l' : Ledger) (name : String) : List Event → Prop where
  | nothing (h : ∀ n, (l'.history n).length = (l.history n).length) : Tells l l' name []
  | failed (stages : Nat) (kind message : String)
      (h : ∀ n, (l'.history n).length = (l.history n).length) :
      Tells l l' name [.deployRequested name stages, .deployFailed name kind message]
  | deployed (stages version : Nat) (deployer : String) (ids : List String)
      (h : l.Adds name version l') :
      Tells l l' name [.deployRequested name stages, .deployed name deployer (some version) ids]
  | upgraded (version : Nat) (packageVersion : String) (h : l.Adds name version l') :
      Tells l l' name [.upgraded name version packageVersion]
  | rolledBack (version requested : Nat) (h : l.Adds name version l') :
      Tells l l' name [.rolledBack name version requested]
  | undeployed (h : ∀ n, (l'.history n).length = (l.history n).length) :
      Tells l l' name [.undeployed name]

namespace Tells

variable {l l' : Ledger} {name : String} {es : List Event}

/-- All that is told is about the one name. -/
theorem pipeline (h : Tells l l' name es) : ∀ e ∈ es, e.pipeline = name := by
  cases h <;> simp [Event.deployRequested, Event.deployed, Event.deployFailed, Event.undeployed,
    Event.upgraded, Event.rolledBack, Event.set]

theorem answered (h : Tells l l' name es) (n : String) : Event.Answered (Event.about n es) := by
  rw [Event.about_of_pipeline h.pipeline]
  split
  · cases h with
    | nothing => exact .nil
    | failed | deployed => exact .asked rfl rfl .nil
    | upgraded | rolledBack | undeployed => exact .other rfl rfl .nil
  · exact .nil

/-- The numbers told continue the numbers of the history. -/
theorem versions (h : Tells l l' name es) (n : String) :
    (List.range' 1 (l'.history n).length).map (fun v => some (Json.nat v)) =
      (List.range' 1 (l.history n).length).map (fun v => some (Json.nat v)) ++
        Event.versions (Event.about n es) := by
  have added : ∀ {v}, l.Adds name v l' → ∀ {es}, Event.versions es = [some (Json.nat v)] →
      (List.range' 1 (l'.history n).length).map (fun v => some (Json.nat v)) =
        (List.range' 1 (l.history n).length).map (fun v => some (Json.nat v)) ++
          Event.versions (if n = name then es else []) := by
    rintro v ⟨rfl, hlength⟩ es hes
    rw [hlength n]
    split
    · subst n
      rw [hes, List.range'_1_concat, List.map_append]
      simp [Nat.add_comm]
    · exact (List.append_nil _).symm
  rw [Event.about_of_pipeline h.pipeline]
  cases h with
  | nothing h | failed _ _ _ h | undeployed h =>
      rw [h n]
      split <;> exact (List.append_nil _).symm
  | deployed _ _ _ _ h | upgraded _ _ h | rolledBack _ _ h => exact added h rfl

end Tells

namespace Transition

variable {c : Configuration} {registry : Registry} {k k' : Content} {op : Operation}
  {r : Except Failure Unit}

/-- **What a transition tells.** -/
theorem tells (t : Transition c registry k op r k') (hkeyed : k.Keyed)
    (horderly : k.ledger.Orderly) :
    ∃ es, k'.events = k.events ++ es ∧ Tells k.ledger k'.ledger op.name es := by
  have same : ∀ {p l}, k.ledger.ensure p = .ok ((), l) →
      ∀ n, (l.history n).length = (k.ledger.history n).length :=
    fun h n => congrArg List.length (Ledger.history_ensure h n)
  have ordered : ∀ {p l}, k.ledger.ensure p = .ok ((), l) → l.Orderly := fun h n => by
    rw [Ledger.history_ensure h n]
    exact horderly n
  cases t with
  | refused | created | forgotten =>
      exact ⟨[], by simp, .nothing fun _ => rfl⟩
  | deployRefused name p d e hd h => exact ⟨_, rfl, .failed _ _ _ fun _ => rfl⟩
  | deployFailed name p d e requests package l hd hr hready hi =>
      exact ⟨_, rfl, .failed _ _ _ (same hready.ensured)⟩
  | deployed name p d requests package l l' r ids hd hr hready hi =>
      have hadds := (Ledger.adds_install (ordered hready.ensured) hi).of_ensure hready.ensured
      exact ⟨_, rfl, .deployed _ r.version _ _ (hkeyed name d hd ▸ hadds)⟩
  | upgraded name p o d package values l l' r hd hready hu =>
      have hadds := (Ledger.adds_upgrade (ordered hready.ensured) hu).of_ensure hready.ensured
      refine ⟨[.upgraded name r.version r.package.version], by simp, .upgraded _ _ ?_⟩
      rw [Content.ledger_told, Content.ledger_reconciled]
      exact hadds
  | upgradeFailed name p o d e package values l hd hready hu =>
      exact ⟨[], by simp, .nothing (same hready.ensured)⟩
  | rolledBack name version d l r hd hr =>
      refine ⟨[.rolledBack name r.version version], by simp, .rolledBack _ _ ?_⟩
      rw [Content.ledger_told, Content.ledger_reconciled]
      exact Ledger.adds_rollback horderly hr
  | idle name d e hd hdead => exact ⟨_, rfl, .undeployed fun _ => rfl⟩
  | undeployed name d l r hd hu =>
      exact ⟨_, rfl, .undeployed (Ledger.length_history_uninstall hu)⟩
  | deleted name d s l r hd hs hne hu =>
      exact ⟨_, rfl, .undeployed (Ledger.length_history_uninstall hu)⟩

/-- A definition is saved without a word. -/
theorem events_create {d : Definition} (t : Transition c registry k (.create d) r k') :
    k'.events = k.events := by
  cases t <;> rfl

end Transition

namespace Call

variable {α β : Type} {c : Configuration} {poller : Poller} {registry : Registry} {k : Content}
  {e : Failure}

/-- The call fails and does nothing. -/
def Fails (b : Call World α) (k : Content) (e : Failure) : Prop :=
  b.Works k fun r k' => r = .error e ∧ k' = k

theorem Fails.bind {b : Call World α} (h : b.Fails k e) (f : α → Call World β) :
    (b >>= f).Fails k e := by
  refine works_bind (h.imp ?_)
  rintro _ _ ⟨rfl, rfl⟩
  exact ⟨rfl, rfl⟩

theorem Fails.discarded {b : Call World α} (h : b.Fails k e) : (discard b).Fails k e :=
  works_discard (h.imp fun _ _ ⟨hr, hk⟩ => ⟨hr ▸ rfl, hk⟩)

/-- The same under a lock. -/
theorem Fails.locked {b : Call World α} (h : b.Fails k e) (name : String) :
    (discard ((World.releaseService c poller registry).locked name b)).Serves k fun r k' =>
      r = .error e ∧ k' = k := by
  refine serves_discard (serves_locked (h.imp ?_))
  rintro _ _ ⟨rfl, rfl⟩
  exact ⟨rfl, rfl⟩

theorem fails_definition {name : String} (h : k.definitions.get? name = none) :
    ((World.releaseService c poller registry).definition name).Fails k
      (.missing .pipeline name) :=
  works_definition (fun _ hd => nomatch h.symm.trans hd) fun _ => ⟨rfl, rfl⟩

/-- An operation on what is not defined is refused as such. -/
theorem serves_missing {op : Operation} (hop : ∀ d, op ≠ .create d)
    (h : k.definitions.get? op.name = none) :
    (op.call (World.releaseService c poller registry)).Serves k fun r k' =>
      r = .error (.missing .pipeline op.name) ∧ k' = k := by
  cases op with
  | create d => exact absurd rfl (hop d)
  | deploy name p => exact ((fails_definition h).bind _).locked name
  | undeploy name => exact serves_locked ((fails_definition h).discarded.bind _)
  | update name p o => exact ((fails_definition h).discarded.bind _).locked name
  | rollback name version => exact ((fails_definition h).discarded.bind _).locked name
  | delete name => exact ((fails_definition h).discarded.bind _).locked name

end Call

/-! ### Runs -/

/-- The events about a name tell its history, and answer what is asked. -/
structure Content.Mirrors (k : Content) (name : String) : Prop where
  versions : Event.versions (Event.about name k.events) =
    (List.range' 1 (k.ledger.history name).length).map fun v => some (Json.nat v)
  answered : Event.Answered (Event.about name k.events)

theorem Content.Mirrors.transition {c : Configuration} {registry : Registry} {k k' : Content}
    {op : Operation} {r : Except Failure Unit} {name : String} (h : k.Mirrors name)
    (t : Transition c registry k op r k') (hkeyed : k.Keyed) (horderly : k.ledger.Orderly) :
    k'.Mirrors name := by
  obtain ⟨es, hes, htells⟩ := t.tells hkeyed horderly
  constructor
  · rw [hes, Event.about_append, Event.versions_append, h.versions, htells.versions]
  · rw [hes, Event.about_append]
    exact h.answered.append (htells.answered name)

namespace World

variable {platforms : List Platform} {initial : State} {w : World}

theorem Run.mirrors {allowed : Content → Operation → Prop}
    (t : Run allowed (fresh platforms initial) w) (name : String) : w.content.Mirrors name := by
  have h : w.content.Keyed ∧ w.content.ledger.Orderly ∧ w.content.Mirrors name :=
    t.invariant (I := fun k => k.Keyed ∧ k.ledger.Orderly ∧ k.Mirrors name)
      (settled_fresh platforms initial)
      ⟨fun _ _ h => (nomatch h), fun _ => Ledger.IsOrderly.nil, rfl, Event.Answered.nil⟩
      (fun _ _ _ _ _ _ ⟨hkeyed, horderly, hmirrors⟩ _ ht =>
        ⟨ht.keyed hkeyed, horderly.reaches ht.reaches, hmirrors.transition ht hkeyed horderly⟩)
      (fun _ _ _ _ ⟨hkeyed, horderly, hmirrors⟩ => ⟨hkeyed, horderly, ⟨hmirrors.1, hmirrors.2⟩⟩)
      (fun _ _ ⟨hkeyed, horderly, hmirrors⟩ => ⟨hkeyed, horderly, ⟨hmirrors.1, hmirrors.2⟩⟩)
  exact h.2.2

/-- An operation that finds no definition fails as such, and a definition is saved or refused
without a word. -/
theorem Settled.silent (h : w.Settled) {c : Configuration} {poller : Poller} {registry : Registry}
    {op : Operation} {r : Except Failure Unit} {w' : World}
    (hop : w.Performs c poller registry op r w') :
    ((∃ d, op = .create d) ∨ w.definitions.get? op.name = none → w'.events = w.events) ∧
      ((∀ d, op ≠ .create d) → w.definitions.get? op.name = none →
        r = .error (.missing .pipeline op.name)) := by
  have hmissing : (∀ d, op ≠ .create d) → w.definitions.get? op.name = none →
      r = .error (.missing .pipeline op.name) ∧ w'.content = w.content := fun hne hd =>
    ((Call.serves_missing hne hd w h.1 h.2 rfl).gives.2 r w' hop).2.2
  refine ⟨fun hsilent => ?_, fun hne hd => (hmissing hne hd).1⟩
  by_cases hcreate : ∃ d, op = .create d
  · obtain ⟨d, rfl⟩ := hcreate
    exact ((h.performs c poller registry (.create d)).2 r w' hop).2.events_create
  · have hkept := (hmissing (not_exists.1 hcreate) (hsilent.resolve_left hcreate)).2
    exact congrArg Content.events hkept

/-- **The events mirror the history.**  On every run of services that make releases, whatever their
operations come to, the events about a name that tell of a release carry the numbers from one to
the number of releases in its history, in this order. A deployment that is asked for is answered,
that it was made or that it failed, by the next event about the name, and an answer stands nowhere
else. An operation that finds no definition fails as such and tells nothing, as does the creation
of a definition. -/
theorem events_mirror_history (platforms : List Platform) (initial : State) {w : World}
    (t : Reaches (fresh platforms initial) w) :
    (∀ name, Event.versions (Event.about name w.events) =
      (List.range' 1 (w.ledger.history name).length).map fun v => some (Json.nat v)) ∧
    (∀ name before e after, Event.about name w.events = before ++ e :: after →
      (e.asks = true → ∃ f rest, after = f :: rest ∧ f.answers = true) ∧
      (e.answers = true → ∃ first f, before = first ++ [f] ∧ f.asks = true)) ∧
    ∀ c poller registry op r w', w.Performs c poller registry op r w' →
      ((∃ d, op = .create d) ∨ w.definitions.get? op.name = none → w'.events = w.events) ∧
      ((∀ d, op ≠ .create d) → w.definitions.get? op.name = none →
        r = .error (.missing .pipeline op.name)) := by
  refine ⟨fun name => (t.mirrors name).versions, fun name before e after hes => ?_,
    fun c poller registry op r w' hop => (t.settled (settled_fresh platforms initial)).silent hop⟩
  have hanswered : Event.Answered (before ++ e :: after) := hes ▸ (t.mirrors name).answered
  exact ⟨hanswered.next, hanswered.previous⟩

/-- The first release of a pipeline is told under the number one. -/
theorem events_mirror_history_deployed :
    ∃ w versions, Reaches (fresh [⟨"default", "local", "In-process platform"⟩] .deployed) w ∧
      w.ledger.IsLive "ticktock" ∧
      Event.versions (Event.about "ticktock" w.events) = some (Json.nat 1) :: versions := by
  obtain ⟨requests, package, hrequests, hpackage⟩ := Samples.exists_package
  obtain ⟨w, t, -, -, hlive, -⟩ := exists_deployed
    [⟨"default", "local", "In-process platform"⟩] .deployed (c := { slots := 4 })
    ⟨4, ⟨10000000000⟩⟩ (by decide) hrequests hpackage
  obtain ⟨hversions, -, -⟩ := events_mirror_history _ _ t
  obtain ⟨r, hr, -⟩ := Ledger.isLive_iff.1 hlive
  have htold := hversions "ticktock"
  rw [← List.cons_head?_tail (l := w.ledger.history "ticktock") hr] at htold
  exact ⟨w, _, t, hlive, htold⟩

end World

end StreamPipeline
