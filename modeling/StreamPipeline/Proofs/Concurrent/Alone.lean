import StreamPipeline.Concurrent.Call

/-!
# Activities that nothing disturbs

An activity that never has to wait for another one, and has no parts that run at once, comes to
one result whatever time its pauses take: `Activity.alone` is that result. A run of the activity
gives just it (`gives_iff_alone`), so that what a service does when one call follows another can be
said without time.

`Call.Ends c s Q` says that a call alone comes to an outcome and a state with `Q`. There is one
equivalence for each way to put calls together.
-/

namespace StreamPipeline

namespace Activity

variable {σ α β : Type}

/-! ### One activity after another -/

theorem bind_done (p : Activity σ α) : p.bind done = p := by
  match p with
  | done a => rfl
  | act f next => exact congrArg (act f) (funext fun b => bind_done (next b))
  | sleep ms next => exact congrArg (sleep ms) (bind_done next)
  | limit ms part next => exact congrArg (limit ms part) (funext fun b => bind_done (next b))
  | pool slots parts next => exact congrArg (pool slots parts) (funext fun b => bind_done (next b))

theorem bind_bind {γ : Type} (p : Activity σ α) (f : α → Activity σ β) (g : β → Activity σ γ) :
    (p.bind f).bind g = p.bind fun a => (f a).bind g := by
  match p with
  | done a => rfl
  | act h next => exact congrArg (act h) (funext fun b => bind_bind (next b) f g)
  | sleep ms next => exact congrArg (sleep ms) (bind_bind next f g)
  | limit ms part next =>
      exact congrArg (limit ms part) (funext fun b => bind_bind (next b) f g)
  | pool slots parts next =>
      exact congrArg (pool slots parts) (funext fun b => bind_bind (next b) f g)

instance : LawfulMonad (Activity σ) :=
  LawfulMonad.mk' _ bind_done (fun _ _ => rfl) bind_bind

/-! ### Activities by themselves -/

/-- What an activity comes to by itself, with its pauses left out; nothing if it has to wait for
another, or is made of parts that time or their number may cut short. -/
def alone {α : Type} : Activity σ α → σ → Option (α × σ)
  | done a, s => some (a, s)
  | act f next, s => (f s).bind fun r => alone (next r.1) r.2
  | sleep _ next, s => alone next s
  | limit .., _ => none
  | pool .., _ => none

/-- A run of an activity comes to a result. -/
def Gives (p : Activity σ α) (s : σ) (a : α) (s' : σ) : Prop := ∃ n, run n p s = some (a, s')

theorem alone_bind (p : Activity σ α) (g : α → Activity σ β) (s : σ) :
    (p.bind g).alone s = (p.alone s).bind fun r => (g r.1).alone r.2 := by
  match p with
  | done a => rfl
  | act f next =>
      simp only [bind, alone]
      cases f s with
      | none => rfl
      | some r => exact alone_bind (next r.1) g r.2
  | sleep ms next => exact alone_bind next g s
  | limit .. => rfl
  | pool .. => rfl

/-- More fuel changes nothing about a run that came to its end. -/
theorem run_mono {p : Activity σ α} {s : σ} {r : α × σ} {n m : Nat} (hn : n ≤ m)
    (h : run n p s = some r) : run m p s = some r := by
  induction n generalizing m p s with
  | zero => cases h
  | succ n ih =>
      obtain ⟨m, rfl⟩ : ∃ k, m = k + 1 := ⟨m - 1, by omega⟩
      simp only [run] at h ⊢
      cases hr : (settle p s).1.result? with
      | some a => simpa [hr] using h
      | none =>
          simp only [hr] at h ⊢
          cases hd : due (settle p s).1 (settle p s).2 with
          | none => simp [hd] at h
          | some ms =>
              simp only [hd, Option.bind_some] at h ⊢
              exact ih (by omega) h

theorem Gives.unique {p : Activity σ α} {s s₁ s₂ : σ} {a₁ a₂ : α} (h₁ : p.Gives s a₁ s₁)
    (h₂ : p.Gives s a₂ s₂) : a₁ = a₂ ∧ s₁ = s₂ := by
  obtain ⟨n, hn⟩ := h₁
  obtain ⟨m, hm⟩ := h₂
  have h := (run_mono (Nat.le_max_left n m) hn).symm.trans (run_mono (Nat.le_max_right n m) hm)
  simpa using h

/-- A step that can be taken is taken in no time. -/
theorem run_act {f : σ → Option (β × σ)} {next : β → Activity σ α} {s s' : σ} {b : β}
    (h : f s = some (b, s')) (n : Nat) : run n (act f next) s = run n (next b) s' := by
  cases n with
  | zero => rfl
  | succ n => simp only [run, settle, h]

/-- A pause costs at most one passing of time. -/
theorem run_sleep {ms n : Nat} {next : Activity σ α} {s : σ} {r : α × σ}
    (h : run n next s = some r) : run (n + 1) (sleep ms next) s = some r := by
  have passed : ∀ n, run n (sleep 0 next) s = run n next s := fun n => by
    cases n with
    | zero => rfl
    | succ n => simp only [run, settle, if_true]
  by_cases hms : ms = 0
  · subst hms
    rw [passed]
    exact run_mono (Nat.le_succ n) h
  · have hs : settle (sleep ms next) s = (sleep ms next, s) := by simp [settle, hms]
    simp only [run, hs, result?, due, elapse, Option.bind_some, Nat.sub_self]
    rw [passed, h]

theorem gives_of_alone {p : Activity σ α} {s s' : σ} {a : α} (h : p.alone s = some (a, s')) :
    p.Gives s a s' := by
  match p with
  | done a => exact ⟨1, h⟩
  | act f next =>
      simp only [alone] at h
      cases hf : f s with
      | none => simp [hf] at h
      | some r =>
          rw [hf] at h
          obtain ⟨n, hn⟩ := gives_of_alone (p := next r.1) h
          exact ⟨n, (run_act hf n).trans hn⟩
  | sleep ms next =>
      obtain ⟨n, hn⟩ := gives_of_alone (p := next) h
      exact ⟨n + 1, run_sleep hn⟩
  | limit .. => cases h
  | pool .. => cases h

/-- **Time does not matter to an activity by itself.** -/
theorem gives_iff_alone {p : Activity σ α} {s : σ} {r : α × σ} (h : p.alone s = some r) {a : α}
    {s' : σ} : p.Gives s a s' ↔ r = (a, s') := by
  refine ⟨fun g => ?_, ?_⟩
  · obtain ⟨rfl, rfl⟩ := (gives_of_alone h).unique g
    rfl
  · rintro rfl
    exact gives_of_alone h

end Activity

namespace Call

variable {σ τ α β : Type}

/-- What comes of a call. -/
def alone (c : Call σ α) (s : σ) : Option (Except Failure α × σ) := c.outcome.alone s

/-- A run of a call comes to an outcome. -/
def Gives (c : Call σ α) (s : σ) (r : Except Failure α) (s' : σ) : Prop := c.outcome.Gives s r s'

/-- The call comes to an outcome and a state with `Q`. -/
def Ends (c : Call σ α) (s : σ) (Q : Except Failure α → σ → Prop) : Prop :=
  ∃ r s', c.alone s = some (r, s') ∧ Q r s'

variable {c : Call σ α} {f : α → Call σ β} {s : σ} {Q : Except Failure α → σ → Prop}
  {R : Except Failure β → σ → Prop}

theorem Ends.imp {P : Except Failure α → σ → Prop} (h : c.Ends s P)
    (hPQ : ∀ r s', P r s' → Q r s') : c.Ends s Q := by
  obtain ⟨r, s', hc, hP⟩ := h
  exact ⟨r, s', hc, hPQ r s' hP⟩

/-- A call that ends comes to an outcome, and to that one only. -/
theorem Ends.gives (h : c.Ends s Q) :
    (∃ r s', c.Gives s r s') ∧ ∀ r s', c.Gives s r s' → Q r s' := by
  obtain ⟨r, s', hc, hQ⟩ := h
  refine ⟨⟨r, s', Activity.gives_of_alone hc⟩, fun r₁ s₁ g => ?_⟩
  cases (Activity.gives_iff_alone hc).1 g
  exact hQ

/-- A call that ends with one outcome comes to that. -/
theorem gives_of_ends {r : Except Failure α} {s' : σ}
    (h : c.Ends s fun r₁ s₁ => r₁ = r ∧ s₁ = s') : c.Gives s r s' := by
  obtain ⟨_, _, hc, rfl, rfl⟩ := h
  exact Activity.gives_of_alone hc

@[simp] theorem ends_pure {a : α} : (pure a : Call σ α).Ends s Q ↔ Q (.ok a) s :=
  ⟨fun ⟨_, _, h, hQ⟩ => by cases h; exact hQ, fun h => ⟨_, _, rfl, h⟩⟩

@[simp] theorem ends_throw {e : Failure} : (throw e : Call σ α).Ends s Q ↔ Q (.error e) s :=
  ⟨fun ⟨_, _, h, hQ⟩ => by cases h; exact hQ, fun h => ⟨_, _, rfl, h⟩⟩

theorem ends_of_alone {r : Except Failure α} {s' : σ} (h : c.alone s = some (r, s')) :
    c.Ends s Q ↔ Q r s' := by
  refine ⟨fun ⟨r₁, s₁, h₁, hQ⟩ => ?_, fun hQ => ⟨r, s', h, hQ⟩⟩
  cases h.symm.trans h₁
  exact hQ

theorem not_ends_of_alone (h : c.alone s = none) : ¬ c.Ends s Q :=
  fun ⟨_, _, h', _⟩ => nomatch h.symm.trans h'

/-- What a call that is followed by an activity comes to. -/
theorem alone_andThen (c : Call σ α) (g : Except Failure α → Activity σ β) (s : σ) :
    (c.outcome.bind g).alone s = (c.alone s).bind fun r => (g r.1).alone r.2 :=
  Activity.alone_bind c.outcome g s

/-- A failure ends the whole, a result is passed on. -/
@[simp] theorem ends_bind : (c >>= f).Ends s R ↔ c.Ends s fun r s' => match r with
    | .ok a => (f a).Ends s' R
    | .error e => R (.error e) s' := by
  have h : (c >>= f).alone s = (c.alone s).bind fun r => (match r.1 with
      | .ok a => (f a).alone r.2
      | .error e => some (.error e, r.2)) := by
    refine (alone_andThen c _ s).trans (congrArg _ (funext fun r => ?_))
    cases r.1 <;> rfl
  cases hc : c.alone s with
  | none =>
      rw [hc] at h
      exact iff_of_false (not_ends_of_alone h) (not_ends_of_alone hc)
  | some r =>
      rw [hc] at h
      rw [ends_of_alone hc]
      rcases r with ⟨e | a, s'⟩
      · exact ends_of_alone h
      · exact iff_of_eq (congrArg (fun o => ∃ r s', o = some (r, s') ∧ R r s') h)

/-- What succeeds has succeeded in both parts. -/
theorem alone_bind_eq_ok {b : β} {s' : σ} (h : (c >>= f).alone s = some (.ok b, s')) :
    ∃ a s₁, c.alone s = some (.ok a, s₁) ∧ (f a).alone s₁ = some (.ok b, s') := by
  have hends : (c >>= f).Ends s fun r t => r = .ok b ∧ t = s' := ⟨_, _, h, rfl, rfl⟩
  obtain ⟨r, s₁, hc, hf⟩ := ends_bind.1 hends
  cases r with
  | error e => cases hf.1
  | ok a =>
      obtain ⟨_, _, ha, rfl, rfl⟩ := hf
      exact ⟨a, s₁, hc, ha⟩

@[simp] theorem ends_map {g : α → β} :
    (g <$> c).Ends s R ↔ c.Ends s fun r s' => R (r.map g) s' := by
  have h : (g <$> c).alone s = (c.alone s).map fun r => (r.1.map g, r.2) := by
    refine (alone_andThen c _ s).trans ?_
    cases c.alone s with
    | none => rfl
    | some r => rcases r with ⟨_ | a, s'⟩ <;> rfl
  cases hc : c.alone s with
  | none =>
      rw [hc] at h
      exact iff_of_false (not_ends_of_alone h) (not_ends_of_alone hc)
  | some r =>
      rw [hc] at h
      rw [ends_of_alone h, ends_of_alone hc]

@[simp] theorem ends_discard {R : Except Failure Unit → σ → Prop} :
    (discard c).Ends s R ↔ c.Ends s fun r s' => R (r.map fun _ => ()) s' :=
  ends_map

@[simp] theorem ends_tryCatch {g : Failure → Call σ α} :
    (tryCatch c g).Ends s Q ↔ c.Ends s fun r s' => match r with
    | .ok a => Q (.ok a) s'
    | .error e => (g e).Ends s' Q := by
  have h : (tryCatch c g).alone s = (c.alone s).bind fun r => (match r.1 with
      | .ok a => some (.ok a, r.2)
      | .error e => (g e).alone r.2) := by
    refine (alone_andThen c _ s).trans (congrArg _ (funext fun r => ?_))
    cases r.1 <;> rfl
  cases hc : c.alone s with
  | none =>
      rw [hc] at h
      exact iff_of_false (not_ends_of_alone h) (not_ends_of_alone hc)
  | some r =>
      rw [hc] at h
      rw [ends_of_alone hc]
      rcases r with ⟨e | a, s'⟩
      · exact iff_of_eq (congrArg (fun o => ∃ r s', o = some (r, s') ∧ Q r s') h)
      · exact ends_of_alone h

/-- What succeeds has succeeded at once, or after a failure. -/
theorem alone_tryCatch_eq_ok {g : Failure → Call σ α} {a : α} {s' : σ}
    (h : (tryCatch c g).alone s = some (.ok a, s')) : c.alone s = some (.ok a, s') ∨
      ∃ e s₁, c.alone s = some (.error e, s₁) ∧ (g e).alone s₁ = some (.ok a, s') := by
  have hends : (tryCatch c g).Ends s fun r t => r = .ok a ∧ t = s' := ⟨_, _, h, rfl, rfl⟩
  obtain ⟨r, s₁, hc, hg⟩ := ends_tryCatch.1 hends
  cases r with
  | error e =>
      obtain ⟨_, _, ha, rfl, rfl⟩ := hg
      exact .inr ⟨e, s₁, hc, ha⟩
  | ok a' =>
      obtain ⟨hr, rfl⟩ := hg
      exact .inl (hr ▸ hc)

@[simp] theorem ends_ofExcept {x : Except Failure α} : (ofExcept x).Ends s Q ↔ Q x s := by
  cases x
  · exact ends_throw
  · exact ends_pure

theorem ends_ofActivity {p : Activity σ α} {a : α} {s' : σ} (h : p.alone s = some (a, s')) :
    (ofActivity p).Ends s Q ↔ Q (.ok a) s' := by
  refine ends_of_alone ((Activity.alone_bind p _ s).trans ?_)
  rw [h]
  rfl

theorem apply_of_ok {g : τ → Except Failure (α × τ)} {t t' : τ} {a : α} (h : g t = .ok (a, t')) :
    apply g t = (.ok a, t') := by
  simp [apply, h]

theorem apply_of_error {g : τ → Except Failure (α × τ)} {t : τ} {e : Failure}
    (h : g t = .error e) : apply g t = (.error e, t) := by
  simp [apply, h]

@[simp] theorem ends_query {part : Part σ τ} {f : τ → Except Failure α} :
    (query part f).Ends s Q ↔ Q (f (part.get s)) s :=
  ⟨fun ⟨_, _, h, hQ⟩ => by cases h; exact hQ, fun h => ⟨_, _, rfl, h⟩⟩

@[simp] theorem ends_update {part : Part σ τ} {f : τ → Except Failure (α × τ)} :
    (update part f).Ends s Q ↔ Q (apply f (part.get s)).1 (part.set (apply f (part.get s)).2 s) :=
  ⟨fun ⟨_, _, h, hQ⟩ => by cases h; exact hQ, fun h => ⟨_, _, rfl, h⟩⟩

end Call

end StreamPipeline
