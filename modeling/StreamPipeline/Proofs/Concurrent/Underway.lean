import StreamPipeline.Proofs.Concurrent.Interleaving

/-!
# What holds while a call is under way

An activity that nothing disturbs goes through the same states whatever time its pauses take. Where
`P` holds of each state in which it acts and `Q` of what it comes to, it passes (`Call.Passes`): it
ends with `Q` (`Passes.ends`), and whoever looks at the state meanwhile finds `P` (`Passes.here`,
`Passes.step`). There is one equivalence for each way to put calls together. A call that only looks
at the state (`Call.Looks`) passes through nothing but that.
-/

namespace StreamPipeline

namespace Activity

variable {σ α β : Type} {P : σ → Prop} {Q : α → σ → Prop} {p q : Activity σ α} {s s' : σ}

/-- By itself the activity comes to its end with `Q`, and acts in states with `P` only. -/
inductive Passes (P : σ → Prop) (Q : α → σ → Prop) : Activity σ α → σ → Prop
  | done {a : α} {s : σ} (h : Q a s) : Passes P Q (done a) s
  | act {β : Type} {f : σ → Option (β × σ)} {next : β → Activity σ α} {s s' : σ} {b : β}
      (hP : P s) (hf : f s = some (b, s')) (h : Passes P Q (next b) s') : Passes P Q (act f next) s
  | sleep {ms : Nat} {next : Activity σ α} {s : σ} (hP : P s) (h : Passes P Q next s) :
      Passes P Q (sleep ms next) s

theorem Passes.imp {P' : σ → Prop} {Q' : α → σ → Prop} (h : p.Passes P Q s)
    (hP : ∀ s, P s → P' s) (hQ : ∀ a s, Q a s → Q' a s) : p.Passes P' Q' s := by
  induction h with
  | done h => exact .done (hQ _ _ h)
  | act hs hf _ ih => exact .act (hP _ hs) hf ih
  | sleep hs _ ih => exact .sleep (hP _ hs) ih

/-- Where the end is as the way, so is the beginning. -/
theorem Passes.here (h : p.Passes P Q s) (hQ : ∀ a s, Q a s → P s) : P s := by
  cases h with
  | done h => exact hQ _ _ h
  | act hP => exact hP
  | sleep hP => exact hP

theorem Passes.step (h : p.Passes P Q s) (hstep : p.Step s q s') : q.Passes P Q s' := by
  cases hstep with
  | act hf' =>
      cases h with
      | act _ hf h =>
          obtain ⟨rfl, rfl⟩ := Prod.mk.inj (Option.some.inj (hf'.symm.trans hf))
          exact h
  | sleep =>
      cases h with
      | sleep _ h => exact h

theorem Passes.alone (h : p.Passes P Q s) : ∃ a s', p.alone s = some (a, s') ∧ Q a s' := by
  induction h with
  | done h => exact ⟨_, _, rfl, h⟩
  | act _ hf _ ih =>
      obtain ⟨a, s', ha, hQ⟩ := ih
      exact ⟨a, s', by rw [Activity.alone, hf, Option.bind_some, ha], hQ⟩
  | sleep _ _ ih => exact ih

theorem passes_done {a : α} : (done a).Passes P Q s ↔ Q a s :=
  ⟨fun h => by cases h with | done h => exact h, .done⟩

theorem passes_act {f : σ → Option (β × σ)} {next : β → Activity σ α} {b : β}
    (hf : f s = some (b, s')) : (act f next).Passes P Q s ↔ P s ∧ (next b).Passes P Q s' := by
  refine ⟨fun h => ?_, fun ⟨hP, h⟩ => .act hP hf h⟩
  cases h with
  | act hP hf' h =>
      obtain ⟨rfl, rfl⟩ := Prod.mk.inj (Option.some.inj (hf.symm.trans hf'))
      exact ⟨hP, h⟩

theorem passes_sleep {ms : Nat} {next : Activity σ α} :
    (sleep ms next).Passes P Q s ↔ P s ∧ next.Passes P Q s :=
  ⟨fun h => by cases h with | sleep hP h => exact ⟨hP, h⟩, fun ⟨hP, h⟩ => .sleep hP h⟩

theorem passes_bind {R : β → σ → Prop} (p : Activity σ α) (g : α → Activity σ β) (s : σ) :
    (p.bind g).Passes P R s ↔ p.Passes P (fun a s' => (g a).Passes P R s') s := by
  match p with
  | done a => exact (passes_done (Q := fun a s => (g a).Passes P R s)).symm
  | act f next =>
      cases hf : f s with
      | none =>
          constructor
          all_goals
            intro h
            cases h with
            | act _ hf' => cases hf.symm.trans hf'
      | some r =>
          exact (passes_act hf).trans
            ((and_congr_right' (passes_bind (next r.1) g r.2)).trans (passes_act hf).symm)
  | sleep ms next =>
      exact passes_sleep.trans ((and_congr_right' (passes_bind next g s)).trans passes_sleep.symm)
  | limit .. => exact iff_of_false nofun nofun
  | pool .. => exact iff_of_false nofun nofun

/-- What is kept by every step of an activity that nothing disturbs is so at its end. -/
theorem kept_of_alone {C : Activity σ α → σ → Prop}
    (hC : ∀ p s q s', C p s → p.Step s q s' → C q s') {p : Activity σ α} {a : α}
    {s : σ} (h : C p s) (hp : p.alone s = some (a, s')) : C (done a) s' := by
  match p with
  | done b =>
      cases hp
      exact h
  | act f next =>
      obtain ⟨r, hf, hr⟩ := Option.bind_eq_some_iff.1 hp
      have hstep : (act f next).Step s (next r.1) r.2 := .act hf
      exact kept_of_alone hC (hC _ _ _ _ h hstep) hr
  | sleep ms next => exact kept_of_alone hC (hC _ _ _ _ h .sleep) hp
  | limit .. => cases hp
  | pool .. => cases hp

end Activity

namespace Call

variable {σ τ α β : Type} {P : σ → Prop} {c : Call σ α} {f : α → Call σ β} {s : σ}
  {Q : Except Failure α → σ → Prop} {R : Except Failure β → σ → Prop}

/-- The call acts in states with `P` only, and comes to an outcome and a state with `Q`. -/
def Passes (c : Call σ α) (s : σ) (P : σ → Prop) (Q : Except Failure α → σ → Prop) : Prop :=
  c.outcome.Passes P Q s

theorem Passes.ends (h : c.Passes s P Q) : c.Ends s Q := Activity.Passes.alone h

theorem Passes.imp {P' : σ → Prop} {Q' : Except Failure α → σ → Prop} (h : c.Passes s P Q)
    (hP : ∀ s, P s → P' s) (hQ : ∀ r s, Q r s → Q' r s) : c.Passes s P' Q' :=
  Activity.Passes.imp h hP hQ

@[simp] theorem passes_pure {a : α} : (pure a : Call σ α).Passes s P Q ↔ Q (.ok a) s :=
  Activity.passes_done

@[simp] theorem passes_throw {e : Failure} :
    (throw e : Call σ α).Passes s P Q ↔ Q (.error e) s :=
  Activity.passes_done

/-- Activities that do the same from each outcome on pass alike. -/
theorem passes_andThen {g : Except Failure α → Activity σ (Except Failure β)}
    {T : Except Failure α → σ → Prop} (hg : ∀ r s, (g r).Passes P R s ↔ T r s) :
    (c.outcome.bind g).Passes P R s ↔ c.Passes s P T := by
  rw [Activity.passes_bind]
  exact iff_of_eq (congrArg (c.outcome.Passes P · s) (funext fun r => funext fun s =>
    propext (hg r s)))

@[simp] theorem passes_bind : (c >>= f).Passes s P R ↔ c.Passes s P fun r s' => match r with
    | .ok a => (f a).Passes s' P R
    | .error e => R (.error e) s' := by
  refine passes_andThen fun r s => ?_
  cases r with
  | error e => exact Activity.passes_done
  | ok a => exact Iff.rfl

@[simp] theorem passes_map {g : α → β} :
    (g <$> c).Passes s P R ↔ c.Passes s P fun r s' => R (r.map g) s' := by
  refine passes_andThen fun r s => ?_
  cases r <;> exact Activity.passes_done

@[simp] theorem passes_discard {R : Except Failure Unit → σ → Prop} :
    (discard c).Passes s P R ↔ c.Passes s P fun r s' => R (r.map fun _ => ()) s' :=
  passes_map

@[simp] theorem passes_tryCatch {g : Failure → Call σ α} :
    (tryCatch c g).Passes s P Q ↔ c.Passes s P fun r s' => match r with
    | .ok a => Q (.ok a) s'
    | .error e => (g e).Passes s' P Q := by
  refine passes_andThen fun r s => ?_
  cases r with
  | error e => exact Iff.rfl
  | ok a => exact Activity.passes_done

@[simp] theorem passes_ofExcept {x : Except Failure α} : (ofExcept x).Passes s P Q ↔ Q x s := by
  cases x
  · exact passes_throw
  · exact passes_pure

/-- A step that can always be taken is taken in one state and leads to another. -/
@[simp] theorem passes_step {g : σ → Except Failure α × σ} :
    (ofOutcome (Activity.step g)).Passes s P Q ↔ P s ∧ Q (g s).1 (g s).2 :=
  (Activity.passes_act rfl).trans (and_congr_right' Activity.passes_done)

theorem passes_ofActivity_step {g : σ → α × σ} :
    (ofActivity (Activity.step g)).Passes s P Q ↔ P s ∧ Q (.ok (g s).1) (g s).2 :=
  (Activity.passes_act rfl).trans (and_congr_right' Activity.passes_done)

theorem passes_pause {ms : Nat} {Q : Except Failure Unit → σ → Prop} :
    (ofActivity (Activity.pause ms)).Passes s P Q ↔ P s ∧ Q (.ok ()) s :=
  Activity.passes_sleep.trans (and_congr_right' Activity.passes_done)

/-- The call only looks at the state, and comes to an outcome. -/
def Looks (c : Call σ α) (s : σ) (r : Except Failure α) : Prop :=
  c.Passes s (· = s) fun r' s' => r' = r ∧ s' = s

variable {r : Except Failure α}

theorem Looks.passes (h : c.Looks s r) (hP : P s) (hQ : Q r s) : c.Passes s P Q := by
  refine Passes.imp h ?_ ?_
  · rintro _ rfl
    exact hP
  · rintro _ _ ⟨rfl, rfl⟩
    exact hQ

theorem Looks.gives (h : c.Looks s r) : c.Gives s r s := gives_of_ends h.ends

theorem Looks.ends_iff (h : c.Looks s r) : c.Ends s Q ↔ Q r s := by
  obtain ⟨_, _, hc, rfl, rfl⟩ := h.ends
  exact ends_of_alone hc

end Call

end StreamPipeline
