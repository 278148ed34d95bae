import StreamPipeline.Proofs.Concurrent.Interleaving
import StreamPipeline.Simulation.CallLog

/-!
# Parts of the state that are spared

An activity spares a part of the state if it neither looks at it nor changes it
(`Activity.Spares`). Whoever changes that part meanwhile does not disturb the activity: it comes to
the same result, with the part as it was left (`Spares.alone_set`).

There is one lemma for each way to put calls together, so that a call is seen to spare a part by
what it is made of. A call of which one part alone does not spare a number adds to it what that part
adds (`Call.Adds`).
-/

namespace StreamPipeline

variable {σ τ υ α β : Type}

namespace Part

/-- What is set is there, and setting what is there changes nothing. -/
structure Lawful (q : Part σ τ) : Prop where
  get_set : ∀ t s, q.get (q.set t s) = t
  set_get : ∀ s, q.set (q.get s) s = s
  set_set : ∀ t t' s, q.set t (q.set t' s) = q.set t s

/-- A function on the state spares a part. -/
def Spared (q : Part σ τ) (f : σ → α × σ) : Prop :=
  ∀ t s, f (q.set t s) = ((f s).1, q.set t (f s).2)

/-- Two parts have nothing in common. -/
structure Apart (p : Part σ τ) (q : Part σ υ) : Prop where
  get_set : ∀ u s, p.get (q.set u s) = p.get s
  set_set : ∀ t u s, p.set t (q.set u s) = q.set u (p.set t s)

theorem Apart.lift {p : Part σ τ} {q : Part σ υ} (h : p.Apart q) (g : τ → α × τ) :
    q.Spared (p.lift g) := by
  intro u s
  unfold Part.lift
  rw [h.get_set]
  exact congrArg (Prod.mk _) (h.set_set _ u s)

end Part

namespace Activity

/-- An activity neither looks at a part of the state nor changes it. -/
inductive Spares {α : Type} (q : Part σ τ) : Activity σ α → Prop
  | done (a : α) : Spares q (done a)
  | act {β : Type} {f : σ → Option (β × σ)} {next : β → Activity σ α}
      (h : ∀ t s, f (q.set t s) = (f s).map fun r => (r.1, q.set t r.2))
      (hnext : ∀ b, Spares q (next b)) : Spares q (act f next)
  | sleep {ms : Nat} {next : Activity σ α} (hnext : Spares q next) : Spares q (sleep ms next)

variable {q : Part σ τ} {p : Activity σ α} {s s' : σ}

theorem spares_step {f : σ → α × σ} (h : q.Spared f) : (step f).Spares q :=
  .act (fun t s => congrArg some (h t s)) fun b => .done b

theorem spares_look {f : σ → α} (h : ∀ t s, f (q.set t s) = f s) : (look f).Spares q :=
  spares_step fun t s => congrArg (·, q.set t s) (h t s)

theorem Spares.bind {g : α → Activity σ β} (h : p.Spares q) (hg : ∀ a, (g a).Spares q) :
    (p.bind g).Spares q := by
  induction h with
  | done a => exact hg a
  | act h _ ih => exact .act h ih
  | sleep _ ih => exact .sleep ih

/-- What the activity comes to does not depend on the part, and leaves it. -/
theorem Spares.alone_set (h : p.Spares q) (t : τ) (s : σ) :
    p.alone (q.set t s) = (p.alone s).map fun r => (r.1, q.set t r.2) := by
  induction h generalizing s with
  | done a => rfl
  | @act β f next h _ ih =>
      rw [alone, alone, h]
      cases f s with
      | none => rfl
      | some r => exact ih r.1 r.2
  | sleep _ ih => exact ih s

theorem Spares.get_alone (h : p.Spares q) (hq : q.Lawful) {a : α} (ha : p.alone s = some (a, s')) :
    q.get s' = q.get s := by
  have hsame := h.alone_set (q.get s) s
  rw [hq.set_get, ha] at hsame
  obtain ⟨-, hs'⟩ := Prod.mk.inj (Option.some.inj hsame)
  rw [hs', hq.get_set]

/-- What is left of the activity spares the part as well. -/
theorem Spares.step {p' : Activity σ α} (h : p.Spares q) (hq : q.Lawful)
    (hstep : p.Step s p' s') : p'.Spares q ∧ q.get s' = q.get s := by
  cases h with
  | done a => exact absurd hstep not_step_done
  | act h hnext =>
      obtain ⟨b, hb, rfl⟩ := step_act_iff.1 hstep
      have hsame := h (q.get s) s
      rw [hq.set_get, hb] at hsame
      obtain ⟨-, hs'⟩ := Prod.mk.inj (Option.some.inj hsame)
      exact ⟨hnext b, by rw [hs', hq.get_set]⟩
  | sleep hnext =>
      cases hstep
      exact ⟨hnext, rfl⟩

end Activity

namespace Call

/-- A call neither looks at a part of the state nor changes it. -/
def Spares (q : Part σ τ) (c : Call σ α) : Prop := c.outcome.Spares q

variable {q : Part σ τ} {c : Call σ α} {f : α → Call σ β}

theorem spares_pure (a : α) : (pure a : Call σ α).Spares q := .done _

theorem spares_throw (e : Failure) : (throw e : Call σ α).Spares q := .done _

theorem spares_ofExcept (x : Except Failure α) : (ofExcept x).Spares q := by
  cases x with
  | ok a => exact spares_pure a
  | error e => exact spares_throw e

theorem spares_bind (h : c.Spares q) (hf : ∀ a, (f a).Spares q) : (c >>= f).Spares q := by
  refine Activity.Spares.bind h fun r => ?_
  cases r with
  | ok a => exact hf a
  | error e => exact .done _

theorem spares_tryCatch {g : Failure → Call σ α} (h : c.Spares q) (hg : ∀ e, (g e).Spares q) :
    (tryCatch c g).Spares q := by
  refine Activity.Spares.bind h fun r => ?_
  cases r with
  | ok a => exact .done _
  | error e => exact hg e

theorem spares_map {g : α → β} (h : c.Spares q) : (g <$> c).Spares q := by
  refine Activity.Spares.bind h fun r => ?_
  cases r <;> exact .done _

theorem spares_discard (h : c.Spares q) : (discard c).Spares q := spares_map h

theorem spares_ofActivity {p : Activity σ α} (h : p.Spares q) : (ofActivity p).Spares q :=
  h.bind fun _ => .done _

theorem spares_query {p : Part σ υ} (h : p.Apart q) (g : υ → Except Failure α) :
    (query p g).Spares q :=
  Activity.spares_look fun t s => congrArg g (h.get_set t s)

theorem spares_update {p : Part σ υ} (h : p.Apart q) (g : υ → Except Failure (α × υ)) :
    (update p g).Spares q :=
  Activity.spares_step (h.lift _)

theorem spares_noted {log : Part σ CallLog} (hlog : log.Apart q) (name : String)
    (h : c.Spares q) : (CallLog.noted log name c).Spares q := by
  refine spares_bind (spares_ofActivity (Activity.spares_step (hlog.lift _))) fun e => ?_
  cases e with
  | none => exact h
  | some e => exact spares_throw e

/-! ### Parts that count -/

/-- Where the call succeeds, it has added `n` to a part of the state. -/
def Adds (q : Part σ Nat) (n : Nat) (c : Call σ α) : Prop :=
  ∀ s a s', c.alone s = some (.ok a, s') → q.get s' = q.get s + n

variable {q : Part σ Nat} {n : Nat}

theorem adds_throw (e : Failure) : (throw e : Call σ α).Adds q n :=
  fun _ _ _ h => by cases h

/-- What goes before adds nothing. -/
theorem adds_of_spares_bind (hq : q.Lawful) (h : c.Spares q) (hf : ∀ a, (f a).Adds q n) :
    (c >>= f).Adds q n := by
  intro s b s' hb
  obtain ⟨a, s₁, ha, hb⟩ := alone_bind_eq_ok hb
  rw [hf a s₁ b s' hb, Activity.Spares.get_alone h hq ha]

/-- What comes behind adds nothing. -/
theorem adds_of_bind_spares (hq : q.Lawful) (h : c.Adds q n) (hf : ∀ a, (f a).Spares q) :
    (c >>= f).Adds q n := by
  intro s b s' hb
  obtain ⟨a, s₁, ha, hb⟩ := alone_bind_eq_ok hb
  rw [Activity.Spares.get_alone (hf a) hq hb, h s a s₁ ha]

/-- A failure that is told and passed on. -/
theorem adds_tryCatch_told (h : c.Adds q n) (tell : Failure → Call σ Unit) :
    (tryCatch c fun e => do tell e; throw e).Adds q n := by
  intro s a s' ha
  rcases alone_tryCatch_eq_ok ha with ha | ⟨e, s₁, -, ha⟩
  · exact h s a s' ha
  · obtain ⟨_, _, -, hthrow⟩ := alone_bind_eq_ok ha
    cases hthrow

end Call

end StreamPipeline
