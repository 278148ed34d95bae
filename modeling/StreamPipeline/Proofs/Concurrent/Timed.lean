import StreamPipeline.Proofs.Concurrent.Progress

/-!
# Runs of activities in time

An activity that acts as long as it can, and then lets time pass, takes single steps
(`goes_settle`, `goes_elapse`). So a run is made of steps (`steps_of_run`), and each of its rounds
leaves less to be done (`behind_round`).

**A pool of limited activities comes to its end** (`LimitedAll.exists_gives`), because one of them
always waits for time.
-/

namespace StreamPipeline

namespace Activity

open Relation (TransGen ReflTransGen)

variable {σ α β : Type}

/-! ### What happens in no time -/

theorem within {n : Nat} {part part' : Activity σ β} (next : Option β → Activity σ α) {s s' : σ}
    (h : TransGen Next (part, s) (part', s')) :
    TransGen Next (limit n part next, s) (limit n part' next, s') :=
  h.lift (fun x : Activity σ β × σ => (limit n x.1 next, x.2)) fun _ _ h => Advances.within h

theorem among {slots : Nat} {parts parts' : Activities σ β} (next : List β → Activity σ α)
    {s s' : σ} (h : TransGen (NextAll slots) (parts, s) (parts', s')) :
    TransGen Next (pool slots parts next, s) (pool slots parts' next, s') :=
  h.lift (fun x : Activities σ β × σ => (pool slots x.1 next, x.2)) fun _ _ h => Advances.among h

theorem first {slots : Nat} {p p' : Activity σ α} (ps : Activities σ α) {s s' : σ}
    (h : TransGen Next (p, s) (p', s')) :
    TransGen (NextAll (slots + 1)) (.cons p ps, s) (.cons p' ps, s') :=
  h.lift (fun x : Activity σ α × σ => (Activities.cons x.1 ps, x.2)) fun _ _ h => .head h

theorem others {slots : Nat} (p : Activity σ α) {ps ps' : Activities σ α} {s s' : σ}
    (h : TransGen (NextAll (if p.result?.isSome then slots + 1 else slots)) (ps, s) (ps', s')) :
    TransGen (NextAll (slots + 1)) (.cons p ps, s) (.cons p ps', s') :=
  h.lift (fun x : Activities σ α × σ => (Activities.cons p x.1, x.2)) fun _ _ h => .tail h

/-- The time until something can happen to some activities is that of one of them. -/
theorem mem_dueAll_cons {slots m : Nat} {p : Activity σ α} {ps : Activities σ α} {s : σ}
    (h : m ∈ dueAll (slots + 1) (.cons p ps) s) : p.result? = none ∧ m ∈ due p s ∨
      m ∈ dueAll (if p.result?.isSome then slots + 1 else slots) ps s := by
  simp only [dueAll, if_neg (Nat.succ_ne_zero slots), Nat.add_sub_cancel] at h
  cases hdone : p.result? with
  | some a => exact .inr (by simpa [hdone] using h)
  | none =>
      rw [if_neg (by simp)]
      simp only [hdone, Option.isSome_none, Bool.false_eq_true, if_false] at h
      cases hp : due p s with
      | none => exact .inr (by simpa [hp] using h)
      | some m₁ =>
          cases hps : dueAll slots ps s with
          | none => exact .inl ⟨rfl, by simpa [hp, hps] using h⟩
          | some m₂ =>
              rw [hp, hps] at h
              obtain rfl := Option.some.inj h
              rcases Nat.le_total m₁ m₂ with hle | hle
              · exact .inl ⟨rfl, congrArg some (Nat.min_eq_left hle).symm⟩
              · exact .inr (congrArg some (Nat.min_eq_right hle).symm)

/-- Something happens on the way from `x` to `y`, or they are the same and `P` holds. -/
def Goes {τ : Type*} (r : τ → τ → Prop) (P : Prop) (x y : τ) : Prop := y = x ∧ P ∨ TransGen r x y

theorem Goes.lift {τ υ : Type*} {r : τ → τ → Prop} {r' : υ → υ → Prop} {P P' : Prop} {x y : τ}
    (f : τ → υ) (h : Goes r P x y) (hf : TransGen r x y → TransGen r' (f x) (f y))
    (hP : y = x → P → P') : Goes r' P' (f x) (f y) :=
  h.imp (fun ⟨hy, hp⟩ => ⟨congrArg f hy, hP hy hp⟩) hf

/-- Something has happened if it happens behind some way. -/
theorem Goes.step {τ : Type*} {r : τ → τ → Prop} {P Q : Prop} {x y z w : τ} (h : Goes r P x y)
    (hstep : r y z) (h' : Goes r Q z w) : TransGen r x w := by
  have hw : TransGen r y w := by
    rcases h' with ⟨rfl, -⟩ | h'
    · exact .single hstep
    · exact .head hstep h'
  rcases h with ⟨rfl, -⟩ | h
  · exact hw
  · exact h.trans hw

mutual

/-- Something happens to an activity that acts as long as it can, or nothing can happen at once. -/
theorem goes_settle {α : Type} (p : Activity σ α) (s : σ) :
    Goes Next (p.result? = none → due p s ≠ some 0) (p, s) (settle p s) := by
  match p with
  | act f next =>
      simp only [settle, due]
      cases hf : f s with
      | none => exact .inl ⟨rfl, by simp⟩
      | some r =>
          have hstep : Next (act f next, s) (next r.1, r.2) := .act hf
          exact .inr (Goes.step (P := True) (.inl ⟨rfl, trivial⟩) hstep (goes_settle _ _))
  | sleep n next =>
      simp only [settle, due]
      split
      · rename_i hn
        subst hn
        have hstep : Next (sleep 0 next, s) (next, s) := .wakes
        exact .inr (Goes.step (P := True) (.inl ⟨rfl, trivial⟩) hstep (goes_settle next s))
      · rename_i hn
        exact .inl ⟨rfl, fun _ h => hn (Option.some.inj h)⟩
  | limit n part next =>
      have hpart := goes_settle part s
      simp only [settle]
      cases hresult : (settle part s).1.result? with
      | some b =>
          have hstep : Next (limit n (settle part s).1 next, (settle part s).2)
              (next (some b), (settle part s).2) := by
            rw [eq_done_of_result? hresult]
            exact .inTime
          exact .inr ((hpart.lift (fun x => (limit n x.1 next, x.2)) (within next)
            fun _ _ => trivial).step hstep (goes_settle _ _))
      | none =>
          dsimp only
          split
          · rename_i hn
            subst hn
            have hstep : Next (limit 0 (settle part s).1 next, (settle part s).2)
                (next none, (settle part s).2) := .tooLate
            exact .inr ((hpart.lift (fun x => (limit 0 x.1 next, x.2)) (within next)
              fun _ _ => trivial).step hstep (goes_settle _ _))
          · rename_i hn
            refine hpart.lift (fun x => (limit n x.1 next, x.2)) (within next) ?_
            intro heq hdue _
            rw [heq] at hresult
            cases hm : due part s with
            | none => simpa [due, hm] using hn
            | some m =>
                have hm' : m ≠ 0 := fun h => hdue hresult (h ▸ hm)
                simp only [due, hm, Option.elim_some, ne_eq, Option.some.injEq]
                omega
  | pool slots parts next =>
      have hparts := goesAll_settle slots parts s
      simp only [settle]
      cases hresults : results? (settleAll slots parts s).1 with
      | some bs =>
          have hstep : Next (pool slots (settleAll slots parts s).1 next,
              (settleAll slots parts s).2) (next bs, (settleAll slots parts s).2) :=
            .joined hresults
          exact .inr ((hparts.lift (fun x => (pool slots x.1 next, x.2)) (among next)
            fun _ _ => trivial).step hstep (goes_settle _ _))
      | none =>
          refine hparts.lift (fun x => (pool slots x.1 next, x.2)) (among next) ?_
          exact fun _ hdue _ => hdue
  | done a => exact .inl ⟨rfl, nofun⟩

theorem goesAll_settle {α : Type} (slots : Nat) (ps : Activities σ α) (s : σ) :
    Goes (NextAll slots) (dueAll slots ps s ≠ some 0) (ps, s) (settleAll slots ps s) := by
  match ps with
  | .nil => exact .inl ⟨rfl, nofun⟩
  | .cons p ps =>
      cases slots with
      | zero => exact .inl ⟨by simp [settleAll], by simp [dueAll]⟩
      | succ slots =>
          simp only [settleAll, if_neg (Nat.succ_ne_zero slots), Nat.add_sub_cancel]
          have hp := goes_settle p s
          have hps := goesAll_settle (if (settle p s).1.result?.isSome then slots + 1 else slots) ps
            (settle p s).2
          rcases hp with ⟨hp, hdue⟩ | hp
          · simp only [hp] at hps ⊢
            refine hps.lift (fun x => (Activities.cons p x.1, x.2)) (others p) ?_
            intro _ hdue' h
            rcases mem_dueAll_cons h with ⟨hdone, h⟩ | h
            · exact hdue hdone h
            · exact hdue' h
          · refine .inr ?_
            rcases hps with ⟨heq, -⟩ | hps
            · rw [heq]
              exact first ps hp
            · exact (first ps hp).trans (others _ hps)

end

mutual

/-- Something happens to an activity when time passes, or it does not wait for time. -/
theorem goes_elapse {α : Type} (ms : Nat) (p : Activity σ α) (s : σ) :
    Goes Next (0 < ms → ∀ m ∈ due p s, m = 0) (p, s) (elapse ms p, s) := by
  match p with
  | act f next =>
      refine .inl ⟨rfl, fun _ m hm => ?_⟩
      simp only [due, Option.mem_def] at hm
      split at hm
      · exact (Option.some.inj hm).symm
      · cases hm
  | sleep n next =>
      simp only [elapse]
      rcases Nat.eq_or_lt_of_le (Nat.sub_le n ms) with h | h
      · refine .inl ⟨by rw [h], fun hms m hm => ?_⟩
        obtain rfl := Option.some.inj hm
        omega
      · exact .inr (.single (Advances.sleeps h))
  | limit n part next =>
      have hpart := goes_elapse ms part s
      simp only [elapse]
      rcases Nat.eq_or_lt_of_le (Nat.sub_le n ms) with h | h
      · rw [h]
        refine hpart.lift (fun x => (limit n x.1 next, x.2)) (within next) ?_
        intro _ _ hms m hm
        obtain rfl : n = 0 := by omega
        simp only [due, Option.mem_def, Option.some.injEq] at hm
        cases hd : due part s <;> simp [hd] at hm <;> omega
      · have hstep : Next (limit n (elapse ms part) next, s)
            (limit (n - ms) (elapse ms part) next, s) := .passes h
        exact .inr ((hpart.lift (fun x => (limit n x.1 next, x.2)) (within next)
          fun _ _ => trivial).step hstep (Q := True) (.inl ⟨rfl, trivial⟩))
  | pool slots parts next =>
      refine (goesAll_elapse ms slots parts s).lift (fun x => (pool slots x.1 next, x.2))
        (among next) ?_
      exact fun _ hdue => hdue
  | done a => exact .inl ⟨rfl, fun _ m hm => (Option.some.inj hm).symm⟩

theorem goesAll_elapse {α : Type} (ms slots : Nat) (ps : Activities σ α) (s : σ) :
    Goes (NextAll slots) (0 < ms → ∀ m ∈ dueAll slots ps s, m = 0) (ps, s)
      (elapseAll ms slots ps, s) := by
  match ps with
  | .nil => exact .inl ⟨rfl, nofun⟩
  | .cons p ps =>
      cases slots with
      | zero => exact .inl ⟨by simp [elapseAll], by simp [dueAll]⟩
      | succ slots =>
          simp only [elapseAll, if_neg (Nat.succ_ne_zero slots), Nat.add_sub_cancel]
          have hp := goes_elapse ms p s
          have hps := goesAll_elapse ms (if p.result?.isSome then slots + 1 else slots) ps s
          rcases hps with ⟨hps, hdue⟩ | hps
          · rw [(Prod.mk.inj hps).1]
            refine hp.lift (fun x => (Activities.cons x.1 ps, x.2)) (first ps) ?_
            intro _ hdue' hms m hm
            rcases mem_dueAll_cons hm with ⟨-, hm⟩ | hm
            · exact hdue' hms m hm
            · exact hdue hms m hm
          · refine .inr ?_
            rcases hp with ⟨hp, -⟩ | hp
            · rw [(Prod.mk.inj hp).1]
              exact others p hps
            · exact (others p hps).trans (first _ hp)

end

/-! ### Runs -/

theorem Goes.steps {τ : Type*} {r : τ → τ → Prop} {P : Prop} {x y : τ} (h : Goes r P x y) :
    ReflTransGen r x y := by
  rcases h with ⟨rfl, -⟩ | h
  · exact .refl
  · exact h.to_reflTransGen

/-- A run is made of steps. -/
theorem steps_of_run {n : Nat} {p : Activity σ α} {s s' : σ} {a : α}
    (h : run n p s = some (a, s')) : ReflTransGen Next (p, s) (done a, s') := by
  induction n generalizing p s with
  | zero => cases h
  | succ n ih =>
      have hsettle := (goes_settle p s).steps
      simp only [run] at h
      cases hresult : (settle p s).1.result? with
      | some b =>
          simp only [hresult, Option.some.injEq, Prod.mk.injEq] at h
          obtain ⟨rfl, rfl⟩ := h
          exact eq_done_of_result? hresult ▸ hsettle
      | none =>
          simp only [hresult] at h
          obtain ⟨ms, -, h⟩ := Option.bind_eq_some_iff.1 h
          exact (hsettle.trans (goes_elapse ms _ _).steps).trans (ih h)

/-- Each round of a run leaves less to be done. -/
theorem behind_round {p : Activity σ α} {s : σ} {ms : Nat}
    (hresult : (settle p s).1.result? = none)
    (hms : due (settle p s).1 (settle p s).2 = some ms) :
    TransGen Behind (elapse ms (settle p s).1) p := by
  have helapse := goes_elapse ms (settle p s).1 (settle p s).2
  rcases goes_settle p s with ⟨hsettle, hdue⟩ | hsettle
  · rw [hsettle] at hresult hms helapse ⊢
    rcases helapse with ⟨-, hnone⟩ | helapse
    · rcases Nat.eq_zero_or_pos ms with rfl | hpos
      · exact absurd hms (hdue hresult)
      · exact absurd (hnone hpos ms hms) (Nat.ne_of_gt hpos)
    · exact behind_of_steps helapse
  · rcases helapse with ⟨heq, -⟩ | helapse
    · rw [(Prod.mk.inj heq).1]
      exact behind_of_steps hsettle
    · exact behind_of_steps (hsettle.trans helapse)

/-! ### Pools -/

/-- Limited activities that are not done wait for time. -/
theorem LimitedAll.exists_due {slots : Nat} {ps : Activities σ α} (h : LimitedAll ps)
    (hslots : 0 < slots) (hresults : results? ps = none) (s : σ) :
    ∃ ms, dueAll slots ps s = some ms := by
  obtain ⟨slots, rfl⟩ := Nat.exists_eq_add_one_of_ne_zero (Nat.ne_of_gt hslots)
  induction h with
  | nil => cases hresults
  | @cons p ps hp hps ih =>
      cases hp with
      | done a =>
          have hrest : results? ps = none := by
            cases hrest : results? ps with
            | none => rfl
            | some as => cases hresults.symm.trans (results?_cons_iff.2 ⟨a, as, rfl, hrest, rfl⟩)
          simpa [dueAll, result?] using ih hrest
      | limit n part _ =>
          simp only [dueAll, result?, due, if_neg (Nat.succ_ne_zero slots), Nat.add_sub_cancel]
          cases dueAll slots ps s with
          | none | some => exact ⟨_, rfl⟩

/-- A pool whose parts have all come to their ends settles to what follows from their results. -/
theorem settle_pool_of_some {slots : Nat} {ps : Activities σ β} {g : List β → α} {s : σ}
    {bs : List β} (h : results? (settleAll slots ps s).1 = some bs) :
    settle (pool slots ps fun bs => done (g bs)) s = (done (g bs), (settleAll slots ps s).2) := by
  simp only [settle, h]

theorem settle_pool_of_none {slots : Nat} {ps : Activities σ β} {next : List β → Activity σ α}
    {s : σ} (h : results? (settleAll slots ps s).1 = none) :
    settle (pool slots ps next) s =
      (pool slots (settleAll slots ps s).1 next, (settleAll slots ps s).2) := by
  simp only [settle, h]

/-- **A pool of limited activities comes to its end.** -/
theorem LimitedAll.exists_gives {slots : Nat} {ps : Activities σ β} (h : LimitedAll ps)
    (hslots : 0 < slots) (g : List β → α) (s : σ) :
    ∃ a s', (pool slots ps fun bs => done (g bs)).Gives s a s' := by
  suffices hall : ∀ (p : Activity σ α) ps s, p = pool slots ps (fun bs => done (g bs)) →
      LimitedAll ps → ∃ a s', p.Gives s a s' from hall _ ps s rfl h
  intro p
  induction p using (WellFounded.transGen ⟨acc_behind⟩).induction with
  | _ p ih =>
    rintro ps s rfl h
    have hsettled := h.of_steps (goesAll_settle slots ps s).steps
    cases hresults : results? (settleAll slots ps s).1 with
    | some bs =>
        have hsettle := settle_pool_of_some (g := g) hresults
        exact ⟨g bs, (settleAll slots ps s).2, 1, by simp only [run, hsettle, result?]⟩
    | none =>
        have hsettle : settle (pool slots ps fun bs => done (g bs)) s = _ :=
          settle_pool_of_none hresults
        obtain ⟨ms, hms⟩ := hsettled.exists_due hslots hresults (settleAll slots ps s).2
        have hbehind : TransGen Behind (elapse ms (settle (pool slots ps _) s).1) _ :=
          behind_round (by rw [hsettle]; rfl) (by rw [hsettle]; exact hms)
        rw [hsettle] at hbehind
        -- a round of the run leaves limited parts of a pool again
        have helapsed := hsettled.of_steps
          (goesAll_elapse ms slots _ (settleAll slots ps s).2).steps
        obtain ⟨a, s', n, hn⟩ := ih _ hbehind _ (settleAll slots ps s).2 rfl helapsed
        refine ⟨a, s', n + 1, ?_⟩
        simp only [run, hsettle, result?, due, hms, Option.bind_some]
        exact hn

end Activity

end StreamPipeline
