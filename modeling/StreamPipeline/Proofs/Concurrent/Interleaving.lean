import Mathlib.Logic.Hydra
import StreamPipeline.Proofs.Concurrent.Alone

/-!
# Activities that take turns

Tasks at once are a list of activities on one state. One of them acts at a time (`Turn`): it takes a
step that the state lets it take, or ends a pause, which may be at any moment. Whatever can happen
to the tasks is a sequence of turns (`Interleaves`); the activities in question have no parts that
run at once and no limits.

**No tasks take turns for ever** (`not_forever`). So where one of them can always act, until all
are done, they can all be brought to their end (`Interleaves.exists_done`).
-/

namespace StreamPipeline

/-- One element of a list changes, and a state with it. -/
inductive OneOf {A σ : Type*} (R : A → σ → A → σ → Prop) : List A → σ → List A → σ → Prop
  | head {a b : A} {as : List A} {s s' : σ} (h : R a s b s') : OneOf R (a :: as) s (b :: as) s'
  | tail {a : A} {as bs : List A} {s s' : σ} (h : OneOf R as s bs s') :
      OneOf R (a :: as) s (a :: bs) s'

namespace OneOf

variable {A B σ : Type*} {R : A → σ → A → σ → Prop} {S : B → σ → B → σ → Prop} {s s' : σ}

theorem imp {R' : A → σ → A → σ → Prop} (hR : ∀ a s b s', R a s b s' → R' a s b s')
    {as bs : List A} (h : OneOf R as s bs s') : OneOf R' as s bs s' := by
  induction h with
  | head h => exact .head (hR _ _ _ _ h)
  | tail _ ih => exact .tail ih

/-- All other elements stay as they are. -/
theorem exists_between {as bs : List A} (h : OneOf R as s bs s') :
    ∃ before a b after, as = before ++ a :: after ∧ bs = before ++ b :: after ∧ R a s b s' := by
  induction h with
  | head h => exact ⟨[], _, _, _, rfl, rfl, h⟩
  | @tail c _ _ _ _ _ ih =>
      obtain ⟨before, a, b, after, rfl, rfl, h⟩ := ih
      exact ⟨c :: before, a, b, after, rfl, rfl, h⟩

/-- All other elements stay, whatever their order. -/
theorem perm {as bs : List A} (h : OneOf R as s bs s') :
    ∃ a b rest, as.Perm (a :: rest) ∧ bs.Perm (b :: rest) ∧ R a s b s' := by
  obtain ⟨before, a, b, after, rfl, rfl, hab⟩ := h.exists_between
  exact ⟨a, b, before ++ after, List.perm_middle, List.perm_middle, hab⟩

theorem length_eq {as bs : List A} (h : OneOf R as s bs s') : bs.length = as.length := by
  obtain ⟨a, b, rest, has, hbs, -⟩ := h.perm
  rw [has.length_eq, hbs.length_eq, List.length_cons, List.length_cons]

/-- Where one element can change, the list can. -/
theorem exists_of_mem {as : List A} {a b : A} (ha : a ∈ as) (h : R a s b s') :
    ∃ bs, OneOf R as s bs s' := by
  induction as with
  | nil => cases ha
  | cons c as ih =>
      rcases List.mem_cons.1 ha with rfl | ha
      · exact ⟨_, .head h⟩
      · obtain ⟨bs, hbs⟩ := ih ha
        exact ⟨_, .tail hbs⟩

/-- What no change of an element touches is as it was all over the list. -/
theorem map_eq {f : A → B} (hf : ∀ a s b s', R a s b s' → f b = f a) {as bs : List A}
    (h : OneOf R as s bs s') : bs.map f = as.map f := by
  induction h with
  | head h => rw [List.map_cons, List.map_cons, hf _ _ _ _ h]
  | tail _ ih => rw [List.map_cons, List.map_cons, ih]

/-- One element changes wherever it stands. -/
theorem between {a b : A} (h : R a s b s') (before after : List A) :
    OneOf R (before ++ a :: after) s (before ++ b :: after) s' := by
  induction before with
  | nil => exact .head h
  | cons c before ih => exact .tail ih

/-- One element changes in its place. -/
theorem iff_set {as bs : List A} :
    OneOf R as s bs s' ↔ ∃ i a b, as[i]? = some a ∧ R a s b s' ∧ bs = as.set i b := by
  constructor
  · intro h
    obtain ⟨before, a, b, after, rfl, rfl, hab⟩ := h.exists_between
    exact ⟨before.length, a, b, by simp, hab, by simp⟩
  · rintro ⟨i, a, b, ha, hab, rfl⟩
    obtain ⟨hi, rfl⟩ := List.getElem?_eq_some_iff.1 ha
    have hbetween := between hab (as.take i) (as.drop (i + 1))
    rwa [List.getElem_cons_drop, List.take_append_drop,
      ← (List.set_eq_take_append_cons_drop.trans (if_pos hi))] at hbetween

/-- Where no element changes for ever, the list does not. -/
theorem wellFounded (h : WellFounded fun b a => ∃ s s', R a s b s') :
    WellFounded fun y x : List A × σ => OneOf R x.1 x.2 y.1 y.2 := by
  refine Subrelation.wf ?_ (InvImage.wf (fun x : List A × σ => (x.1 : Multiset A)) h.cutExpand)
  intro y x hstep
  obtain ⟨a, b, rest, ha, hb, hab⟩ := hstep.perm
  show Relation.CutExpand _ (y.1 : Multiset A) (x.1 : Multiset A)
  rw [Multiset.coe_eq_coe.2 ha, Multiset.coe_eq_coe.2 hb]
  exact Relation.cutExpand_single_add ⟨_, _, hab⟩ (rest : Multiset A)

/-- Where each change is that of something behind it, so is that of a list. -/
theorem exists_of_map {f : A → B}
    (hf : ∀ a t s s', S (f a) s t s' → ∃ b, t = f b ∧ R a s b s') {as : List A} {ts : List B}
    (h : OneOf S (as.map f) s ts s') : ∃ bs, ts = bs.map f ∧ OneOf R as s bs s' := by
  induction as generalizing ts with
  | nil => cases h
  | cons a as ih =>
      cases h with
      | head h =>
          obtain ⟨b, rfl, hb⟩ := hf _ _ _ _ h
          exact ⟨b :: as, rfl, .head hb⟩
      | tail h =>
          obtain ⟨bs, rfl, hbs⟩ := ih h
          exact ⟨a :: bs, rfl, .tail hbs⟩

end OneOf

namespace Activity

variable {σ α β : Type} {p q : Activity σ α} {ps qs : List (Activity σ α)} {s s' : σ}

/-! ### Single activities -/

/-- What is left of an activity that acts once: it takes a step, or ends a pause. -/
inductive Step {α : Type} : Activity σ α → σ → Activity σ α → σ → Prop
  | act {β : Type} {f : σ → Option (β × σ)} {next : β → Activity σ α} {s s' : σ} {b : β}
      (h : f s = some (b, s')) : Step (act f next) s (next b) s'
  | sleep {ms : Nat} {next : Activity σ α} {s : σ} : Step (sleep ms next) s next s

theorem not_step_done {a : α} : ¬ (done a).Step s q s' := nofun

theorem step_act_iff {f : σ → Option (β × σ)} {next : β → Activity σ α} :
    (act f next).Step s q s' ↔ ∃ b, f s = some (b, s') ∧ q = next b := by
  constructor
  · intro h
    cases h with
    | act h => exact ⟨_, h, rfl⟩
  · rintro ⟨b, h, rfl⟩
    exact .act h

/-- An activity with something behind it acts as it does, until there is nothing left of it. -/
theorem step_bind {p : Activity σ β} {g : β → Activity σ α} (h : (p.bind g).Step s q s') :
    (∃ b, p = done b) ∨ ∃ p', q = p'.bind g ∧ p.Step s p' s' := by
  cases p with
  | done b => exact .inl ⟨b, rfl⟩
  | act f next =>
      obtain ⟨b, hb, rfl⟩ := step_act_iff.1 h
      exact .inr ⟨next b, rfl, .act hb⟩
  | sleep ms next =>
      cases h
      exact .inr ⟨next, rfl, .sleep⟩
  | limit ms part next => cases h
  | pool slots parts next => cases h

theorem Step.bind {p p' : Activity σ β} (h : p.Step s p' s') (g : β → Activity σ α) :
    (p.bind g).Step s (p'.bind g) s' := by
  cases h with
  | act h => exact .act h
  | sleep => exact .sleep

/-- What an activity comes to by itself does not change when it acts. -/
theorem Step.alone_eq (h : p.Step s q s') : q.alone s' = p.alone s := by
  cases h with
  | act h => rw [alone, h, Option.bind_some]
  | sleep => rfl

/-- What comes to its end by itself can act until there is nothing left to do. -/
theorem exists_step_of_alone {r : α × σ} (h : p.alone s = some r) :
    (∃ a, p = done a) ∨ ∃ q s', p.Step s q s' := by
  cases p with
  | done a => exact .inl ⟨a, rfl⟩
  | act f next =>
      obtain ⟨⟨b, s'⟩, hb, -⟩ := Option.bind_eq_some_iff.1 h
      exact .inr ⟨_, _, .act hb⟩
  | sleep ms next => exact .inr ⟨_, _, .sleep⟩
  | limit ms part next => cases h
  | pool slots parts next => cases h

/-- The activity `q` may be left of `p` when that acts once. -/
def After (q p : Activity σ α) : Prop := ∃ s s', p.Step s q s'

theorem acc_after (p : Activity σ α) : Acc After p := by
  match p with
  | done a => exact ⟨_, fun q ⟨_, _, h⟩ => absurd h not_step_done⟩
  | act f next =>
      refine ⟨_, fun q ⟨s, s', h⟩ => ?_⟩
      obtain ⟨b, -, rfl⟩ := step_act_iff.1 h
      exact acc_after (next b)
  | sleep ms next =>
      refine ⟨_, fun q ⟨s, s', h⟩ => ?_⟩
      cases h
      exact acc_after next
  | limit ms part next => exact ⟨_, fun q ⟨_, _, h⟩ => by cases h⟩
  | pool slots parts next => exact ⟨_, fun q ⟨_, _, h⟩ => by cases h⟩

/-! ### Tasks at once -/

/-- One of the activities acts once. -/
abbrev Turn : List (Activity σ α) → σ → List (Activity σ α) → σ → Prop := OneOf Step

/-- What can become of activities and the state on which they work. -/
inductive Interleaves (ps : List (Activity σ α)) (s : σ) : List (Activity σ α) → σ → Prop
  | refl : Interleaves ps s ps s
  | turn {qs rs : List (Activity σ α)} {s' s'' : σ} (t : Interleaves ps s qs s')
      (h : Turn qs s' rs s'') : Interleaves ps s rs s''

theorem Interleaves.trans {rs : List (Activity σ α)} {s'' : σ} (t : Interleaves ps s qs s')
    (t' : Interleaves qs s' rs s'') : Interleaves ps s rs s'' := by
  induction t' with
  | refl => exact t
  | turn _ h ih => exact ih.turn h

theorem Interleaves.length_eq (t : Interleaves ps s qs s') : qs.length = ps.length := by
  induction t with
  | refl => rfl
  | turn _ h ih => exact h.length_eq.trans ih

/-- Each turn leaves less to be done. -/
theorem wellFounded_turn : WellFounded fun y x : List (Activity σ α) × σ =>
    Turn x.1 x.2 y.1 y.2 :=
  OneOf.wellFounded ⟨acc_after⟩

/-- **No tasks take turns for ever.** -/
theorem not_forever (run : ℕ → List (Activity σ α) × σ) :
    ¬ ∀ n, Turn (run n).1 (run n).2 (run (n + 1)).1 (run (n + 1)).2 :=
  fun h =>
  (wellFounded_iff_isEmpty_descending_chain.1 wellFounded_turn).false ⟨run, h⟩

/-- Where one of the tasks can always act, until all are done, they can be brought to their end. -/
theorem Interleaves.exists_done
    (hact : ∀ qs s', Interleaves ps s qs s' →
      (∃ as : List α, qs = as.map done) ∨ ∃ rs s'', Turn qs s' rs s'')
    (t : Interleaves ps s qs s') :
    ∃ (as : List α) (s'' : σ), Interleaves qs s' (as.map done) s'' := by
  suffices h : ∀ x : List (Activity σ α) × σ, Interleaves ps s x.1 x.2 →
      ∃ (as : List α) (s'' : σ), Interleaves x.1 x.2 (as.map done) s'' from h (qs, s') t
  intro x
  induction x using wellFounded_turn.induction with
  | _ x ih =>
    intro tx
    rcases hact x.1 x.2 tx with ⟨as, has⟩ | ⟨rs, s'', h⟩
    · exact ⟨as, x.2, has ▸ .refl⟩
    · obtain ⟨as, s₁, t₁⟩ := ih (rs, s'') h (tx.turn h)
      exact ⟨as, s₁, (Interleaves.turn .refl h).trans t₁⟩

end Activity

end StreamPipeline
