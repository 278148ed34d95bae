/-!
# Results and failures

Inversion of computations in `Except`: what has to have happened for a composite to give a result.
In any monad, a traversal whose elements all give a result gives all of them. In `Except`, results
taken one after the other come to the failure at the first place that has one (`Foremost`).
-/

theorem List.mapM_map_eq_pure {m : Type → Type} [Monad m] [LawfulMonad m] {α β γ : Type}
    {f : α → β} {g : β → m γ} {h : α → γ} (xs : List α) (hg : ∀ x ∈ xs, g (f x) = pure (h x)) :
    (xs.map f).mapM g = pure (xs.map h) := by
  induction xs with
  | nil => rfl
  | cons x xs ih =>
      rw [List.map_cons, List.mapM_cons, hg x (by simp), ih fun y hy => hg y (by simp [hy])]
      simp

namespace Except

variable {ε α β : Type}

theorem map_eq_ok_iff {f : α → β} {x : Except ε α} {b : β} :
    x.map f = .ok b ↔ ∃ a, x = .ok a ∧ f a = b := by
  cases x <;> simp [Except.map]

theorem map_eq_error_iff {f : α → β} {x : Except ε α} {e : ε} :
    x.map f = .error e ↔ x = .error e := by
  cases x <;> simp [Except.map]

theorem bind_eq_ok_iff {x : Except ε α} {f : α → Except ε β} {b : β} :
    (x >>= f) = .ok b ↔ ∃ a, x = .ok a ∧ f a = .ok b := by
  cases x <;> simp [bind, Except.bind]

theorem isOk_iff {x : Except ε α} : x.isOk = true ↔ ∃ a, x = .ok a := by
  cases x <;> simp [Except.isOk, Except.toBool]

theorem toOption_eq_some_iff {x : Except ε α} {a : α} : x.toOption = some a ↔ x = .ok a := by
  cases x <;> simp [Except.toOption]

theorem isOk_eq_false_iff {x : Except ε α} : x.isOk = false ↔ ∃ e, x = .error e := by
  cases x <;> simp [Except.isOk, Except.toBool]

theorem bind_eq_error_iff {x : Except ε α} {f : α → Except ε β} {e : ε} :
    (x >>= f) = .error e ↔ x = .error e ∨ ∃ a, x = .ok a ∧ f a = .error e := by
  cases x <;> simp [bind, Except.bind]

/-- Where a traversal fails, it fails at one of its elements. -/
theorem exists_of_mapM_eq_error {f : α → Except ε β} {l : List α} {e : ε}
    (h : l.mapM f = .error e) : ∃ a ∈ l, f a = .error e := by
  induction l with
  | nil => cases h
  | cons a l ih =>
      rw [List.mapM_cons] at h
      rcases bind_eq_error_iff.1 h with ha | ⟨b, -, h⟩
      · exact ⟨a, List.mem_cons_self .., ha⟩
      · rcases bind_eq_error_iff.1 h with hl | ⟨bs, -, h⟩
        · obtain ⟨a', ha', he⟩ := ih hl
          exact ⟨a', List.mem_cons_of_mem a ha', he⟩
        · cases h

/-- The failure, if there is one. -/
def failure? : Except ε α → Option ε
  | .error e => some e
  | .ok _ => none

/-- What is wrong at the first of the places at which something is. -/
structure Foremost (fault? : Nat → Option ε) (i : Nat) (e : ε) : Prop where
  here : fault? i = some e
  before : ∀ j < i, fault? j = none

/-- Where something is wrong, there is a first place at which it is. -/
theorem exists_foremost {fault? : Nat → Option ε} {i : Nat} {e : ε} (h : fault? i = some e) :
    ∃ j e, Foremost fault? j e := by
  induction i using Nat.strongRecOn generalizing e with
  | ind i ih =>
      by_cases hex : ∃ j, j < i ∧ ∃ e, fault? j = some e
      · obtain ⟨j, hj, e, he⟩ := hex
        exact ih j hj he
      · refine ⟨i, e, h, fun j hj => ?_⟩
        cases hf : fault? j with
        | none => rfl
        | some e => exact absurd ⟨j, hj, e, hf⟩ hex

/-- There is something wrong or there is not, and then there is a first place at which it is. -/
theorem fine_or_foremost (fault? : Nat → Option ε) :
    (∀ i, fault? i = none) ∨ ∃ i e, Foremost fault? i e := by
  by_cases hex : ∃ i e, fault? i = some e
  · obtain ⟨i, e, he⟩ := hex
    exact .inr (exists_foremost he)
  · refine .inl fun i => ?_
    cases hf : fault? i with
    | none => rfl
    | some e => exact absurd ⟨i, e, hf⟩ hex

/-- Results that are taken one after the other are all taken just if there is no failure. -/
theorem mapM_id_eq_ok_iff {l : List (Except ε α)} {as : List α} :
    l.mapM id = .ok as ↔ l = as.map .ok := by
  induction l generalizing as with
  | nil => cases as <;> simp [pure, Except.pure]
  | cons x l ih =>
      rw [List.mapM_cons, bind_eq_ok_iff]
      constructor
      · rintro ⟨a, hx, h⟩
        obtain ⟨rest, hrest, h⟩ := bind_eq_ok_iff.1 h
        cases h
        rw [List.map_cons, ← ih.1 hrest, ← hx, id]
      · intro h
        obtain ⟨a, rest, rfl, rfl, hrest⟩ := List.map_eq_cons_iff.1 h.symm
        refine ⟨a, rfl, ?_⟩
        rw [ih.2 hrest.symm]
        rfl

/-- Results that are taken one after the other come to the first failure among them. -/
theorem mapM_id_eq_error {l : List (Except ε α)} {i : Nat} {e : ε}
    (h : Foremost (fun i => l[i]?.bind failure?) i e) : l.mapM id = .error e := by
  induction l generalizing i with
  | nil => cases h.here
  | cons x l ih =>
      rw [List.mapM_cons]
      cases x with
      | error e' =>
          cases i with
          | zero => exact congrArg error (Option.some.inj h.here)
          | succ i => cases h.before 0 (Nat.zero_lt_succ i)
      | ok a =>
          cases i with
          | zero => cases h.here
          | succ i =>
              have hrest := ih ⟨h.here, fun j hj => h.before (j + 1) (Nat.succ_lt_succ hj)⟩
              rw [hrest]
              rfl

/-- Results of which none is a failure are all there. -/
theorem exists_mapM_id {l : List (Except ε α)} (h : ∀ i : Nat, l[i]?.bind failure? = none) :
    ∃ as, l.mapM id = .ok as := by
  cases hl : l.mapM id with
  | ok as => exact ⟨as, rfl⟩
  | error e =>
      obtain ⟨x, hx, he⟩ := exists_of_mapM_eq_error hl
      obtain ⟨i, hi⟩ := List.mem_iff_getElem?.1 hx
      have hnone := h i
      rw [hi, show x = error e from he] at hnone
      cases hnone

end Except
