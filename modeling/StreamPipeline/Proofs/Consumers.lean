import StreamPipeline.Proofs.Partition

/-!
# Which stages are partitioned consumers

Which stages a pass finds to be partitioned consumers depends on what the stages say and on where
their definitions bind them, not on what the pass writes (`consumers`). A pass that does not fail
leaves its mark on just these stages (`marked_propagate`).

A second pass that finds the same consumers tells all stages the same (`propagate_of_repeats`), even
where consumers come without the numbering of their instances, which the pass writes. Where it reads
all bindings from what is said (`Reread`), it finds the same consumers unless a stage calls itself
one and is bound late: it is told only at deployment from where it consumes
(`consumers_eq_iff`).
-/

namespace StreamPipeline.ResolvedStage

open StreamPipeline.Partition

variable {pipeline : String} {s t a b : ResolvedStage} {stages stages' : List ResolvedStage}

/-! ### What the pass finds -/

/-- Which stages are partitioned consumers, where the stage in front of them declares a key or does
not. -/
def consumers (isKeyed : Bool) : List ResolvedStage → List Bool
  | [] => []
  | s :: r => (isKeyed || s.declaresConsumer) :: consumers s.declaresKey r

theorem get?_asConsumer {key : String} (h : isInjected key = false) :
    s.asConsumer.get? key = s.get? key := by
  have hne : key ≠ inputPartitioned ∧ key ≠ inputCount := by
    constructor <;> (rintro rfl; exact absurd h (by decide))
  rw [asConsumer_eq]
  show ((s.tell inputPartitioned (some "true")).tell inputCount _).get? key = s.get? key
  rw [get?_tell, if_neg hne.2, get?_tell, if_neg hne.1]

/-- A stage that was told that it is a consumer declares what it did. -/
theorem declaresKey_asConsumer (s : ResolvedStage) : s.asConsumer.declaresKey = s.declaresKey := by
  unfold declaresKey
  rw [get?_asConsumer (by decide), get?_asConsumer (by decide)]

/-- The stage is told that its input is partitioned. -/
def isMarked (s : ResolvedStage) : Bool := s.app.contains inputPartitioned

theorem isMarked_asConsumer (s : ResolvedStage) : s.asConsumer.isMarked = true := by
  show ((setOr (s.app.insert inputPartitioned "true") inputCount _).get? inputPartitioned).isSome =
    true
  rw [get?_setOr, if_neg (by decide), StringMap.get?_insert_self]
  rfl

theorem isMarked_tell {key : String} (hne : inputPartitioned ≠ key) (v : Option String) :
    (s.tell key v).isMarked = s.isMarked := by
  show ((setOr s.app key v).get? inputPartitioned).isSome = (s.app.get? inputPartitioned).isSome
  rw [get?_setOr, if_neg hne]

theorem isMarked_asProducer (n : Nat) (s : ResolvedStage) :
    (s.asProducer n).isMarked = s.isMarked := by
  rw [asProducer_eq]
  iterate 5 rw [isMarked_tell (by decide)]

theorem marked_propagateFrom (before : Option ResolvedStage)
    (hunmarked : ∀ s ∈ stages, s.isMarked = false)
    (hok : (propagateFrom pipeline before stages).2 = none) :
    (propagateFrom pipeline before stages).1.map isMarked =
      before.toList.map isMarked ++ consumers (before.any declaresKey) stages := by
  induction stages generalizing before with
  | nil => simp [propagateFrom, consumers]
  | cons s r ih =>
      have hr := fun t ht => hunmarked t (List.mem_cons_of_mem s ht)
      rw [propagateFrom] at hok ⊢
      have hhead : (before.any declaresKey || s.declaresConsumer) = isConsumer before s := rfl
      cases hs : isConsumer before s with
      | true =>
          cases hn : s.instanceCount pipeline with
          | error e => simp [hs, hn] at hok
          | ok n =>
              simp only [hs, hn, if_true] at hok ⊢
              rw [List.map_append, ih _ hr hok, consumers, hhead, hs]
              have hbefore : (before.map (asProducer n)).toList.map isMarked =
                  before.toList.map isMarked := by
                cases before <;> simp [isMarked_asProducer]
              simp [hbefore, isMarked_asConsumer, declaresKey_asConsumer]
      | false =>
          simp only [hs, Bool.false_eq_true, if_false] at hok ⊢
          rw [List.map_append, ih _ hr hok, consumers, hhead, hs]
          simp [hunmarked s (by simp)]

/-- **A pass that does not fail marks the consumers.** -/
theorem marked_propagate {told : List ResolvedStage} (hunmarked : ∀ s ∈ stages, s.isMarked = false)
    (h : propagated pipeline stages = .ok told) : told.map isMarked = consumers false stages := by
  have h := propagated_eq_ok_iff.1 h
  have hfrom : propagateFrom pipeline none stages = (told, none) := h
  have hmarked := marked_propagateFrom none hunmarked (congrArg Prod.snd hfrom)
  rwa [hfrom] at hmarked

/-! ### A pass that is repeated -/

/-- Stages of which the same are found to be consumers, and that agree but for the numbering of
these. -/
inductive Repeats : Bool → List ResolvedStage → List ResolvedStage → Prop where
  | nil {isKeyed : Bool} : Repeats isKeyed [] []
  | consumer {isKeyed : Bool} {s t : ResolvedStage} {r r' : List ResolvedStage} (h : Nearly s t)
      (hs : (isKeyed || s.declaresConsumer) = true) (ht : (isKeyed || t.declaresConsumer) = true)
      (hr : Repeats s.declaresKey r r') : Repeats isKeyed (s :: r) (t :: r')
  | other {isKeyed : Bool} {s t : ResolvedStage} {r r' : List ResolvedStage} (h : Agrees s t)
      (hs : (isKeyed || s.declaresConsumer) = false) (ht : (isKeyed || t.declaresConsumer) = false)
      (hr : Repeats s.declaresKey r r') : Repeats isKeyed (s :: r) (t :: r')

theorem propagateFrom_of_repeats (before before' : Option ResolvedStage) {isKeyed : Bool}
    (h : Repeats isKeyed stages stages') (hkeyed : before.any declaresKey = isKeyed)
    (hb : Option.Rel Agrees before before')
    (hok : (propagateFrom pipeline before stages).2 = none) :
    List.Forall₂ Agrees (propagateFrom pipeline before stages).1
        (propagateFrom pipeline before' stages').1 ∧
      (propagateFrom pipeline before' stages').2 = none := by
  have hkeyed' : ∀ {x x' : Option ResolvedStage}, Option.Rel Agrees x x' →
      x'.any declaresKey = x.any declaresKey := by
    intro x x' hx
    cases hx with
    | none => rfl
    | some hx => exact hx.nearly.declaresKey.symm
  induction h generalizing before before' with
  | nil => exact ⟨forall₂_toList hb, rfl⟩
  | @consumer k s t r r' h hs ht _ ih =>
      have hs' : isConsumer before s = true := by rw [isConsumer, hkeyed, hs]
      have ht' : isConsumer before' t = true := by rw [isConsumer, hkeyed' hb, hkeyed, ht]
      rw [propagateFrom, if_pos hs', h.instanceCount] at hok ⊢
      rw [propagateFrom, if_pos ht']
      cases hn : t.instanceCount pipeline with
      | error e => simp [hn] at hok
      | ok n =>
          simp only [hn] at hok ⊢
          obtain ⟨hrest, he⟩ := ih (some s.asConsumer) (some t.asConsumer)
            (declaresKey_asConsumer s) (.some h.asConsumer) hok
          refine ⟨List.rel_append (forall₂_toList ?_) hrest, he⟩
          cases hb with
          | none => exact .none
          | some hb => exact .some (hb.asProducer n)
  | @other k s t r r' h hs ht _ ih =>
      have hs' : ¬ isConsumer before s = true := by rw [isConsumer, hkeyed, hs]; simp
      have ht' : ¬ isConsumer before' t = true := by rw [isConsumer, hkeyed' hb, hkeyed, ht]; simp
      rw [propagateFrom, if_neg hs'] at hok ⊢
      rw [propagateFrom, if_neg ht']
      obtain ⟨hrest, he⟩ := ih (some s) (some t) rfl (.some h) hok
      exact ⟨List.rel_append (forall₂_toList hb) hrest, he⟩

/-- **A pass over stages of which the same are consumers tells them the same**, if it did not fail
before. -/
theorem propagate_of_repeats {told : List ResolvedStage} (h : Repeats false stages stages')
    (hok : propagated pipeline stages = .ok told) :
    ∃ told', propagated pipeline stages' = .ok told' ∧ List.Forall₂ Agrees told told' := by
  have hok := propagated_eq_ok_iff.1 hok
  obtain ⟨hagree, hnone⟩ := propagateFrom_of_repeats none none h rfl .none (congrArg Prod.snd hok)
  rw [show (propagateFrom pipeline none stages).1 = told from congrArg Prod.fst hok] at hagree
  exact ⟨_, propagated_eq_ok_iff.2 (Prod.ext rfl hnone), hagree⟩

/-! ### Stages that are bound late -/

/-- The stage calls itself a partitioned consumer, and is told only at deployment from where it
consumes. -/
def isBoundLate (s : ResolvedStage) : Bool :=
  !s.stage.hasInput && (s.get? Binding.input).isSome && (s.get? Partition.consumer).any saysTrue

/-- Some stage is bound late, and the one in front of it declares no key. -/
inductive LateConsumer : Bool → List ResolvedStage → Prop where
  | here {s : ResolvedStage} (r : List ResolvedStage) (h : s.isBoundLate = true) :
      LateConsumer false (s :: r)
  | further {s : ResolvedStage} {r : List ResolvedStage} (isKeyed : Bool)
      (h : LateConsumer s.declaresKey r) : LateConsumer isKeyed (s :: r)

theorem lateConsumer_cons_iff {isKeyed : Bool} {r : List ResolvedStage} :
    LateConsumer isKeyed (s :: r) ↔
      isKeyed = false ∧ s.isBoundLate = true ∨ LateConsumer s.declaresKey r := by
  constructor
  · intro h
    cases h with
    | here _ h => exact .inl ⟨rfl, h⟩
    | further _ h => exact .inr h
  · rintro (⟨rfl, h⟩ | h)
    · exact .here r h
    · exact .further isKeyed h

/-- Whether a stage is bound late can be found out stage by stage. -/
instance decidableLateConsumer :
    ∀ (isKeyed : Bool) (stages : List ResolvedStage), Decidable (LateConsumer isKeyed stages)
  | _, [] => .isFalse fun h => by cases h
  | _, s :: r =>
    have := decidableLateConsumer s.declaresKey r
    decidable_of_iff _ lateConsumer_cons_iff.symm

/-- The stage `b` is read anew from what was said about `a`: its definition binds it wherever that
is said. -/
structure Reread (a b : ResolvedStage) : Prop where
  nearly : Nearly a b
  hasInput : b.stage.hasInput = (a.get? Binding.input).isSome

/-- A stage that is read anew calls itself a consumer also where it is bound late. -/
theorem Reread.declaresConsumer (h : Reread a b) :
    b.declaresConsumer = (a.declaresConsumer || a.isBoundLate) := by
  have hbound : a.stage.hasInput = true → (a.get? Binding.input).isSome = true := by
    intro ha
    unfold ResolvedStage.get?
    rw [Option.isSome_or]
    exact Bool.or_eq_true_iff.2 (.inr ha)
  unfold ResolvedStage.declaresConsumer isBoundLate
  rw [h.hasInput, ← h.nearly.get?]
  cases ha : a.stage.hasInput with
  | true => simp [hbound ha]
  | false => simp

/-- **Stages that are read anew are the same consumers unless one is bound late** behind a stage
without a key. -/
theorem consumers_eq_iff {isKeyed : Bool} (h : List.Forall₂ Reread stages stages') :
    consumers isKeyed stages' = consumers isKeyed stages ↔ ¬ LateConsumer isKeyed stages := by
  induction h generalizing isKeyed with
  | nil => exact iff_of_true rfl fun h => by cases h
  | @cons a b r r' hab _ ih =>
      rw [consumers, consumers, ← hab.nearly.declaresKey, List.cons_eq_cons, ih,
        lateConsumer_cons_iff, not_or, hab.declaresConsumer]
      refine and_congr_left' ?_
      -- a stage that is bound late has no binding by which it could have been a consumer before
      have hlate : a.isBoundLate = true → a.declaresConsumer = false := by
        intro hl
        unfold isBoundLate at hl
        unfold ResolvedStage.declaresConsumer
        cases ha : a.stage.hasInput <;> simp [ha] at hl ⊢
      cases isKeyed <;> cases hl : a.isBoundLate <;> simp [hl, hlate]

end StreamPipeline.ResolvedStage
