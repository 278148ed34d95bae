import StreamPipeline.Partition
import StreamPipeline.Proofs.Pointwise

/-!
# What partitioning reads and what it writes

Partitioning reads a stage by look-ups only. Two stages are alike if all look-ups in them agree, and
the pass over stages makes alike stages of alike stages, or fails with the same failure
(`forall₂_propagate`).

What it writes are app properties that it does not read itself, and for the stages that it finds to
be partitioned consumers the number of instances (`Told`). So it leaves a mark on just these
stages, by which all that it wrote can be taken back.
-/

namespace StreamPipeline.ResolvedStage

open StreamPipeline.Partition

variable {a b s : ResolvedStage} {pipeline : String}

/-! ### What is written -/

/-- The stage told an app property if there is a value for it. -/
def tell (s : ResolvedStage) (key : String) (v : Option String) : ResolvedStage :=
  { s with app := setOr s.app key v }

theorem get?_setOr (m : Settings) (key : String) (v : Option String) (k : String) :
    (setOr m key v).get? k = if k = key then v.or (m.get? k) else m.get? k := by
  cases v with
  | none => simp [setOr]
  | some v => simp [setOr, StringMap.get?_insert]

theorem get?_tell (s : ResolvedStage) (key : String) (v : Option String) (k : String) :
    (s.tell key v).get? k = if k = key then v.or (s.get? k) else s.get? k := by
  simp only [get?, tell, get?_setOr]
  split
  · rw [Option.or_assoc]
  · rfl

theorem asConsumer_eq (s : ResolvedStage) : s.asConsumer =
    { (s.tell inputPartitioned (some "true")).tell inputCount (s.givenCount?.map Text.trim) with
      deployer := s.deployer.insert indexed "true" } :=
  rfl

theorem asProducer_eq (n : Nat) (s : ResolvedStage) : s.asProducer n =
    ((((s.tell outputCount (some (Nat.repr n))).tell
      outputKeyExpression s.partitionExpression?).tell
      outputKeyExtractor (s.get? keyExtractor)).tell
      outputSelectorClass (s.get? selectorClass)).tell
      outputSelectorExpression (s.get? selectorExpression) :=
  rfl

/-! ### What is read -/

/-- What partitioning looks up in the stages agrees. -/
structure Reads (a b : ResolvedStage) : Prop where
  label : a.stage.label = b.stage.label
  get? : ∀ key, a.get? key = b.get? key
  count : a.deployer.get? Partition.count = b.deployer.get? Partition.count

/-- Look-ups in the stages agree but for the numbering of instances. -/
structure Nearly (a b : ResolvedStage) : Prop where
  label : a.stage.label = b.stage.label
  get? : ∀ key, a.get? key = b.get? key
  deployer : ∀ key, key ≠ indexed → a.deployer.get? key = b.deployer.get? key

/-- Look-ups in the stages agree, wherever their definitions bind them. -/
structure Agrees (a b : ResolvedStage) : Prop where
  label : a.stage.label = b.stage.label
  get? : ∀ key, a.get? key = b.get? key
  deployer : a.deployer = b.deployer

/-- Stages in which all look-ups agree. -/
structure Alike (a b : ResolvedStage) : Prop where
  label : a.stage.label = b.stage.label
  get? : ∀ key, a.get? key = b.get? key
  hasInput : a.stage.hasInput = b.stage.hasInput
  deployer : a.deployer = b.deployer

namespace Reads

theorem givenCount? (h : Reads a b) : a.givenCount? = b.givenCount? := by
  rw [ResolvedStage.givenCount?, ResolvedStage.givenCount?, h.get?, h.count]

theorem instanceCount (h : Reads a b) : a.instanceCount pipeline = b.instanceCount pipeline := by
  unfold ResolvedStage.instanceCount
  rw [h.givenCount?, h.label]

theorem declaresKey (h : Reads a b) : a.declaresKey = b.declaresKey := by
  rw [ResolvedStage.declaresKey, ResolvedStage.declaresKey, h.get?, h.get?]

theorem declaresConsumer (h : Reads a b) (hinput : a.stage.hasInput = b.stage.hasInput) :
    a.declaresConsumer = b.declaresConsumer := by
  rw [ResolvedStage.declaresConsumer, ResolvedStage.declaresConsumer, h.get?, hinput]

theorem partitionExpression? (h : Reads a b) :
    a.partitionExpression? = b.partitionExpression? := by
  unfold ResolvedStage.partitionExpression?
  rw [h.get?, h.get?]

/-- Stages whose look-ups agree have the same settings, whoever gave them. -/
theorem settings (h : Reads a b) :
    a.stage.properties.overlay a.app = b.stage.properties.overlay b.app :=
  StringMap.ext_get? fun key => by
    rw [StringMap.get?_overlay, StringMap.get?_overlay]
    exact h.get? key

theorem tell (h : Reads a b) (key : String) (v : Option String) :
    Reads (a.tell key v) (b.tell key v) where
  label := h.label
  get? k := by rw [get?_tell, get?_tell, h.get?]
  count := h.count

theorem asConsumer (h : Reads a b) : Reads a.asConsumer b.asConsumer where
  label := h.label
  get? key := by
    rw [asConsumer_eq, asConsumer_eq]
    show ((a.tell inputPartitioned _).tell inputCount _).get? key =
      ((b.tell inputPartitioned _).tell inputCount _).get? key
    rw [get?_tell, get?_tell, get?_tell, get?_tell, h.get?, h.givenCount?]
  count := by
    show (a.deployer.insert indexed "true").get? _ = (b.deployer.insert indexed "true").get? _
    rw [StringMap.get?_insert_of_ne _ _ (by decide), StringMap.get?_insert_of_ne _ _ (by decide)]
    exact h.count

theorem asProducer (h : Reads a b) (n : Nat) : Reads (a.asProducer n) (b.asProducer n) := by
  rw [asProducer_eq, asProducer_eq, h.partitionExpression?, h.get?, h.get?, h.get?]
  exact ((((h.tell _ _).tell _ _).tell _ _).tell _ _).tell _ _

end Reads

namespace Nearly

theorem reads (h : Nearly a b) : Reads a b := ⟨h.label, h.get?, h.deployer _ (by decide)⟩

theorem instanceCount (h : Nearly a b) : a.instanceCount pipeline = b.instanceCount pipeline :=
  h.reads.instanceCount

theorem declaresKey (h : Nearly a b) : a.declaresKey = b.declaresKey := h.reads.declaresKey

/-- A consumer is told to number its instances, whether it comes with that or not. -/
theorem asConsumer (h : Nearly a b) : Agrees a.asConsumer b.asConsumer where
  label := h.label
  get? := h.reads.asConsumer.get?
  deployer := StringMap.ext_get? fun key => by
    show (a.deployer.insert indexed "true").get? key = (b.deployer.insert indexed "true").get? key
    rw [StringMap.get?_insert, StringMap.get?_insert]
    split
    · rfl
    · exact h.deployer key ‹_›

theorem asProducer (h : Nearly a b) (n : Nat) : Nearly (a.asProducer n) (b.asProducer n) :=
  let ⟨hlabel, hget, _⟩ := h.reads.asProducer n
  ⟨hlabel, hget, h.deployer⟩

end Nearly

namespace Agrees

theorem nearly (h : Agrees a b) : Nearly a b :=
  ⟨h.label, h.get?, fun key _ => congrArg (·.get? key) h.deployer⟩

theorem settings (h : Agrees a b) :
    a.stage.properties.overlay a.app = b.stage.properties.overlay b.app :=
  h.nearly.reads.settings

theorem asProducer (h : Agrees a b) (n : Nat) : Agrees (a.asProducer n) (b.asProducer n) :=
  let ⟨hlabel, hget, _⟩ := h.nearly.asProducer n
  ⟨hlabel, hget, h.deployer⟩

end Agrees

namespace Alike

theorem agrees (h : Alike a b) : Agrees a b := ⟨h.label, h.get?, h.deployer⟩

theorem settings (h : Alike a b) :
    a.stage.properties.overlay a.app = b.stage.properties.overlay b.app :=
  h.agrees.settings

theorem asConsumer (h : Alike a b) : Alike a.asConsumer b.asConsumer :=
  let ⟨hlabel, hget, hdeployer⟩ := h.agrees.nearly.asConsumer
  ⟨hlabel, hget, h.hasInput, hdeployer⟩

theorem asProducer (h : Alike a b) (n : Nat) : Alike (a.asProducer n) (b.asProducer n) :=
  let ⟨hlabel, hget, hdeployer⟩ := h.agrees.asProducer n
  ⟨hlabel, hget, h.hasInput, hdeployer⟩

end Alike

theorem forall₂_toList {R : ResolvedStage → ResolvedStage → Prop} {a b : Option ResolvedStage}
    (h : Option.Rel R a b) : List.Forall₂ R a.toList b.toList := by
  cases h with
  | none => exact .nil
  | some h => exact .cons h .nil

/-- A way for stages to be the same to partitioning that what they are told keeps. -/
structure Kept (R : ResolvedStage → ResolvedStage → Prop) : Prop where
  reads : ∀ {a b}, R a b → Reads a b
  hasInput : ∀ {a b}, R a b → a.stage.hasInput = b.stage.hasInput
  asConsumer : ∀ {a b}, R a b → R a.asConsumer b.asConsumer
  asProducer : ∀ {a b} (n : Nat), R a b → R (a.asProducer n) (b.asProducer n)

theorem kept_alike : Kept Alike where
  reads h := h.agrees.nearly.reads
  hasInput h := h.hasInput
  asConsumer h := h.asConsumer
  asProducer n h := h.asProducer n

theorem kept_nearly : Kept fun a b => Nearly a b ∧ a.stage.hasInput = b.stage.hasInput where
  reads h := h.1.reads
  hasInput h := h.2
  asConsumer h := ⟨h.1.asConsumer.nearly, h.2⟩
  asProducer n h := ⟨h.1.asProducer n, h.2⟩

theorem kept_reads : Kept fun a b => Reads a b ∧ a.stage.hasInput = b.stage.hasInput where
  reads h := h.1
  hasInput h := h.2
  asConsumer h := ⟨h.1.asConsumer, h.2⟩
  asProducer n h := ⟨h.1.asProducer n, h.2⟩

theorem Kept.isConsumer {R : ResolvedStage → ResolvedStage → Prop} (hR : Kept R)
    {a' b' : Option ResolvedStage} (h : Option.Rel R a' b') (hs : R a b) :
    ResolvedStage.isConsumer a' a = ResolvedStage.isConsumer b' b := by
  have hdeclares := (hR.reads hs).declaresConsumer (hR.hasInput hs)
  unfold ResolvedStage.isConsumer
  cases h with
  | none => rw [hdeclares]
  | some h => rw [hdeclares, Option.any_some, Option.any_some, (hR.reads h).declaresKey]

/-- What such stages are told is the same again, and so are the stages after a failure. -/
theorem Kept.propagateFrom {R : ResolvedStage → ResolvedStage → Prop} (hR : Kept R)
    {before before' : Option ResolvedStage} {stages stages' : List ResolvedStage}
    (h : List.Forall₂ R stages stages') : Option.Rel R before before' →
      List.Forall₂ R (ResolvedStage.propagateFrom pipeline before stages).1
          (ResolvedStage.propagateFrom pipeline before' stages').1 ∧
        (ResolvedStage.propagateFrom pipeline before stages).2 =
          (ResolvedStage.propagateFrom pipeline before' stages').2 := by
  induction h generalizing before before' with
  | nil => exact fun hb => ⟨forall₂_toList hb, rfl⟩
  | @cons s s' r r' hs hr ih =>
      intro hb
      rw [ResolvedStage.propagateFrom, ResolvedStage.propagateFrom, hR.isConsumer hb hs,
        (hR.reads hs).instanceCount]
      split
      · cases s'.instanceCount pipeline with
        | error e => exact ⟨List.rel_append (forall₂_toList hb) (.cons hs hr), rfl⟩
        | ok n =>
            obtain ⟨hrest, he⟩ := ih (.some (hR.asConsumer hs))
            refine ⟨List.rel_append (forall₂_toList ?_) hrest, he⟩
            cases hb with
            | none => exact .none
            | some hb => exact .some (hR.asProducer n hb)
      · obtain ⟨hrest, he⟩ := ih (.some hs)
        exact ⟨List.rel_append (forall₂_toList hb) hrest, he⟩

theorem propagated_eq_ok_iff {stages told : List ResolvedStage} :
    propagated pipeline stages = .ok told ↔ propagate pipeline stages = (told, none) := by
  unfold propagated
  rcases propagate pipeline stages with ⟨l, _ | e⟩ <;> simp

theorem propagated_eq_error_iff {stages : List ResolvedStage} {e : Failure} :
    propagated pipeline stages = .error e ↔ (propagate pipeline stages).2 = some e := by
  unfold propagated
  rcases propagate pipeline stages with ⟨l, _ | e⟩ <;> simp

theorem length_propagateFrom (pipeline : String) (before : Option ResolvedStage)
    (stages : List ResolvedStage) :
    (propagateFrom pipeline before stages).1.length = before.toList.length + stages.length := by
  induction stages generalizing before with
  | nil => rfl
  | cons s r ih =>
      rw [propagateFrom]
      split
      · split
        · exact List.length_append
        · rw [List.length_append, ih]
          cases before <;> simp <;> omega
      · rw [List.length_append, ih]
        simp
        omega

/-- The pass leaves as many stages as there were. -/
theorem length_propagated {stages told : List ResolvedStage}
    (h : propagated pipeline stages = .ok told) : told.length = stages.length := by
  have hlength := length_propagateFrom pipeline none stages
  have hfrom : propagateFrom pipeline none stages = (told, none) := propagated_eq_ok_iff.1 h
  rw [hfrom] at hlength
  simpa using hlength

/-- **The pass over stages depends on look-ups only.** -/
theorem forall₂_propagate (pipeline : String) {stages stages' : List ResolvedStage}
    (h : List.Forall₂ Alike stages stages') :
    List.Forall₂ Alike (propagate pipeline stages).1 (propagate pipeline stages').1 ∧
      (propagate pipeline stages).2 = (propagate pipeline stages').2 :=
  kept_alike.propagateFrom h .none

/-- A pass over stages that are the same to partitioning succeeds as the other one does. -/
theorem Kept.exists_propagated {R : ResolvedStage → ResolvedStage → Prop} (hR : Kept R)
    {stages stages' told : List ResolvedStage} (h : List.Forall₂ R stages stages')
    (hok : propagated pipeline stages = .ok told) :
    ∃ told', propagated pipeline stages' = .ok told' ∧ List.Forall₂ R told told' := by
  have hok : ResolvedStage.propagateFrom pipeline none stages = (told, none) :=
    propagated_eq_ok_iff.1 hok
  have hpass : List.Forall₂ R (ResolvedStage.propagateFrom pipeline none stages).1
        (ResolvedStage.propagateFrom pipeline none stages').1 ∧
      (ResolvedStage.propagateFrom pipeline none stages).2 =
        (ResolvedStage.propagateFrom pipeline none stages').2 :=
    hR.propagateFrom h .none
  rw [hok] at hpass
  obtain ⟨hall, hsame⟩ := hpass
  exact ⟨_, propagated_eq_ok_iff.2 (Prod.ext rfl hsame.symm), hall⟩

/-! ### What is left behind -/

/-- A stage `b` that may have been told something is `a` up to app properties that partitioning
writes. -/
structure Keeps (a b : ResolvedStage) : Prop where
  stage : b.stage = a.stage
  app : ∀ key, isInjected key = false → b.app.get? key = a.app.get? key

namespace Keeps

theorem tell (h : Keeps a b) {key : String} (hkey : isInjected key = true) (v : Option String) :
    Keeps a (b.tell key v) where
  stage := h.stage
  app k hk := by
    have hne : k ≠ key := fun he => by simp [he, hkey] at hk
    rw [← h.app k hk]
    exact (get?_setOr b.app key v k).trans (if_neg hne)

theorem asConsumer (s : ResolvedStage) : Keeps s s.asConsumer where
  stage := rfl
  app key hkey := by
    have hne : key ≠ inputPartitioned ∧ key ≠ inputCount := by
      constructor <;> (rintro rfl; exact absurd hkey (by decide))
    show (setOr (s.app.insert inputPartitioned "true") inputCount _).get? key = _
    rw [get?_setOr, if_neg hne.2, StringMap.get?_insert_of_ne _ _ hne.1]

theorem asProducer (h : Keeps a b) (n : Nat) : Keeps a (b.asProducer n) := by
  rw [asProducer_eq]
  exact ((((h.tell (by decide) _).tell (by decide) _).tell (by decide) _).tell
    (by decide) _).tell (by decide) _

end Keeps

/-- A stage `b` that may have been told something is `a` up to what partitioning writes. If it was
told that its input is partitioned, it was also told to number its instances. -/
structure Told (a b : ResolvedStage) : Prop where
  stage : b.stage = a.stage
  app : ∀ key, isInjected key = false → b.app.get? key = a.app.get? key
  deployer : b.deployer =
    if b.app.contains inputPartitioned then a.deployer.insert indexed "true" else a.deployer

namespace Told

theorem keeps (h : Told a b) : Keeps a b := ⟨h.stage, h.app⟩

/-- A stage that was told nothing. -/
theorem refl (h : s.app.get? inputPartitioned = none) : Told s s :=
  ⟨rfl, fun _ _ => rfl, by simp [StringMap.contains, h]⟩

theorem asConsumer (s : ResolvedStage) : Told s s.asConsumer where
  stage := rfl
  app := (Keeps.asConsumer s).app
  deployer := by
    have hmarked : (setOr (s.app.insert inputPartitioned "true") inputCount
        (s.givenCount?.map Text.trim)).get? inputPartitioned = some "true" := by
      rw [get?_setOr, if_neg (by decide), StringMap.get?_insert_self]
    show _ = if (setOr (s.app.insert inputPartitioned "true") inputCount _).contains _ then _ else _
    rw [StringMap.contains, hmarked]
    rfl

theorem tell (h : Told a b) {key : String} (hkey : isInjected key = true)
    (hne : inputPartitioned ≠ key) (v : Option String) : Told a (b.tell key v) where
  stage := h.stage
  app := (h.keeps.tell hkey v).app
  deployer := by
    have hmark : (setOr b.app key v).contains inputPartitioned =
        b.app.contains inputPartitioned := by
      rw [StringMap.contains, get?_setOr, if_neg hne]
      rfl
    show b.deployer = if (setOr b.app key v).contains inputPartitioned then _ else _
    rw [hmark]
    exact h.deployer

theorem asProducer (h : Told a b) (n : Nat) : Told a (b.asProducer n) := by
  rw [asProducer_eq]
  exact ((((h.tell (by decide) (by decide) _).tell (by decide) (by decide) _).tell
    (by decide) (by decide) _).tell (by decide) (by decide) _).tell (by decide) (by decide) _

end Told

/-- What holds between a stage and itself, told nothing or told that it is a consumer, and still
holds after it was told to partition, holds between the stages before and after the pass. -/
theorem forall₂_propagateFrom_of {R : ResolvedStage → ResolvedStage → Prop}
    (hproducer : ∀ {a b : ResolvedStage} (n : Nat), R a b → R a (b.asProducer n))
    {front before : Option ResolvedStage} {stages : List ResolvedStage}
    (hstages : ∀ s ∈ stages, R s s ∧ R s s.asConsumer) : Option.Rel R front before →
      List.Forall₂ R (front.toList ++ stages) (propagateFrom pipeline before stages).1 := by
  induction stages generalizing front before with
  | nil =>
      intro hb
      rw [List.append_nil]
      exact forall₂_toList hb
  | cons s r ih =>
      intro hb
      have hs := hstages s (by simp)
      have hr := fun t ht => hstages t (List.mem_cons_of_mem s ht)
      rw [propagateFrom]
      split
      · split
        · -- a count that cannot be read ends the pass, and the rest is told nothing
          have hrest : ∀ t ∈ s :: r, R t t := fun t ht => (hstages t ht).1
          exact List.rel_append (forall₂_toList hb) (List.forall₂_same.2 hrest)
        · rename_i n _
          refine List.rel_append (forall₂_toList ?_) (ih hr (.some hs.2))
          cases hb with
          | none => exact .none
          | some hb => exact .some (hproducer n hb)
      · exact List.rel_append (forall₂_toList hb) (ih hr (.some hs.1))

/-- The pass over stages keeps what partitioning does not write. -/
theorem forall₂_keeps_propagate (pipeline : String) (stages : List ResolvedStage) :
    List.Forall₂ Keeps stages (propagate pipeline stages).1 :=
  forall₂_propagateFrom_of (fun n h => h.asProducer n)
    (fun s _ => ⟨⟨rfl, fun _ _ => rfl⟩, Keeps.asConsumer s⟩) .none

/-- The pass tells stages something, and leaves the definitions of the stages. -/
theorem map_stage_propagated {stages told : List ResolvedStage}
    (h : propagated pipeline stages = .ok told) : told.map (·.stage) = stages.map (·.stage) := by
  have hkeeps := forall₂_keeps_propagate pipeline stages
  rw [propagated_eq_ok_iff.1 h] at hkeeps
  exact map_eq_map_of_forall₂ (hkeeps.flip.imp fun _ _ h => h.stage)

/-- **The pass over stages writes what partitioning writes, and no more.** -/
theorem forall₂_told_propagate (pipeline : String) {stages : List ResolvedStage}
    (h : ∀ s ∈ stages, s.app.get? inputPartitioned = none) :
    List.Forall₂ Told stages (propagate pipeline stages).1 :=
  forall₂_propagateFrom_of (fun n h => h.asProducer n)
    (fun s hs => ⟨.refl (h s hs), Told.asConsumer s⟩) .none

end StreamPipeline.ResolvedStage
