import StreamPipeline.Proofs.Release.Repeated
import StreamPipeline.Proofs.Simultaneous

/-!
# Consumers that are worked out anew

What partitioning wrote into a manifest is taken back before it is worked out anew. So what an entry
has of it afterwards is what is due to its bare stage, and that goes by what this stage says and the
two next to it (`getElem?_repartition`, `dueAt`). Nothing else is touched (`Entry.Keeps`).

**`repartition_settles`**: once it is worked out, working it out again changes nothing, every entry
keeps all that partitioning does not write, and what partitioning writes it has just as it is due.
-/

namespace StreamPipeline

open StreamPipeline.Partition ResolvedStage

/-! ### One entry -/

/-- An entry `b` runs the same stage as `a`, the same artifact, and has the same properties up to
those that partitioning writes. -/
structure Entry.Keeps (a b : Entry) : Prop where
  label : b.label = a.label
  app : b.app = a.app
  role : b.role = a.role
  resource : b.spec.resource = a.spec.resource
  version : b.spec.version = a.spec.version
  pinned : b.spec.pinned = a.spec.pinned
  get? : ∀ key, isInjected key = false → b.spec.app.get? key = a.spec.app.get? key
  deployer : ∀ key, key ≠ indexed → b.spec.deployer.get? key = a.spec.deployer.get? key

namespace ResolvedStage

variable {key v : String}

/-- Where values are set for distinct keys, a key has the value that is set for it, or else the one
that it had. -/
theorem get?_foldl_setOr {l : List (String × Option String)} (h : (l.map (·.1)).Nodup)
    (m : Settings) : (l.foldl (fun m e => setOr m e.1 e.2) m).get? key = some v ↔
      (key, some v) ∈ l ∨ (∀ w, (key, some w) ∉ l) ∧ m.get? key = some v := by
  induction l generalizing m with
  | nil => simp
  | cons e r ih =>
      obtain ⟨k, o⟩ := e
      obtain ⟨hnew, hr⟩ := List.nodup_cons.1 h
      rw [List.foldl_cons, ih hr, get?_setOr]
      by_cases hkey : key = k
      · subst hkey
        have hnot : ∀ o, (key, o) ∉ r := fun o ho => hnew (List.mem_map.2 ⟨_, ho, rfl⟩)
        cases o <;> simp [hnot, eq_comm]
      · simp [hkey]

/-- A stage that nothing was said about has just the app properties that it is told. -/
theorem get?_app_told {s : ResolvedStage} (h : s.app = ∅) (isConsumer : Bool)
    (parts : Option Nat) : (s.told isConsumer parts).app.get? key = some v ↔
      (key, some v) ∈ s.dues isConsumer parts := by
  have hkeys : ((s.dues isConsumer parts).map (·.1)).Nodup := by
    show [inputPartitioned, inputCount, outputCount, outputKeyExpression, outputKeyExtractor,
      outputSelectorClass, outputSelectorExpression].Nodup
    decide
  refine (get?_foldl_setOr hkeys s.app).trans ?_
  rw [h]
  simp

/-- A stage is told to number its instances if it is a consumer. -/
theorem get?_indexed_told (s : ResolvedStage) (isConsumer : Bool) (parts : Option Nat) :
    (s.told isConsumer parts).deployer.get? indexed =
      if isConsumer then some "true" else s.deployer.get? indexed := by
  refine (get?_setOr ..).trans ((if_pos rfl).trans ?_)
  cases isConsumer <;> rfl

end ResolvedStage

namespace Entry

/-- The entry with what was written about its stage taken back, and told what is due to that. -/
def retold (e : Entry) (isConsumer : Bool) (parts : Option Nat) : Entry :=
  e.withStage (e.bare.told isConsumer parts)

variable (e : Entry) (isConsumer : Bool) (parts : Option Nat) {key v : String}

theorem keeps_retold : e.Keeps (e.retold isConsumer parts) where
  label := rfl
  app := rfl
  role := rfl
  resource := rfl
  version := rfl
  pinned := rfl
  get? key hkey := by
    have hbare := e.get?_bare key
    rw [hkey, if_neg Bool.false_ne_true] at hbare
    show (e.bare.stage.properties.overlay (e.bare.told isConsumer parts).app).get? key = _
    rw [StringMap.get?_overlay, (keeps_told ..).app key hkey]
    exact hbare
  deployer key hkey := by
    refine (get?_deployer_told e.bare isConsumer parts hkey).trans ?_
    rw [get?_deployer_bare, if_neg fun h => hkey h.2]

/-- An entry has the properties that partitioning writes just as they are due. -/
theorem get?_retold (hkey : isInjected key = true) :
    (e.retold isConsumer parts).spec.app.get? key = some v ↔
      (key, some v) ∈ e.bare.dues isConsumer parts := by
  have hown : e.bare.stage.properties.get? key = none := by
    refine (StringMap.get?_filterKeys _ _ _).trans (if_neg ?_)
    simp [hkey]
  show (e.bare.stage.properties.overlay (e.bare.told isConsumer parts).app).get? key = _ ↔ _
  rw [StringMap.get?_overlay, hown, Option.or_none]
  exact get?_app_told rfl isConsumer parts

/-- The instances of a consumer are numbered. Those of another stage are numbered as they were, but
if it was a consumer before they no longer are. -/
theorem get?_indexed_retold : (e.retold isConsumer parts).spec.deployer.get? indexed =
    if isConsumer then some "true"
    else if e.spec.app.contains inputPartitioned then none else e.spec.deployer.get? indexed := by
  refine (get?_indexed_told e.bare isConsumer parts).trans ?_
  rw [get?_deployer_bare]
  simp only [and_true]

end Entry

/-! ### All entries -/

namespace Manifest

variable {m m₁ : Manifest} {name : String} {i : Nat} {e : Entry}

/-- The stages of the entries, with what partitioning wrote taken back. -/
def bareStages (m : Manifest) : List ResolvedStage := m.entries.map Entry.bare

/-- Whether a partitioned consumer stands at a place of a manifest. -/
def consumerAt (m : Manifest) (i : Nat) : Bool := ResolvedStage.consumerAt none m.bareStages i

/-- Into how many parts the stage at a place is to partition, if it stands in front of a partitioned
consumer. -/
def partsFrom? (m : Manifest) (i : Nat) : Option Nat := partsAt? none m.bareStages (i + 1)

/-- What is due to an entry at a place, by what the bare stages next to it say. -/
def dueAt (m : Manifest) (i : Nat) (e : Entry) : List (String × Option String) :=
  e.bare.dues (m.consumerAt i) (m.partsFrom? i)

/-- Each entry is told anew what is due to it. -/
theorem getElem?_repartition (h : m.repartition name = .ok m₁) (i : Nat) :
    m₁.entries[i]? = m.entries[i]?.map fun e => e.retold (m.consumerAt i) (m.partsFrom? i) := by
  rw [repartition_eq] at h
  obtain ⟨told, htold, rfl⟩ := Except.map_eq_ok_iff.1 h
  show (List.zipWith Entry.withStage m.entries told)[i]? = _
  rw [List.getElem?_zipWith, getElem?_propagated htold, List.getElem?_map]
  cases m.entries[i]? <;> rfl

theorem length_repartition (h : m.repartition name = .ok m₁) :
    m₁.entries.length = m.entries.length := by
  rw [repartition_eq] at h
  obtain ⟨told, htold, rfl⟩ := Except.map_eq_ok_iff.1 h
  simp [length_propagated htold]

/-- **What becomes of an entry goes by that entry and those next to it.** -/
theorem getElem?_repartition_congr {m' m₁' : Manifest} {name' : String}
    (h : m.repartition name = .ok m₁) (h' : m'.repartition name' = .ok m₁')
    (hsame : ∀ j, i ≤ j + 1 → j ≤ i + 1 → m.entries[j]? = m'.entries[j]?) :
    m₁.entries[i]? = m₁'.entries[i]? := by
  have hbare : ∀ j, i ≤ j + 1 → j ≤ i + 1 → m.bareStages[j]? = m'.bareStages[j]? := by
    intro j hfront hbehind
    rw [bareStages, bareStages, List.getElem?_map, List.getElem?_map, hsame j hfront hbehind]
  have hself := hbare i (Nat.le_succ i) (Nat.le_succ i)
  have hnext := hbare (i + 1) (Nat.le_add_right i 2) (Nat.le_refl _)
  have hfront : inFront none m.bareStages i = inFront none m'.bareStages i := by
    cases i with
    | zero => rfl
    | succ j => exact hbare j (Nat.le_refl _) (Nat.le_add_right j 2)
  rw [getElem?_repartition h, getElem?_repartition h', hsame i (Nat.le_succ i) (Nat.le_succ i),
    consumerAt, consumerAt, consumerAt_congr hself hfront, partsFrom?, partsFrom?,
    partsAt?_congr hnext hself]

/-- Entries whose consumers were worked out stay as they are when that is done again. -/
theorem repartition_again (h : m.repartition name = .ok m₁) : m₁.repartition name = .ok m₁ := by
  have hmerge : ∀ m : Manifest, m.merge ∅ = m := fun m => by
    rw [merge]
    exact congrArg Manifest.mk (List.map_id' _)
  rw [← hmerge m] at h
  obtain ⟨m₂, hm₂, hiff⟩ := exists_repartition_again h
  -- nothing is overridden, and so nobody asks for the numbering of instances
  have hkept : ¬ m.Lapses ∅ m₁ := by
    rintro ⟨p, -, hp⟩
    cases hp.numbered
  rw [hmerge, hiff.2 hkept] at hm₂
  exact hm₂

/-- **Working out consumers settles a manifest, and touches only what partitioning writes.** Let the
consumers of a manifest be worked out anew, whatever labels and properties it has. Then

* doing it again changes nothing;
* the entries are the same ones in order, each with all that it had but for what partitioning
  writes;
* an app property that partitioning writes is there just as the pass over the bare stages tells it,
  and that goes by the bare stage and those next to it;
* the numbering of a stage's instances is asked for if the stage is a consumer; if it is not, it is
  asked for as before, unless the stage was marked as one. -/
theorem repartition_settles (h : m.repartition name = .ok m₁) :
    m₁.repartition name = .ok m₁ ∧ m₁.entries.length = m.entries.length ∧
    ∃ told, propagated name m.bareStages = .ok told ∧
      ∀ i e e₁, m.entries[i]? = some e → m₁.entries[i]? = some e₁ →
        e.Keeps e₁ ∧
        (∀ key, isInjected key = true →
          told[i]?.map (·.app.get? key) = some (e₁.spec.app.get? key) ∧
          ∀ v, e₁.spec.app.get? key = some v ↔ (key, some v) ∈ m.dueAt i e) ∧
        e₁.spec.deployer.get? indexed =
          if m.consumerAt i then some "true"
          else if e.spec.app.contains inputPartitioned then none
          else e.spec.deployer.get? indexed := by
  obtain ⟨told, htold, -⟩ := Except.map_eq_ok_iff.1 ((repartition_eq m name).symm.trans h)
  refine ⟨repartition_again h, length_repartition h, told, htold, fun i e e₁ he he₁ => ?_⟩
  have hpass := getElem?_propagated htold i
  rw [List.getElem?_map, he] at hpass
  rw [getElem?_repartition h, he] at he₁
  cases he₁
  refine ⟨e.keeps_retold _ _, fun key hkey => ⟨?_, fun v => e.get?_retold _ _ hkey⟩,
    e.get?_indexed_retold _ _⟩
  rw [hpass]
  refine congrArg some (Option.ext fun v => ?_)
  exact (get?_app_told rfl _ _).trans (e.get?_retold _ _ hkey).symm

end Manifest

/-- A source that was a partitioned consumer and partitioned for seven instances, in front of a sink
that wants three. -/
def Samples.stale : Manifest :=
  ⟨[⟨"http", "http", .source, (coordinate "http" "1.0.0").spec none
      (.ofList [(keyExpression, "id"), (inputPartitioned, "true"), (outputCount, "7")])
      (.ofList [(indexed, "true")])⟩,
    ⟨"log", "log", .sink, (coordinate "log" "1.0.0").spec none ∅ (.ofList [(count, "3")])⟩]⟩

/-- The source comes to partition for three instances, and is no consumer any more. -/
theorem Manifest.repartition_settles_stale : ∃ m₁, Samples.stale.repartition "chain" = .ok m₁ ∧
    m₁.repartition "chain" = .ok m₁ ∧ ∀ e₁, m₁.entries[0]? = some e₁ →
      e₁.spec.app.get? outputCount = some "3" ∧ e₁.spec.app.get? inputPartitioned = none ∧
      e₁.spec.deployer.get? indexed = none := by
  obtain ⟨m₁, h⟩ : ∃ m₁, Samples.stale.repartition "chain" = .ok m₁ :=
    Except.isOk_iff.1 (by decide)
  obtain ⟨hagain, -, told, -, hall⟩ := repartition_settles h
  refine ⟨m₁, h, hagain, fun e₁ he₁ => ?_⟩
  obtain ⟨-, hdue, hindexed⟩ := hall 0 _ e₁ rfl he₁
  refine ⟨((hdue outputCount (by decide)).2 _).2 (by decide), ?_, hindexed.trans (by decide)⟩
  have hnone : ∀ e, Samples.stale.entries[0]? = some e →
      ∀ due ∈ Samples.stale.dueAt 0 e, due.1 = inputPartitioned → due.2 = none := by
    rintro e ⟨⟩
    decide
  refine Option.eq_none_iff_forall_ne_some.2 fun v hv => ?_
  cases hnone _ rfl _ (((hdue inputPartitioned (by decide)).2 v).1 hv) rfl

end StreamPipeline
