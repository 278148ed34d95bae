import StreamPipeline.Proofs.Built
import StreamPipeline.Proofs.Definition

/-!
# What is said about one stage stays with it

What is said at deployment about one stage by its label may make it a partitioned consumer or tell
it to partition, and so reaches the stages next to it, which are told about that. It reaches no
further. **`targeted_locally`**: of two sets of properties that differ only in what they say about
one stage by its label come the same requests for all stages that do not stand next to it, and for
those that do, requests that differ at most in what partitioning writes (`Request.Beside`).
-/

namespace StreamPipeline

open StreamPipeline.Partition StreamPipeline.ResolvedStage

namespace Request

variable {registry : Registry} {d : Definition} {p q : Properties} {i j : Nat} {s target : Stage}

/-- Requests that differ at most in what partitioning writes. -/
structure Beside (a b : Request) : Prop where
  stage : a.stage = b.stage
  role : a.role = b.role
  coordinate : a.coordinate = b.coordinate
  pinned : a.pinned = b.pinned
  app : ∀ key, isInjected key = false → a.app.get? key = b.app.get? key
  deployer : ∀ key, key ≠ indexed → a.deployer.get? key = b.deployer.get? key

/-! ### The stages that are not spoken of -/

/-- The same is said about all stages but the one at a place. -/
structure AgreeBut (d : Definition) (i : Nat) (p q : Properties) : Prop where
  resolved : ∀ {j s}, j ≠ i → d.stages[j]? = some s → resolved p s = resolved q s
  pinned : ∀ {j s}, j ≠ i → d.stages[j]? = some s → p.pinned? s.label = q.pinned? s.label

/-- Where labels are distinct and have no dots, the label of one stage speaks of no other one. -/
theorem agreeBut (hd : d.WellFormed)
    (hlabels : ∀ l ∈ d.labels, '.' ∉ l.toList ∧ l ≠ Properties.everyStage)
    (hi : d.stages[i]? = some target)
    (hsame : ∀ key, Properties.names target.label key = false → p.get? key = q.get? key) :
    AgreeBut d i p q := by
  have hlabel : ∀ {j : Nat} {s : Stage}, d.stages[j]? = some s → d.labels[j]? = some s.label := fun hs => by
    rw [Definition.labels, List.getElem?_map, hs, Option.map_some]
  have hne : ∀ {j s}, j ≠ i → d.stages[j]? = some s → s.label ≠ target.label := by
    intro j s hj hs he
    obtain ⟨hlt, -⟩ := List.getElem?_eq_some_iff.1 (hlabel hs)
    exact hj ((List.getElem?_inj hlt hd.labels).1 (by rw [hlabel hs, hlabel hi, he]))
  have hl := hlabels _ (List.mem_of_getElem? (hlabel hi))
  constructor
  · intro j s hj hs
    have hm := (hlabels _ (List.mem_of_getElem? (hlabel hs))).1
    unfold Request.resolved
    rw [Properties.forStage_congr hsame hl hm (hne hj hs),
      Properties.forStage_congr hsame hl hm (hne hj hs)]
  · intro j s hj hs
    exact Properties.pinned?_congr hsame (hne hj hs)

namespace AgreeBut

variable (h : AgreeBut d i p q)

include h

theorem getElem?_resolve_eq (hj : j ≠ i) : (resolve d p)[j]? = (resolve d q)[j]? := by
  rw [getElem?_resolve, getElem?_resolve]
  cases hs : d.stages[j]? with
  | none => rfl
  | some s => rw [Option.map_some, Option.map_some, h.resolved hj hs]

theorem inFront_eq (hj : j ≠ i + 1) :
    inFront none (resolve d p) j = inFront none (resolve d q) j := by
  cases j with
  | zero => rfl
  | succ j => exact h.getElem?_resolve_eq fun he => hj (congrArg (· + 1) he)

/-- A stage with other stages between it and the one that is spoken of is told the same. -/
theorem toldAt_eq (hs : d.stages[j]? = some s) (hj : j ≠ i) (hbehind : j ≠ i + 1)
    (hfront : j + 1 ≠ i) : toldAt d p j s = toldAt d q j s := by
  have hlength : (resolve d p).length = (resolve d q).length := by
    simp [resolve_eq_map]
  have hnext : j + 1 ≠ i + 1 := fun he => hj (Nat.succ.inj he)
  rw [toldAt, toldAt, hlength, h.resolved hj hs,
    dueBy_congr (h.getElem?_resolve_eq hj) (h.inFront_eq hbehind),
    partsBy_congr (h.getElem?_resolve_eq hfront) (h.inFront_eq hnext)]

end AgreeBut

/-! ### Their requests -/

/-- **What is said about one stage by its label stays with it and what partitioning writes next to
it.** In a well-formed definition where labels have no dots and none is the star, and for two sets of
properties that differ only in keys that speak of the stage at a place, there are requests for the
same stages. For one that does not stand at that place or next to it the requests are the same, and
for one next to it they differ at most in app properties that partitioning writes and in the
numbering of instances. -/
theorem targeted_locally (hd : d.WellFormed)
    (hlabels : ∀ l ∈ d.labels, '.' ∉ l.toList ∧ l ≠ Properties.everyStage)
    (hi : d.stages[i]? = some target)
    (hsame : ∀ key, Properties.names target.label key = false → p.get? key = q.get? key)
    {requests requests' : List Request} (hp : build registry d p = .ok requests)
    (hq : build registry d q = .ok requests') :
    requests.length = requests'.length ∧
    ∀ j r r', requests[j]? = some r → requests'[j]? = some r' →
      (j ≠ i → j + 1 ≠ i → j ≠ i + 1 → r = r') ∧ (j + 1 = i ∨ j = i + 1 → Beside r r') := by
  have hagree := agreeBut hd hlabels hi hsame
  have hlength : requests.length = requests'.length := by
    have hstages := (map_stage_of_build hp).trans (map_stage_of_build hq).symm
    simpa using congrArg List.length hstages
  refine ⟨hlength, fun j r r' hr hr' => ?_⟩
  obtain ⟨s, hs⟩ := exists_stage hp hr
  obtain ⟨role, c, hrole, hfound, hmade⟩ := exists_request hp hs
  obtain ⟨role', c', hrole', hfound', hmade'⟩ := exists_request hq hs
  cases hr.symm.trans hmade
  cases hr'.symm.trans hmade'
  cases hrole.symm.trans hrole'
  cases hfound.symm.trans hfound'
  constructor
  · intro hj hfront hbehind
    rw [hagree.toldAt_eq hs hj hbehind hfront, hagree.pinned hj hs]
  · intro hnext
    have hj : j ≠ i := by omega
    have htold := hagree.resolved hj hs
    refine ⟨rfl, rfl, by rw [hagree.pinned hj hs], hagree.pinned hj hs, fun key hkey => ?_,
      fun key hkey => ?_⟩
    · show (toldAt d p j s).app.get? key = (toldAt d q j s).app.get? key
      rw [toldAt, toldAt, (keeps_told ..).app key hkey, (keeps_told ..).app key hkey, htold]
    · show (toldAt d p j s).deployer.get? key = (toldAt d q j s).deployer.get? key
      rw [toldAt, toldAt, get?_deployer_told _ _ _ hkey, get?_deployer_told _ _ _ hkey, htold]

end Request

/-! ### A chain of which one stage is spoken of -/

namespace Samples

theorem wellFormed_chain : chain.WellFormed :=
  ⟨Definition.isName_iff.1 (by decide), by decide, by decide⟩

theorem get?_saidAmid {key : String} (h : Properties.names "again" key = false) :
    saidAmid.get? key = (∅ : Properties).get? key := by
  refine StringMap.get?_ofList_of_ne fun e he hk => ?_
  subst hk
  revert e
  decide

end Samples

/-- Where the third stage is made a partitioned consumer and a producer, the stages next to it are
told about that, and the first one is not. -/
theorem Request.targeted_locally_chain : ∃ requests requests' : List Request,
    build Samples.registry Samples.chain Samples.saidAmid = .ok requests ∧
    build Samples.registry Samples.chain ∅ = .ok requests' ∧
    requests.map (·.app.get? outputCount) = [none, some "2", some "1", none] ∧
    requests'.map (·.app.get? outputCount) = [none, none, none, none] ∧
    ∀ j r r', requests[j]? = some r → requests'[j]? = some r' →
      (j = 0 → r = r') ∧ (j = 1 ∨ j = 3 → Beside r r') := by
  have hcounts : (build Samples.registry Samples.chain Samples.saidAmid).toOption.map
      (·.map (·.app.get? outputCount)) = some [none, some "2", some "1", none] := by
    decide +kernel
  have hcounts' : (build Samples.registry Samples.chain ∅).toOption.map
      (·.map (·.app.get? outputCount)) = some [none, none, none, none] := by
    decide +kernel
  obtain ⟨requests, h, hrequests⟩ := Option.map_eq_some_iff.1 hcounts
  obtain ⟨requests', h', hrequests'⟩ := Option.map_eq_some_iff.1 hcounts'
  have hp := Except.toOption_eq_some_iff.1 h
  have hq := Except.toOption_eq_some_iff.1 h'
  obtain ⟨-, hlocal⟩ := targeted_locally (i := 2) Samples.wellFormed_chain (by decide) rfl
    (fun _ => Samples.get?_saidAmid) hp hq
  refine ⟨requests, requests', hp, hq, hrequests, hrequests', fun j r r' hr hr' => ?_⟩
  obtain ⟨hfar, hnext⟩ := hlocal j r r' hr hr'
  exact ⟨fun hj => hfar (by omega) (by omega) (by omega), fun hj => hnext (by omega)⟩

end StreamPipeline
