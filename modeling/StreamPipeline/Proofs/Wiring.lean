import StreamPipeline.Proofs.Draft
import StreamPipeline.Samples

/-!
# How a draft's stages are connected

Each stage is connected to the one before it by what that one publishes to in the end, so that a
stage at a place follows from the draft's and its neighbour in front (`getElem?_wire`). The ends are
bound last (`getElem?_consumeFrom`, `getElem?_publishTo`).

**The bindings of a definition that is built** are said for every place in `wired_of_build`, and
with them that nothing else about a stage is new.
-/

namespace StreamPipeline

namespace Stage

/-- The group of consumers to which the stage belongs. -/
def group? (s : Stage) : Option String := s.properties.get? Binding.group

theorem get?_set (s : Stage) (key value k : String) :
    (s.set key value).properties.get? k =
      if k = key then some value else s.properties.get? k :=
  StringMap.get?_insert ..

theorem get?_setIfNew (s : Stage) (key value k : String) :
    (s.setIfNew key value).properties.get? k =
      if k = key then some ((s.properties.get? key).getD value) else s.properties.get? k :=
  StringMap.get?_insertIfNew ..

/-- The stage is `a` bound in another way. -/
structure BoundAs (s a : Stage) (input output group : Option String) : Prop where
  label : s.label = a.label
  app : s.app = a.app
  input : s.input? = input
  output : s.output? = output
  group : s.group? = group
  other : ∀ key, Binding.isBinding key = false → s.properties.get? key = a.properties.get? key

namespace BoundAs

variable {s a : Stage} {input output group : Option String}

theorem refl (a : Stage) : a.BoundAs a a.input? a.output? a.group? :=
  ⟨rfl, rfl, rfl, rfl, rfl, fun _ _ => rfl⟩

theorem set (h : s.BoundAs a input output group) (key : String)
    (hkey : Binding.isBinding key = true) (value : String) :
    (s.set key value).BoundAs a (if Binding.input = key then some value else input)
      (if Binding.output = key then some value else output)
      (if Binding.group = key then some value else group) where
  label := h.label
  app := h.app
  input := by rw [← h.input]; exact get?_set ..
  output := by rw [← h.output]; exact get?_set ..
  group := by rw [← h.group]; exact get?_set ..
  other k hk := by
    have hne : k ≠ key := by
      rintro rfl
      exact Bool.false_ne_true (hk.symm.trans hkey)
    rw [get?_set, if_neg hne, h.other k hk]

theorem setIfNew (h : s.BoundAs a input output group) (key : String)
    (hkey : Binding.isBinding key = true) (value : String) :
    (s.setIfNew key value).BoundAs a
      (if Binding.input = key then some (input.getD value) else input)
      (if Binding.output = key then some (output.getD value) else output)
      (if Binding.group = key then some (group.getD value) else group) where
  label := h.label
  app := h.app
  input := by
    rw [← h.input, input?, get?_setIfNew]
    split <;> simp_all [input?]
  output := by
    rw [← h.output, output?, get?_setIfNew]
    split <;> simp_all [output?]
  group := by
    rw [← h.group, group?, get?_setIfNew]
    split <;> simp_all [group?]
  other k hk := by
    have hne : k ≠ key := by
      rintro rfl
      exact Bool.false_ne_true (hk.symm.trans hkey)
    rw [get?_setIfNew, if_neg hne, h.other k hk]

end BoundAs

end Stage

namespace Draft

variable {pipeline : String} {stages : List Stage}

/-! ### Places -/

/-- A stage behind a destination, which publishes to one in turn if another stage follows. -/
def connected (pipeline : String) (dest : Option String) (hasNext : Bool) (s : Stage) : Stage :=
  if hasNext then (consuming pipeline dest s).setIfNew Binding.output (pipe pipeline s)
  else consuming pipeline dest s

/-- The first stage where it is bound to a source. -/
def sourced (pipeline : String) (source : Option String) (s : Stage) : Stage :=
  match source with
  | some dest => (s.set Binding.input dest).setIfNew Binding.group pipeline
  | none => s

/-- The last stage where it is bound to a target. -/
def targeted (target : Option String) (s : Stage) : Stage :=
  match target with
  | some dest => s.set Binding.output dest
  | none => s

theorem boundAs_connected (pipeline : String) (dest : Option String) (hasNext : Bool) (s : Stage) :
    (connected pipeline dest hasNext s).BoundAs s (s.input?.or dest)
      (if hasNext then some (s.output?.getD (pipe pipeline s)) else s.output?)
      (if dest.isSome then some (s.group?.getD pipeline) else s.group?) := by
  have hconsuming : (consuming pipeline dest s).BoundAs s (s.input?.or dest) s.output?
      (if dest.isSome then some (s.group?.getD pipeline) else s.group?) := by
    cases dest with
    | none =>
        rw [Option.or_none]
        exact .refl s
    | some dest =>
        rw [Option.or_some]
        exact ((Stage.BoundAs.refl s).setIfNew Binding.input rfl dest).setIfNew
          Binding.group rfl pipeline
  cases hasNext with
  | false => exact hconsuming
  | true => exact hconsuming.setIfNew Binding.output rfl _

theorem boundAs_sourced {s a : Stage} {input output group : Option String}
    (h : s.BoundAs a input output group) (pipeline : String) (source : Option String) :
    (sourced pipeline source s).BoundAs a (source.or input) output
      (if source.isSome then some (group.getD pipeline) else group) := by
  cases source with
  | none => exact h
  | some dest => exact (h.set Binding.input rfl dest).setIfNew Binding.group rfl pipeline

theorem boundAs_targeted {s a : Stage} {input output group : Option String}
    (h : s.BoundAs a input output group) (target : Option String) :
    (targeted target s).BoundAs a input (target.or output) group := by
  cases target with
  | none => exact h
  | some dest => exact h.set Binding.output rfl dest

theorem wire_cons (dest : Option String) (s : Stage) :
    wire pipeline dest (s :: stages) =
      connected pipeline dest (!stages.isEmpty) s ::
        wire pipeline (connected pipeline dest (!stages.isEmpty) s).output? stages := by
  cases stages <;> rfl

/-- A stage at a place is connected to what the one in front of it publishes to. -/
theorem getElem?_wire (dest : Option String) (stages : List Stage) (i : Nat) :
    (wire pipeline dest stages)[i]? = stages[i]?.map (connected pipeline
      (if i = 0 then dest else (wire pipeline dest stages)[i - 1]?.bind Stage.output?)
      (decide (i + 1 < stages.length))) := by
  induction stages generalizing dest i with
  | nil => rfl
  | cons s r ih =>
      rw [wire_cons]
      cases i with
      | zero => cases r <;> simp
      | succ i =>
          rw [List.getElem?_cons_succ, ih, List.getElem?_cons_succ, List.length_cons]
          simp only [Nat.add_lt_add_iff_right]
          cases i <;> rfl

theorem getElem?_consumeFrom (source : Option String) (stages : List Stage) (i : Nat) :
    (consumeFrom pipeline source stages)[i]? =
      stages[i]?.map fun s => if i = 0 then sourced pipeline source s else s := by
  cases stages with
  | nil => rfl
  | cons s r => cases source <;> cases i <;> simp [consumeFrom, sourced]

theorem getElem?_publishTo (target : Option String) (stages : List Stage) (i : Nat) :
    (publishTo target stages)[i]? =
      stages[i]?.map fun s => if i + 1 = stages.length then targeted target s else s := by
  induction stages generalizing i with
  | nil => rfl
  | cons s r ih =>
      cases r with
      | nil => cases target <;> cases i <;> simp [publishTo, targeted]
      | cons t r =>
          show (s :: publishTo target (t :: r))[i]? = _
          cases i with
          | zero => simp
          | succ i => simp [ih]

/-! ### Definitions that are built -/

variable {draft : Draft} {d : Definition} {labelled : List Stage} {i : Nat} {l : Stage}

/-- A stage that another one follows publishes somewhere. -/
theorem exists_output (pipeline : String) (hi : i + 1 < labelled.length) :
    ∃ dest, (wire pipeline none labelled)[i]?.bind Stage.output? = some dest := by
  rw [getElem?_wire, List.getElem?_eq_getElem (Nat.lt_of_succ_lt hi), Option.map_some,
    Option.bind_some, (boundAs_connected ..).output]
  exact ⟨_, if_pos (decide_eq_true hi)⟩

/-- A stage is connected to the one in front of it, if there is one. -/
theorem exists_wired (pipeline : String) (hl : labelled[i]? = some l) :
    ∃ w, (wire pipeline none labelled)[i]? = some w ∧ w.BoundAs l
      (if i = 0 then l.input?
        else l.input?.or ((wire pipeline none labelled)[i - 1]?.bind Stage.output?))
      (if i + 1 < labelled.length then some (l.output?.getD (pipe pipeline l)) else l.output?)
      (if i = 0 then l.group? else some (l.group?.getD pipeline)) := by
  refine ⟨_, (getElem?_wire none labelled i).trans (congrArg (Option.map _) hl), ?_⟩
  cases i with
  | zero => simpa using boundAs_connected pipeline none (decide (0 + 1 < labelled.length)) l
  | succ i =>
      obtain ⟨dest, hdest⟩ := exists_output pipeline (List.getElem?_eq_some_iff.1 hl).1
      simp only [Nat.add_sub_cancel, hdest, Nat.succ_ne_zero, if_false]
      simpa using
        boundAs_connected pipeline (some dest) (decide (i + 1 + 1 < labelled.length)) l

theorem getElem?_joined (draft : Draft) (labelled : List Stage) (i : Nat) :
    (draft.joined labelled)[i]? = (wire draft.name none labelled)[i]?.map fun w =>
      let s := if i = 0 then sourced draft.name draft.source w else w
      if i + 1 = labelled.length then targeted draft.target s else s := by
  have hlength : (consumeFrom draft.name draft.source (wire draft.name none labelled)).length =
      labelled.length := by
    have hlabels := labels_consumeFrom draft.name draft.source (wire draft.name none labelled)
    rw [labels_wire] at hlabels
    simpa using congrArg List.length hlabels
  unfold joined
  rw [getElem?_publishTo, getElem?_consumeFrom, Option.map_map, hlength]
  rfl

/-- What a stage publishes to that another one follows is settled before the ends are bound. -/
theorem output?_joined (draft : Draft) (hi : i + 1 < labelled.length) :
    (draft.joined labelled)[i]?.bind Stage.output? =
      (wire draft.name none labelled)[i]?.bind Stage.output? := by
  rw [getElem?_joined]
  cases (wire draft.name none labelled)[i]? with
  | none => rfl
  | some w =>
      have hsourced := (boundAs_sourced (.refl w) draft.name draft.source).output
      simp only [Option.map_some, Option.bind_some, if_neg (Nat.ne_of_lt hi)]
      split
      · exact hsourced
      · rfl

/-- A labelled stage among the others of a definition is bound in front and behind. -/
theorem exists_joined (draft : Draft) (hl : labelled[i]? = some l) :
    ∃ s, (draft.joined labelled)[i]? = some s ∧ s.BoundAs l
      (if i = 0 then draft.source.or l.input?
        else l.input?.or ((draft.joined labelled)[i - 1]?.bind Stage.output?))
      (if i + 1 < labelled.length then some (l.output?.getD (pipe draft.name l))
        else draft.target.or l.output?)
      (if i = 0 ∧ draft.source = none then l.group? else some (l.group?.getD draft.name)) := by
  obtain ⟨w, hw, hbound⟩ := exists_wired draft.name hl
  have hi := (List.getElem?_eq_some_iff.1 hl).1
  refine ⟨_, (getElem?_joined draft labelled i).trans (congrArg (Option.map _) hw), ?_⟩
  -- In front a stage is bound to a source or to another stage, whatever is behind it.
  have hfront : (if i = 0 then sourced draft.name draft.source w else w).BoundAs l
      (if i = 0 then draft.source.or l.input?
        else l.input?.or ((draft.joined labelled)[i - 1]?.bind Stage.output?))
      (if i + 1 < labelled.length then some (l.output?.getD (pipe draft.name l)) else l.output?)
      (if i = 0 ∧ draft.source = none then l.group? else some (l.group?.getD draft.name)) := by
    cases i with
    | zero => cases hsource : draft.source <;>
        simpa [hsource] using boundAs_sourced hbound draft.name draft.source
    | succ i =>
        rw [Nat.add_sub_cancel] at hbound ⊢
        rw [output?_joined draft hi]
        simpa using hbound
  by_cases hlast : i + 1 = labelled.length
  · have hnot : ¬ i + 1 < labelled.length := by omega
    rw [if_neg hnot] at hfront ⊢
    simpa only [if_pos hlast] using boundAs_targeted hfront draft.target
  · have hbefore : i + 1 < labelled.length := by omega
    rw [if_pos hbefore] at hfront ⊢
    simpa only [if_neg hlast] using hfront

/-- **The bindings of a definition that is built**, at every place. The stages are those of the
draft in order, with the labels that are assigned to them.

* Each stage but the last publishes to the destination that the draft gives it, or else to one that
  is called after the pipeline and its label. The last one publishes to the draft's target, or else
  to what the draft gives it.
* Each stage but the first consumes from the destination that the draft gives it, or else from what
  the one in front of it publishes to in the end. The first one consumes from the draft's source, or
  else from what the draft gives it.
* A stage that another one or a source is in front of is in the group that the draft gives it, or
  else in one that is called as the pipeline is.
* Nothing else about a stage is new.
* Stages at different places would publish to different destinations by their labels. -/
theorem wired_of_build (h : draft.build = .ok d) :
    (∃ labelled, assignLabels draft.name [] draft.stages = .ok labelled ∧
      d.labels = labelled.map (·.label)) ∧
    d.name = draft.name ∧ d.text = draft.text ∧ d.stages.length = draft.stages.length ∧
    (∀ (i : Nat) (a s : Stage), draft.stages[i]? = some a → d.stages[i]? = some s →
      s.BoundAs { a with label := s.label }
        (if i = 0 then draft.source.or a.input?
          else a.input?.or (d.stages[i - 1]?.bind Stage.output?))
        (if i + 1 < d.stages.length then some (a.output?.getD (d.name ++ "." ++ s.label))
          else draft.target.or a.output?)
        (if i = 0 ∧ draft.source = none then a.group? else some (a.group?.getD d.name))) ∧
    ∀ (i j : Nat) (s t : Stage), d.stages[i]? = some s → d.stages[j]? = some t → i ≠ j →
      d.name ++ "." ++ s.label ≠ d.name ++ "." ++ t.label := by
  have hdistinct : d.labels.Nodup := (wellFormed_of_build h).labels
  obtain ⟨-, labelled, hlabelled, rfl⟩ := exists_of_build h
  refine ⟨⟨labelled, hlabelled, labels_joined draft labelled⟩, rfl, rfl,
    (length_joined draft labelled).trans (length_assignLabels hlabelled),
    fun i a s ha hs => ?_, fun i j s t hs ht hne hsame => hne ?_⟩
  · obtain ⟨label, hl⟩ := exists_assigned hlabelled ha
    obtain ⟨s', hs', hbound⟩ := exists_joined draft hl
    obtain rfl := Option.some.inj (hs'.symm.trans hs)
    rw [hbound.label, length_joined]
    exact hbound
  · have hlabel : s.label = t.label := by simpa using hsame
    have hs' := (List.getElem?_map ..).trans (congrArg (Option.map (·.label)) hs)
    have ht' := (List.getElem?_map ..).trans (congrArg (Option.map (·.label)) ht)
    exact (List.getElem?_inj (List.getElem?_eq_some_iff.1 hs').1 hdistinct).1
      (hs'.trans ((congrArg some hlabel).trans ht'.symm))

/-- Of two filters one behind the other, the second one consumes from what the first one is called
by, in its own group, and publishes to the target. -/
theorem wired_of_build_tap : ∃ d, Samples.tap.build = .ok d ∧ ∃ s, d.stages[1]? = some s ∧
    s.label = "filter-2" ∧ s.input? = some "tap.filter" ∧ s.output? = some "big" ∧
      s.group? = some "again" := by
  have h : Samples.tap.build = .ok _ := rfl
  have hbound := (wired_of_build h).2.2.2.2.1 1 _ _ rfl rfl
  exact ⟨_, h, _, rfl, rfl, hbound.input, hbound.output, hbound.group⟩

end Draft

end StreamPipeline
