import StreamPipeline.Proofs.Draft

/-!
# The labels of a draft

A stage keeps the label that it asks for unless a stage before it has that one. Then it gets its
app's name with the least number from two on that no stage before it has (`Draft.Gets`), or, if it
asks for another label than its app's name, there are no labels at all.

**What stages get is said place by place** (`Draft.labels_assigned`): of the labels only those that
were given before count, whether they were asked for or made up. The search for a number ends, since
each number that is taken is the label of another stage.
-/

namespace StreamPipeline.Draft

variable {pipeline app label : String} {used : List String} {stages labelled : List Stage}
  {s : Stage}

/-! ### The search for a number -/

/-- The least number from two on behind an app's name that makes a label which is not taken. -/
structure IsLeastFree (used : List String) (app : String) (n : Nat) : Prop where
  two_le : 2 ≤ n
  free : numbered app n ∉ used
  taken : ∀ k, 2 ≤ k → k < n → numbered app k ∈ used

/-- A search passes over numbers that are taken only, and over no more than it may. -/
theorem freeNumber_bounds (used : List String) (app : String) (fuel n : Nat) :
    n ≤ freeNumber used app fuel n ∧ freeNumber used app fuel n ≤ n + fuel ∧
      ∀ k, n ≤ k → k < freeNumber used app fuel n → numbered app k ∈ used := by
  induction fuel generalizing n with
  | zero => exact ⟨Nat.le_refl n, Nat.le_refl n, fun k hk hlt => absurd hlt (Nat.not_lt.2 hk)⟩
  | succ fuel ih =>
      unfold freeNumber
      split
      · rename_i htaken
        obtain ⟨hle, hge, hpassed⟩ := ih (n + 1)
        refine ⟨Nat.le_of_succ_le hle, by omega, fun k hk hlt => ?_⟩
        rcases Nat.eq_or_lt_of_le hk with rfl | hk
        · exact List.contains_iff_mem.1 htaken
        · exact hpassed k hk hlt
      · exact ⟨Nat.le_refl n, Nat.le_add_right .., fun k hk hlt => absurd hlt (Nat.not_lt.2 hk)⟩

/-- As many tries as there are labels suffice to find the least number that is free. -/
theorem isLeastFree_freeNumber (used : List String) (app : String) :
    IsLeastFree used app (freeNumber used app used.length 2) where
  two_le := (freeNumber_bounds used app used.length 2).1
  free := freeLabel_notMem used app
  taken := (freeNumber_bounds used app used.length 2).2.2

/-! ### What a stage gets -/

/-- What a stage gets behind stages with the labels `earlier`: the label that it asks for, or else a
number behind its app's name. -/
inductive Gets (earlier : List String) (s : Stage) : String → Prop
  | asked (hfree : s.label ∉ earlier) : Gets earlier s s.label
  | numbered {n : Nat} (htaken : s.label ∈ earlier) (happ : s.label = s.app)
      (hn : IsLeastFree earlier s.app n) : Gets earlier s (numbered s.app n)

/-- It does not matter in which order the labels were given. -/
theorem Gets.congr {earlier : List String} (h : Gets used s label)
    (he : ∀ l, l ∈ used ↔ l ∈ earlier) : Gets earlier s label := by
  cases h with
  | asked hfree => exact .asked fun hmem => hfree ((he _).2 hmem)
  | numbered htaken happ hn =>
      refine .numbered ((he _).1 htaken) happ ⟨hn.two_le, fun hmem => hn.free ((he _).2 hmem), ?_⟩
      exact fun k hk hlt => (he _).1 (hn.taken k hk hlt)

/-- The first of some stages gets a label, whatever the others are, and then these get theirs; or it
asks for a label that it cannot have. -/
theorem assignLabels_cons (pipeline : String) (used : List String) (s : Stage) :
    (∃ label, Gets used s label ∧ ∀ stages, assignLabels pipeline used (s :: stages) =
      (assignLabels pipeline (label :: used) stages).map ({ s with label } :: ·)) ∨
    s.label ∈ used ∧ s.label ≠ s.app ∧ ∀ stages, assignLabels pipeline used (s :: stages) =
      .error (.invalid pipeline (.duplicateLabel s.label)) := by
  have hmap : ∀ label stages, (do
      return { s with label } :: (← assignLabels pipeline (label :: used) stages)) =
      (assignLabels pipeline (label :: used) stages).map ({ s with label } :: ·) :=
    fun label stages => by cases assignLabels pipeline (label :: used) stages <;> rfl
  by_cases htaken : s.label ∈ used
  · by_cases happ : s.label = s.app
    · refine .inl ⟨_, .numbered htaken happ (isLeastFree_freeNumber used s.app), fun stages => ?_⟩
      rw [← hmap, assignLabels, if_pos (List.contains_iff_mem.2 htaken), if_neg (not_not.2 happ)]
      rfl
    · refine .inr ⟨htaken, happ, fun stages => ?_⟩
      rw [assignLabels, if_pos (List.contains_iff_mem.2 htaken), if_pos happ]
      rfl
  · refine .inl ⟨_, .asked htaken, fun stages => ?_⟩
    rw [← hmap, assignLabels, if_neg fun h => htaken (List.contains_iff_mem.1 h)]

/-- The label of the first stage counts for all others. -/
theorem mem_given_cons {l : String} : l ∈ label :: used ++ labelled.map (·.label) ↔
    l ∈ used ++ ({ s with label } :: labelled).map (·.label) := by
  simp only [List.cons_append, List.mem_cons, List.mem_append, List.map_cons]
  tauto

/-- At each place a stage gets its label behind those that were given before. -/
theorem gets_of_assignLabels (h : assignLabels pipeline used stages = .ok labelled) {i : Nat}
    (hs : stages[i]? = some s) : ∃ label, labelled[i]? = some { s with label } ∧
      Gets (used ++ (labelled.take i).map (·.label)) s label := by
  induction stages generalizing used labelled i with
  | nil => cases hs
  | cons t stages ih =>
      rcases assignLabels_cons pipeline used t with ⟨label, hgets, hrest⟩ | ⟨-, -, hfails⟩
      · rw [hrest] at h
        obtain ⟨r, hr, rfl⟩ := Except.map_eq_ok_iff.1 h
        cases i with
        | zero =>
            obtain rfl := Option.some.inj hs
            exact ⟨label, rfl, by simpa using hgets⟩
        | succ i =>
            obtain ⟨l, hl, hgets'⟩ := ih hr hs
            exact ⟨l, hl, hgets'.congr fun _ => mem_given_cons⟩
      · rw [hfails] at h
        cases h

/-- There are no labels just if some stage asks for one that was given before it; the first stage
that does so is named. -/
theorem assignLabels_eq_error_iff {f : Failure} : assignLabels pipeline used stages = .error f ↔
    ∃ i s labelled, stages[i]? = some s ∧
      assignLabels pipeline used (stages.take i) = .ok labelled ∧ s.label ≠ s.app ∧
      s.label ∈ used ++ labelled.map (·.label) ∧
      f = .invalid pipeline (.duplicateLabel s.label) := by
  induction stages generalizing used with
  | nil => exact iff_of_false nofun fun ⟨_, _, _, hs, _⟩ => nomatch hs
  | cons t stages ih =>
      rcases assignLabels_cons pipeline used t with
        ⟨label, hgets, hrest⟩ | ⟨htaken, happ, hfails⟩
      · rw [hrest, Except.map_eq_error_iff, ih]
        constructor
        · rintro ⟨i, s, labelled, hs, hbefore, hne, hmem, rfl⟩
          refine ⟨i + 1, s, { t with label } :: labelled, hs, ?_, hne, mem_given_cons.1 hmem, rfl⟩
          rw [List.take_succ_cons, hrest, hbefore]
          rfl
        · rintro ⟨i, s, labelled, hs, hbefore, hne, hmem, rfl⟩
          cases i with
          | zero =>
              -- the first stage is not the one that is refused
              cases hbefore
              obtain rfl := Option.some.inj hs
              have htaken : t.label ∈ used := by simpa using hmem
              cases hgets with
              | asked hfree => exact absurd htaken hfree
              | numbered _ happ _ => exact absurd happ hne
          | succ i =>
              rw [List.take_succ_cons, hrest] at hbefore
              obtain ⟨r, hr, rfl⟩ := Except.map_eq_ok_iff.1 hbefore
              exact ⟨i, s, r, hs, hr, hne, mem_given_cons.2 hmem, rfl⟩
      · rw [hfails]
        constructor
        · rintro ⟨⟩
          exact ⟨0, t, [], rfl, rfl, happ, by simpa using htaken, rfl⟩
        · rintro ⟨i, s, labelled, hs, hbefore, -, -, rfl⟩
          cases i with
          | zero =>
              obtain rfl := Option.some.inj hs
              rfl
          | succ i =>
              rw [List.take_succ_cons, hfails] at hbefore
              cases hbefore

/-! ### Labels -/

/-- **What stages get**, place by place, where only the labels that were given before count:

* the search for a number behind an app's name ends, at the least number from two on that is free,
  and passes over no more numbers than there are labels;
* stages that get labels stay what they are but for these, which are distinct, and each of them gets
  what it asks for or else the least number behind its app's name;
* there are no labels just if some stage asks for another one than its app's name which was given
  before it, and the first that does so is named. -/
theorem labels_assigned (pipeline : String) (stages : List Stage) :
    (∀ used app, ∃ n ≤ 2 + used.length, IsLeastFree used app n ∧
      freeLabel used app = numbered app n) ∧
    (∀ labelled, assignLabels pipeline [] stages = .ok labelled →
      labelled.length = stages.length ∧ (labelled.map (·.label)).Nodup ∧
      ∀ i s, stages[i]? = some s → ∃ label, labelled[i]? = some { s with label } ∧
        Gets ((labelled.take i).map (·.label)) s label) ∧
    ∀ f, assignLabels pipeline [] stages = .error f ↔
      ∃ i s labelled, stages[i]? = some s ∧
        assignLabels pipeline [] (stages.take i) = .ok labelled ∧ s.label ≠ s.app ∧
        s.label ∈ labelled.map (·.label) ∧ f = .invalid pipeline (.duplicateLabel s.label) := by
  refine ⟨fun used app => ⟨_, (freeNumber_bounds used app used.length 2).2.1,
    isLeastFree_freeNumber used app, rfl⟩, fun labelled h => ⟨length_assignLabels h,
    (nodup_of_assignLabels h).1, fun i s hs => ?_⟩, fun f => assignLabels_eq_error_iff⟩
  exact gets_of_assignLabels h hs

/-- The second of two stages of an app that ask for nothing else gets the next number that no stage
before it asks for; and a label that is asked for twice is refused. -/
theorem labels_assigned_filters :
    (∃ label, Gets ["filter", "filter-2"] (.ofApp "filter") label) ∧
      assignLabels "p" [] [⟨"a", "time", ∅⟩, ⟨"a", "log", ∅⟩] =
        .error (.invalid "p" (.duplicateLabel "a")) := by
  constructor
  · have h : assignLabels "p" [] [.ofApp "filter", ⟨"filter-2", "log", ∅⟩, .ofApp "filter"] =
        .ok [.ofApp "filter", ⟨"filter-2", "log", ∅⟩, ⟨"filter-3", "filter", ∅⟩] := by decide
    obtain ⟨label, -, hgets⟩ :=
      ((labels_assigned "p" _).2.1 _ h).2.2 2 (.ofApp "filter") rfl
    exact ⟨label, hgets⟩
  · exact ((labels_assigned "p" _).2.2 _).2
      ⟨1, ⟨"a", "log", ∅⟩, [⟨"a", "time", ∅⟩], rfl, by decide, by decide, by decide, rfl⟩

end StreamPipeline.Draft
