import StreamPipeline.Definition.Typing
import StreamPipeline.Proofs.Outcome

/-!
# Roles by place

The roles of a pipeline's stages, found from the first stage on, are those that each stage has at
its place (`Definition.roles_eq_mapM`). A stage has none if neither an input nor an output binds it
and it is not the last one. So the roles are all found if there is no such stage, and the first one
is at fault otherwise (`Definition.exists_roles`, `Definition.roles_eq_error`).
-/

namespace StreamPipeline

theorem Stage.failure?_role {pipeline : String} {s : Stage} {followers : Nat} {isFollower : Bool} :
    (s.role pipeline followers isFollower).failure? =
      if followers ≠ 0 ∧ s.hasInput = false ∧ s.hasOutput = false then
        some (.untyped pipeline s.label)
      else none := by
  unfold role
  cases followers <;> cases s.hasInput <;> cases s.hasOutput <;> rfl

theorem Stage.roles_eq_mapM (pipeline : String) (isFollower : Bool) (stages : List Stage) :
    roles pipeline isFollower stages = (stages.mapIdx fun i s =>
      s.role pipeline (stages.length - (i + 1)) (isFollower || decide (0 < i))).mapM id := by
  induction stages generalizing isFollower with
  | nil => rfl
  | cons s r ih =>
      rw [roles, ih, List.mapIdx_cons, List.mapM_cons]
      simp

namespace Definition

variable {d : Definition} {i : Nat} {s : Stage}

/-- The role of a stage at a place. -/
def roleAt (d : Definition) (i : Nat) (s : Stage) : Except Failure Role :=
  s.role d.name (d.stages.length - (i + 1)) (decide (0 < i))

/-- What is wrong at a place: the stage is not the last one and has no binding. -/
def untypedAt? (d : Definition) (i : Nat) : Option Failure :=
  d.stages[i]?.bind fun s =>
    if i + 1 < d.stages.length ∧ s.hasInput = false ∧ s.hasOutput = false then
      some (.untyped d.name s.label)
    else none

theorem roles_eq_mapM (d : Definition) : d.roles = (d.stages.mapIdx d.roleAt).mapM id := by
  rw [roles, Stage.roles_eq_mapM]
  simp only [Bool.false_or]
  rfl

theorem failure?_mapIdx_roleAt (d : Definition) (i : Nat) :
    ((d.stages.mapIdx d.roleAt)[i]?.bind Except.failure?) = d.untypedAt? i := by
  rw [List.getElem?_mapIdx, untypedAt?]
  cases hs : d.stages[i]? with
  | none => rfl
  | some s =>
      obtain ⟨hlt, -⟩ := List.getElem?_eq_some_iff.1 hs
      have hlast : d.stages.length - (i + 1) ≠ 0 ↔ i + 1 < d.stages.length := by omega
      simp only [Option.map_some, Option.bind_some, roleAt, Stage.failure?_role, hlast]

/-- The first stage without a role is at fault. -/
theorem roles_eq_error {e : Failure} (h : Except.Foremost d.untypedAt? i e) :
    d.roles = .error e := by
  rw [roles_eq_mapM]
  refine Except.mapM_id_eq_error (i := i) ?_
  rwa [funext d.failure?_mapIdx_roleAt]

/-- Where each stage has a role, the roles are found. -/
theorem exists_roles (h : ∀ i, d.untypedAt? i = none) : ∃ roles, d.roles = .ok roles := by
  rw [roles_eq_mapM]
  exact Except.exists_mapM_id fun i => (d.failure?_mapIdx_roleAt i).trans (h i)

theorem untypedAt?_eq_none {roles : List Role} (h : d.roles = .ok roles) :
    ∀ i, d.untypedAt? i = none := by
  rcases Except.fine_or_foremost d.untypedAt? with hfine | ⟨i, e, hfirst⟩
  · exact hfine
  · cases (roles_eq_error hfirst).symm.trans h

/-- The roles are those of the stages at their places. -/
theorem map_ok_getElem? {roles : List Role} (h : d.roles = .ok roles) (i : Nat) :
    roles[i]?.map .ok = d.stages[i]?.map (d.roleAt i) := by
  rw [roles_eq_mapM] at h
  rw [← List.getElem?_map, ← Except.mapM_id_eq_ok_iff.1 h, List.getElem?_mapIdx]

end Definition

end StreamPipeline
