import Mathlib.Data.List.Forall2
import StreamPipeline.Proofs.Outcome
import StreamPipeline.Request

/-!
# When requests are made

The requests of a pipeline are made if its stages have roles, the pass over them does not fail, and
each app is registered in the role of its stage (`build_eq_ok_iff`).
-/

namespace StreamPipeline

/-- Each stage has one role. -/
theorem Stage.length_roles {pipeline : String} {isFollower : Bool} {stages : List Stage}
    {roles : List Role} (h : Stage.roles pipeline isFollower stages = .ok roles) :
    roles.length = stages.length := by
  induction stages generalizing isFollower roles with
  | nil =>
      cases h
      rfl
  | cons s r ih =>
      obtain ⟨role, -, h⟩ := Except.bind_eq_ok_iff.1 h
      obtain ⟨rest, hrest, h⟩ := Except.bind_eq_ok_iff.1 h
      cases h
      exact congrArg (· + 1) (ih hrest)

namespace Request

/-- A stage with what properties say about it. -/
def resolved (p : Properties) (s : Stage) : ResolvedStage :=
  ⟨s, p.forStage .app s.label, p.forStage .deployer s.label⟩

theorem resolve_eq_map (d : Definition) (p : Properties) :
    resolve d p = d.stages.map (resolved p) :=
  rfl

theorem map_stage_resolve (d : Definition) (p : Properties) :
    (resolve d p).map (·.stage) = d.stages := by
  rw [resolve_eq_map, List.map_map]
  exact List.map_id _

variable {registry : Registry} {p : Properties}

theorem ofStage_eq_ok_iff {s : ResolvedStage} {role : Role} {r : Request} :
    ofStage registry p s role = .ok r ↔ ∃ c, registry.find? s.stage.app role = some c ∧
      { stage := s.stage, role, coordinate := (p.pinned? s.stage.label).elim c c.pin, app := s.app
        deployer := s.deployer, pinned := p.pinned? s.stage.label } = r := by
  unfold ofStage
  cases registry.find? s.stage.app role <;> simp

/-- Nothing failed where all that is collected succeeded. -/
theorem collect_eq_iff {ε α : Type} {l : List (Except ε α)} {as : List α} :
    collect l = (as, []) ↔ l = as.map .ok := by
  induction l generalizing as with
  | nil => cases as <;> simp [collect]
  | cons x r ih =>
      cases x with
      | error e =>
          have hrest : collect (.error e :: r) = ((collect r).1, e :: (collect r).2) := rfl
          rw [hrest]
          cases as <;> simp
      | ok a =>
          have hrest : collect (.ok a :: r) = (a :: (collect r).1, (collect r).2) := rfl
          rw [hrest]
          cases as with
          | nil => simp
          | cons b bs =>
              have h := @ih bs
              simp only [Prod.ext_iff] at h
              simp [and_assoc, h]

/-- Stages with roles of which all requests are made. -/
def Makes (registry : Registry) (p : Properties) (stages : List ResolvedStage) (roles : List Role)
    (requests : List Request) : Prop :=
  List.Forall₂ (fun x r => ofStage registry p x.1 x.2 = .ok r) (stages.zip roles) requests

theorem makes_iff {stages : List ResolvedStage} {roles : List Role} {requests : List Request} :
    Makes registry p stages roles requests ↔
      List.zipWith (ofStage registry p) stages roles = requests.map .ok := by
  rw [Makes, ← List.forall₂_eq_eq_eq, List.forall₂_map_right_iff, ← List.map_uncurry_zip_eq_zipWith,
    List.forall₂_map_left_iff]
  rfl

/-- Each request was made of a stage in a role. -/
theorem Makes.exists_of_mem {stages : List ResolvedStage} {roles : List Role}
    {requests : List Request} (h : Makes registry p stages roles requests) {r : Request}
    (hr : r ∈ requests) : ∃ s role, ofStage registry p s role = .ok r := by
  unfold Makes at h
  generalize stages.zip roles = xs at h
  induction h with
  | nil => cases hr
  | cons hmade _ ih =>
      rcases List.mem_cons.1 hr with rfl | hr
      · exact ⟨_, _, hmade⟩
      · exact ih hr

/-- A request asks for the stage as it was told. -/
structure Asks (r : Request) (s : ResolvedStage) : Prop where
  stage : r.stage = s.stage
  app : r.app = s.app

theorem Makes.asks {stages : List ResolvedStage} {roles : List Role} {requests : List Request}
    (h : Makes registry p stages roles requests) (hroles : roles.length = stages.length) :
    List.Forall₂ Asks requests stages := by
  induction stages generalizing roles requests with
  | nil =>
      cases h
      exact .nil
  | cons s r ih =>
      obtain ⟨role, roles, rfl⟩ := List.exists_cons_of_length_eq_add_one hroles
      cases h with
      | cons hmade h =>
          obtain ⟨c, -, rfl⟩ := ofStage_eq_ok_iff.1 hmade
          exact .cons ⟨rfl, rfl⟩ (ih h (Nat.succ.inj hroles))

/-- Whether requests can be made depends on the apps and roles of the stages only. -/
theorem Makes.exists_makes {stages stages' : List ResolvedStage} {roles : List Role}
    {requests : List Request} (h : Makes registry p stages roles requests)
    (happs : stages'.map (·.stage.app) = stages.map (·.stage.app)) (p' : Properties) :
    ∃ requests', Makes registry p' stages' roles requests' := by
  induction stages generalizing stages' roles requests with
  | nil =>
      rw [List.map_nil, List.map_eq_nil_iff] at happs
      subst happs
      exact ⟨[], .nil⟩
  | cons s r ih =>
      obtain ⟨s', r', rfl, happ, happs⟩ := List.map_eq_cons_iff.1 happs
      cases roles with
      | nil => exact ⟨[], .nil⟩
      | cons role roles =>
          cases h with
          | cons hmade h =>
              obtain ⟨c, hfound, -⟩ := ofStage_eq_ok_iff.1 hmade
              obtain ⟨requests', h'⟩ := ih h happs
              exact ⟨_, .cons (ofStage_eq_ok_iff.2 ⟨c, happ ▸ hfound, rfl⟩) h'⟩

/-- What it takes to make the requests of a pipeline. -/
theorem build_eq_ok_iff {d : Definition} {requests : List Request} :
    build registry d p = .ok requests ↔ ∃ roles stages, d.roles = .ok roles ∧
      ResolvedStage.propagated d.name (resolve d p) = .ok stages ∧
      Makes registry p stages roles requests := by
  unfold build
  constructor
  · intro h
    obtain ⟨roles, hroles, h⟩ := Except.bind_eq_ok_iff.1 h
    obtain ⟨stages, hstages, h⟩ := Except.bind_eq_ok_iff.1 h
    refine ⟨roles, stages, hroles, hstages, makes_iff.2 (collect_eq_iff.1 ?_)⟩
    split at h
    · cases h
      assumption
    · cases h
  · rintro ⟨roles, stages, hroles, hstages, h⟩
    refine Except.bind_eq_ok_iff.2 ⟨roles, hroles, Except.bind_eq_ok_iff.2 ⟨stages, hstages, ?_⟩⟩
    rw [collect_eq_iff.2 (makes_iff.1 h)]
    rfl

/-- The requests of a pipeline are not made where the pass over its stages fails. -/
theorem build_eq_error {d : Definition} {roles : List Role} {e : Failure}
    (hroles : d.roles = .ok roles)
    (h : ResolvedStage.propagated d.name (resolve d p) = .error e) :
    build registry d p = .error e := by
  unfold build
  rw [hroles, h]
  rfl

end Request

end StreamPipeline
