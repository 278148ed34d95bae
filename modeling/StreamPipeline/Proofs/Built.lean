import Mathlib.Data.List.ReduceOption
import StreamPipeline.Proofs.Properties
import StreamPipeline.Proofs.Request
import StreamPipeline.Proofs.Simultaneous
import StreamPipeline.Proofs.Typing
import StreamPipeline.Samples

/-!
# What building requests comes to

Building the requests of a pipeline goes wrong in three ways, one before the other: a stage has no
role, a partitioned consumer has a count that is no positive number, or apps are not registered in
the roles of their stages, and then all of these are named (`build_outcome`). If nothing goes wrong,
there is one request for each stage, and it asks for the stage as it was told
(`exists_request`).

**`said_of_build`**: what a request says under a key that partitioning does not write is what was
said at deployment about its stage by label, or else about every stage, or else what the definition
says.
-/

namespace StreamPipeline.Request

open StreamPipeline.Partition StreamPipeline.ResolvedStage

variable {registry : Registry} {d : Definition} {p : Properties} {requests : List Request}
  {i : Nat} {s : Stage}

/-! ### Stages that are told -/

/-- What is wrong at a place of a pipeline: a partitioned consumer has a count that is no positive
number. -/
def miscountAt? (d : Definition) (p : Properties) (i : Nat) : Option Failure :=
  faultAt? d.name none (resolve d p) i

/-- The stage at a place with what properties say about it, told what is due to it. -/
def toldAt (d : Definition) (p : Properties) (i : Nat) (s : Stage) : ResolvedStage :=
  (resolved p s).told (dueBy (resolve d p).length none (resolve d p) i)
    (partsBy (resolve d p).length none (resolve d p) (i + 1))

theorem getElem?_resolve (d : Definition) (p : Properties) (i : Nat) :
    (resolve d p)[i]? = d.stages[i]?.map (resolved p) :=
  List.getElem?_map ..

theorem getElem?_toldBy (d : Definition) (p : Properties) (i : Nat) :
    (toldBy (resolve d p).length none (resolve d p))[i]? = d.stages[i]?.map (toldAt d p i) := by
  rw [toldBy, List.getElem?_mapIdx, getElem?_resolve, Option.map_map]
  rfl

theorem propagated_eq_ok (h : ∀ i, miscountAt? d p i = none) :
    propagated d.name (resolve d p) = .ok (toldBy (resolve d p).length none (resolve d p)) :=
  propagated_eq_ok_iff.2 (propagate_of_fine h)

theorem propagated_eq_error {e : Failure} (h : Except.Foremost (miscountAt? d p) i e) :
    propagated d.name (resolve d p) = .error e :=
  propagated_eq_error_iff.2 (by rw [propagate_of_foremost h])

theorem miscountAt?_eq_none {stages : List ResolvedStage}
    (h : propagated d.name (resolve d p) = .ok stages) : ∀ i, miscountAt? d p i = none :=
  fine_of_propagated h

/-! ### Requests that are made -/

/-- A stage in its role, told what is due to it, is asked for at its place. -/
theorem exists_request (h : build registry d p = .ok requests) (hs : d.stages[i]? = some s) :
    ∃ role c, d.roleAt i s = .ok role ∧ registry.find? s.app role = some c ∧
      requests[i]? = some
        { stage := s, role, coordinate := (p.pinned? s.label).elim c c.pin
          app := (toldAt d p i s).app, deployer := (toldAt d p i s).deployer
          pinned := p.pinned? s.label } := by
  obtain ⟨roles, stages, hroles, hstages, hmakes⟩ := build_eq_ok_iff.1 h
  obtain rfl := Except.ok.inj ((propagated_eq_ok (miscountAt?_eq_none hstages)).symm.trans hstages)
  have hrole := Definition.map_ok_getElem? hroles i
  have hmade := congrArg (·[i]?) (makes_iff.1 hmakes)
  simp only [List.getElem?_map, List.getElem?_zipWith, getElem?_toldBy, hs, Option.map_some]
    at hrole hmade
  obtain ⟨role, hi, hrole⟩ := Option.map_eq_some_iff.1 hrole
  rw [hi] at hmade
  obtain ⟨r, hr, hmade⟩ := Option.map_eq_some_iff.1 hmade.symm
  obtain ⟨c, hfound, rfl⟩ := ofStage_eq_ok_iff.1 hmade.symm
  exact ⟨role, c, hrole.symm, hfound, hr⟩

theorem map_stage_of_build (h : build registry d p = .ok requests) :
    requests.map (·.stage) = d.stages := by
  obtain ⟨roles, stages, hroles, hstages, hmakes⟩ := build_eq_ok_iff.1 h
  have hlength : roles.length = stages.length := by
    rw [Stage.length_roles hroles, length_propagated hstages, resolve_eq_map, List.length_map]
  rw [map_eq_map_of_forall₂ ((hmakes.asks hlength).imp fun _ _ h => h.stage),
    map_stage_propagated hstages, map_stage_resolve]

/-- There is a stage at the place of a request. -/
theorem exists_stage (h : build registry d p = .ok requests) {r : Request}
    (hr : requests[i]? = some r) : ∃ s, d.stages[i]? = some s :=
  ⟨r.stage, by rw [← map_stage_of_build h, List.getElem?_map, hr, Option.map_some]⟩

/-! ### What is said about a stage -/

/-- **What a request says is what was said**: under a key that partitioning does not write, to the
app what was said at deployment about the stage by its label, or else about every stage, or else
what the definition says; to the platform likewise, but for the definition. Its version is pinned
just if a version was said that is not blank. -/
theorem said_of_build (h : build registry d p = .ok requests) (hs : d.stages[i]? = some s) :
    ∃ r, requests[i]? = some r ∧ r.stage = s ∧
      (∀ key, key ≠ "" → isInjected key = false → r.settings.get? key =
        ((p.get? ("app." ++ s.label ++ "." ++ key)).or (p.get? ("app.*." ++ key))).or
          (s.properties.get? key)) ∧
      (∀ key, key ≠ "" → key ≠ indexed → r.deployer.get? key =
        (p.get? ("deployer." ++ s.label ++ "." ++ key)).or (p.get? ("deployer.*." ++ key))) ∧
      r.pinned = ((p.get? ("version." ++ s.label)).map Text.trim).filter (!·.isEmpty) := by
  obtain ⟨role, c, -, -, hr⟩ := exists_request h hs
  refine ⟨_, hr, rfl, fun key hkey hinjected => ?_, fun key hkey hindexed => ?_, rfl⟩
  · have htold : (toldAt d p i s).app.get? key = (p.forStage .app s.label).get? key :=
      (keeps_told ..).app key hinjected
    rw [settings, StringMap.get?_overlay, htold, Properties.get?_forStage p .app s.label hkey]
    rfl
  · have htold : (toldAt d p i s).deployer.get? key = (p.forStage .deployer s.label).get? key :=
      get?_deployer_told _ _ _ hindexed
    rw [htold, Properties.get?_forStage p .deployer s.label hkey]
    rfl

/-- What is said about all stages is said about the one whose label is the star. -/
theorem said_of_build_starred : ∃ requests r,
    build Samples.registry Samples.starred Samples.saidToAll = .ok requests ∧
    requests[1]? = some r ∧ r.settings.get? "level" = some "INFO" ∧
    r.settings.get? Binding.input = some "starred.time" ∧
    r.deployer.get? "memory" = some "1g" ∧ r.pinned = some "1.1.0" := by
  have hbuilt : (build Samples.registry Samples.starred Samples.saidToAll).isOk = true := by decide
  obtain ⟨requests, h⟩ := Except.isOk_iff.1 hbuilt
  obtain ⟨r, hr, -, happ, hdeployer, hpinned⟩ := said_of_build (i := 1) h rfl
  refine ⟨requests, r, h, hr, ?_, ?_, ?_, ?_⟩
  · rw [happ _ (by decide) (by decide)]
    decide
  · rw [happ _ (by decide) (by decide)]
    decide
  · rw [hdeployer _ (by decide) (by decide)]
    decide
  · rw [hpinned]
    decide

/-! ### What goes wrong -/

/-- The app of the stage at a place, unless it is registered in the role of the stage. -/
def unregisteredAt? (registry : Registry) (d : Definition) (i : Nat) (s : Stage) :
    Option Unregistered :=
  (d.roleAt i s).toOption.bind fun role =>
    if (registry.find? s.app role).isNone then some ⟨s.label, s.app, role.word⟩ else none

/-- The apps that are not registered in the roles of their stages, in the order of these. -/
def missing (registry : Registry) (d : Definition) : List Unregistered :=
  (d.stages.mapIdx (unregisteredAt? registry d)).reduceOption

/-- What failed is collected in order. -/
theorem collect_snd {ε α : Type} (l : List (Except ε α)) :
    (collect l).2 = (l.map Except.failure?).reduceOption := by
  induction l with
  | nil => rfl
  | cons x r ih =>
      cases x with
      | ok a => exact ih
      | error e => exact congrArg (e :: ·) ih

theorem failure?_ofStage (registry : Registry) (p : Properties) (s : ResolvedStage) (role : Role) :
    (ofStage registry p s role).failure? =
      if (registry.find? s.stage.app role).isNone then
        some ⟨s.stage.label, s.stage.app, role.word⟩
      else none := by
  unfold ofStage
  cases registry.find? s.stage.app role <;> rfl

/-- What cannot be asked for is missing. -/
theorem collect_ofStage (registry : Registry) (p : Properties) {roles : List Role}
    (hroles : d.roles = .ok roles) :
    (collect (List.zipWith (ofStage registry p)
      (toldBy (resolve d p).length none (resolve d p)) roles)).2 = missing registry d := by
  rw [collect_snd, missing]
  congr 1
  refine List.ext_getElem? fun i => ?_
  have hrole := Definition.map_ok_getElem? hroles i
  rw [List.getElem?_map, List.getElem?_zipWith, getElem?_toldBy, List.getElem?_mapIdx]
  cases hs : d.stages[i]? with
  | none => rfl
  | some s =>
      rw [hs] at hrole
      obtain ⟨role, hi, hrole⟩ := Option.map_eq_some_iff.1 hrole
      rw [hi]
      simp only [Option.map_some, failure?_ofStage, unregisteredAt?, ← hrole]
      rfl

/-- Each app is registered in the role of its stage. -/
def IsRegistered (registry : Registry) (d : Definition) : Prop :=
  ∀ i s role, d.stages[i]? = some s → d.roleAt i s = .ok role →
    (registry.find? s.app role).isSome = true

theorem missing_eq_nil_iff : missing registry d = [] ↔ IsRegistered registry d := by
  rw [missing, List.reduceOption, List.filterMap_eq_nil_iff]
  constructor
  · intro h i s role hs hrole
    have hplace : (d.stages.mapIdx (unregisteredAt? registry d))[i]? =
        some (unregisteredAt? registry d i s) := by
      rw [List.getElem?_mapIdx, hs, Option.map_some]
    have hnone := h _ (List.mem_of_getElem? hplace)
    cases hfound : registry.find? s.app role with
    | some c => rfl
    | none => simp [unregisteredAt?, hrole, Except.toOption, hfound] at hnone
  · intro h x hx
    obtain ⟨i, hi⟩ := List.mem_iff_getElem?.1 hx
    rw [List.getElem?_mapIdx] at hi
    obtain ⟨s, hs, rfl⟩ := Option.map_eq_some_iff.1 hi
    cases hrole : d.roleAt i s with
    | error e => simp [unregisteredAt?, hrole, Except.toOption]
    | ok role =>
        have hfound := h i s role hs hrole
        simp [unregisteredAt?, hrole, Except.toOption, Option.isSome_iff_ne_none.1 hfound]

theorem build_of_untyped {e : Failure} (h : Except.Foremost d.untypedAt? i e) :
    build registry d p = .error e := by
  rw [build, Definition.roles_eq_error h]
  rfl

theorem build_of_miscount {e : Failure} (htyped : ∀ i, d.untypedAt? i = none)
    (h : Except.Foremost (miscountAt? d p) i e) : build registry d p = .error e := by
  obtain ⟨roles, hroles⟩ := Definition.exists_roles htyped
  exact build_eq_error hroles (propagated_eq_error h)

/-- Where nothing else is wrong, there are all requests or all apps that are missing. -/
theorem build_of_counted (registry : Registry) (htyped : ∀ i, d.untypedAt? i = none)
    (hcounted : ∀ i, miscountAt? d p i = none) :
    if missing registry d = [] then ∃ requests, build registry d p = .ok requests
    else build registry d p = .error (.unregistered d.name (missing registry d)) := by
  obtain ⟨roles, hroles⟩ := Definition.exists_roles htyped
  have hmissing := collect_ofStage registry p hroles
  unfold build
  rw [hroles, propagated_eq_ok hcounted]
  simp only [bind, Except.bind]
  generalize collect (List.zipWith (ofStage registry p)
    (toldBy (resolve d p).length none (resolve d p)) roles) = collected at hmissing ⊢
  obtain ⟨requests, unregistered⟩ := collected
  obtain rfl : unregistered = missing registry d := hmissing
  cases missing registry d with
  | nil => exact ⟨requests, rfl⟩
  | cons u us => rfl

/-- The requests are in the roles of their stages. -/
theorem roles_of_build (h : build registry d p = .ok requests) :
    d.roles = .ok (requests.map (·.role)) := by
  obtain ⟨roles, -, hroles, -⟩ := build_eq_ok_iff.1 h
  rw [hroles]
  refine congrArg Except.ok (List.ext_getElem? fun i => ?_)
  have hrole := Definition.map_ok_getElem? hroles i
  have hstage := congrArg (·[i]?) (map_stage_of_build h)
  rw [List.getElem?_map]
  cases hs : d.stages[i]? with
  | none =>
      simp only [hs, List.getElem?_map, Option.map_none, Option.map_eq_none_iff] at hrole hstage
      rw [hrole, hstage]
      rfl
  | some s =>
      obtain ⟨role, c, hat, -, hr⟩ := exists_request h hs
      obtain ⟨role', hi, hrole⟩ := Option.map_eq_some_iff.1 (hs ▸ hrole)
      cases hrole.trans hat
      rw [hi, hr]
      rfl

/-- **Building requests comes to all of them or to what is wrong.** There are requests just if every
stage has a role, every partitioned consumer has a count that is a positive number, and every app is
registered in the role of its stage. Then there is one for each stage in order, in the role of the
stage, for the artifact that is registered, in the version to which the stage is pinned if it is. A
stage without a role goes before a count, the first of either is at fault, and both go before apps
that are not registered, all of which are named. -/
theorem build_outcome (registry : Registry) (d : Definition) (p : Properties) :
    ((∃ requests, build registry d p = .ok requests) ↔
      (∀ i, d.untypedAt? i = none) ∧ (∀ i, miscountAt? d p i = none) ∧
        IsRegistered registry d) ∧
    (∀ requests, build registry d p = .ok requests →
      requests.map (·.stage) = d.stages ∧ d.roles = .ok (requests.map (·.role)) ∧
      ∀ r ∈ requests, ∃ c, registry.find? r.stage.app r.role = some c ∧
        r.pinned = p.pinned? r.stage.label ∧ r.coordinate = r.pinned.elim c c.pin) ∧
    (∀ i e, Except.Foremost d.untypedAt? i e → build registry d p = .error e) ∧
    ((∀ i, d.untypedAt? i = none) →
      (∀ i e, Except.Foremost (miscountAt? d p) i e → build registry d p = .error e) ∧
      ((∀ i, miscountAt? d p i = none) → ¬ IsRegistered registry d →
        build registry d p = .error (.unregistered d.name (missing registry d)))) := by
  refine ⟨⟨fun ⟨requests, h⟩ => ?_, fun ⟨htyped, hcounted, hregistered⟩ => ?_⟩,
    fun requests h => ⟨map_stage_of_build h, roles_of_build h, fun r hr => ?_⟩,
    fun i e h => build_of_untyped h,
    fun htyped => ⟨fun i e h => build_of_miscount htyped h, fun hcounted hmissing => ?_⟩⟩
  · obtain ⟨roles, stages, hroles, hstages, -⟩ := build_eq_ok_iff.1 h
    refine ⟨Definition.untypedAt?_eq_none hroles, miscountAt?_eq_none hstages, ?_⟩
    intro i s role hs hrole
    obtain ⟨role', c, hrole', hfound, -⟩ := exists_request h hs
    cases hrole.symm.trans hrole'
    rw [hfound]
    rfl
  · have hall := build_of_counted registry htyped hcounted
    rwa [if_pos (missing_eq_nil_iff.2 hregistered)] at hall
  · obtain ⟨i, hi⟩ := List.mem_iff_getElem?.1 hr
    obtain ⟨s, hs⟩ := exists_stage h hi
    obtain ⟨role, c, -, hfound, hr'⟩ := exists_request h hs
    cases hi.symm.trans hr'
    exact ⟨c, hfound, rfl, rfl⟩
  · have hall := build_of_counted registry htyped hcounted
    rwa [if_neg (mt missing_eq_nil_iff.1 hmissing)] at hall

end StreamPipeline.Request
