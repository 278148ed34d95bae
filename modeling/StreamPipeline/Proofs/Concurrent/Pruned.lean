import StreamPipeline.Proofs.Concurrent.Locked

/-!
# Locks that come and go

A table has a lock for a name only for as long as it is needed, so a lock is made, removed and made
again while tasks come and leave. A task leaves in two steps, and between these others may get hold
of the lock, take it, and leave before. `Locked.Turns` is what tasks under locks can do, with a note
of who gave back which lock. It is all that they do (`Locked.interleaves_iff`).

What carries over from step to step is that a lock is stored only where a task has hold of it, or
the last one that gave it back is about to look after it (`LockTable.Attended`). With what the table
knows of its tasks (`LockTable.Sound`), **each name has one lock at a time, and none once nobody
needs it** (`LockTable.guarded`).
-/

namespace StreamPipeline

open Activity (Interleaves)
open LockTable (holding)

variable {σ α : Type} {table : Part σ LockTable} {x y : Locked σ α} {xs ys : List (Locked σ α)}
  {given : List (String × Nat)} {s s' : σ}

/-! ### Tasks that take turns -/

namespace Locked

/-- A task that has not begun. -/
def task (name : String) (body : Activity σ α) : Locked σ α := ⟨name, .outside body⟩

/-- Tasks under locks take turns. It is noted who gave back the lock of which name, by the place
among the tasks, the latest first. -/
inductive Turns (table : Part σ LockTable) (xs : List (Locked σ α)) (s : σ) :
    List (Locked σ α) → σ → List (String × Nat) → Prop
  | refl : Turns table xs s xs s []
  | turn {ys : List (Locked σ α)} {x y : Locked σ α} {s' s'' : σ} {given : List (String × Nat)}
      {i : Nat} (t : Turns table xs s ys s' given) (hx : ys[i]? = some x)
      (h : x.Step table s' y s'') :
      Turns table xs s (ys.set i y) s''
        (if y.phase.isLeaving then (y.name, i) :: given else given)

theorem Turns.map_name_eq (t : Turns table xs s ys s' given) :
    ys.map (·.name) = xs.map (·.name) := by
  induction t with
  | refl => rfl
  | turn _ hx h ih =>
      have hnames := OneOf.map_eq (f := (·.name)) (fun _ _ _ _ h => h.name_eq)
        (OneOf.iff_set.2 ⟨_, _, _, hx, h, rfl⟩)
      exact hnames.trans ih

/-- **This is what activities under locks do when they take turns.** -/
theorem interleaves_iff {qs : List (Activity σ α)} :
    Interleaves (xs.map (activity table)) s qs s' ↔
      ∃ ys given, qs = ys.map (activity table) ∧ Turns table xs s ys s' given := by
  constructor
  · intro t
    obtain ⟨ys, hys, given, hgiven⟩ :=
      invariant (I := fun ys s' => ∃ given, Turns table xs s ys s' given)
        (fun ys s' zs s'' ⟨given, t⟩ hstep => by
          obtain ⟨i, x, y, hx, h, rfl⟩ := OneOf.iff_set.1 hstep
          exact ⟨_, t.turn hx h⟩)
        ⟨[], .refl⟩ t
    exact ⟨ys, given, hys, hgiven⟩
  · rintro ⟨ys, given, rfl, t⟩
    induction t with
    | refl => exact .refl
    | @turn ys x y s' s'' given i t hx h ih =>
        refine ih.turn (OneOf.iff_set.2 ⟨i, x.activity table, y.activity table, ?_, ?_, ?_⟩)
        · rw [List.getElem?_map, hx, Option.map_some]
        · exact activity_step_iff.2 ⟨y, rfl, h⟩
        · exact List.map_set

end Locked

namespace LockTable

variable {t t' : LockTable} {name : String} {i : Nat}

/-! ### Who looks after a lock -/

/-- The last one that gave back the lock of a name is about to look after it. -/
def LookedAfter (xs : List (Locked σ α)) (given : List (String × Nat)) (n : String) : Prop :=
  ∃ i x, given.lookup n = some i ∧ xs[i]? = some x ∧ x.name = n ∧ x.phase.isLeaving = true

/-- A lock is stored only where a task has hold of it, or it is looked after. -/
def Attended (t : LockTable) (xs : List (Locked σ α)) (given : List (String × Nat)) : Prop :=
  ∀ n lock, t.locks.get? n = some lock → lock ∈ t.references ∨ LookedAfter xs given n

theorem Idle.attended (h : t.Idle) : t.Attended xs given := by
  intro n lock hn
  rw [h.locks] at hn
  cases hn

namespace LookedAfter

variable {n : String}

/-- A task that acts is not the one that is about to look after the lock. -/
theorem set (h : LookedAfter xs given n) (hx : xs[i]? = some x)
    (hother : x.name = n → x.phase.isLeaving = false) : LookedAfter (xs.set i y) given n := by
  obtain ⟨j, z, hj, hz, hname, hleaving⟩ := h
  have hij : i ≠ j := fun hij => by
    obtain rfl : x = z := Option.some.inj (hx.symm.trans (hij ▸ hz))
    cases (hother hname).symm.trans hleaving
  exact ⟨j, z, hj, (List.getElem?_set_ne hij).trans hz, hname, hleaving⟩

/-- The lock of another name was given back. -/
theorem cons (h : LookedAfter xs given n) (hname : n ≠ name) :
    LookedAfter xs ((name, i) :: given) n := by
  obtain ⟨j, z, hj, hz⟩ := h
  refine ⟨j, z, ?_, hz⟩
  rw [List.lookup_cons, beq_eq_false_iff_ne.2 hname, hj]

end LookedAfter

namespace Attended

/-- Where a task that is not leaving does not begin to leave, only locks of which nobody has hold
any longer are to be looked at. -/
theorem still (h : t.Attended xs given) (hx : xs[i]? = some x)
    (hleaving : x.phase.isLeaving = false) (hstored : ∀ n lock, t'.locks.get? n = some lock →
      lock ∈ t'.references ∨ (t.locks.get? n = some lock ∧ lock ∉ t.references)) :
    t'.Attended (xs.set i y) given := by
  intro n lock hn
  refine (hstored n lock hn).imp_right fun ⟨hold, hunused⟩ => ?_
  exact ((h n lock hold).resolve_left hunused).set hx fun _ => hleaving

/-- A task that gives its lock back is about to look after it. -/
theorem release {lock : Nat} {rest : Activity σ α} {a : α} (h : t.Attended xs given)
    (hsound : t.Sound xs) (hx : xs[i]? = some ⟨name, .inside lock rest⟩) :
    (t.release lock).Attended (xs.set i ⟨name, .leaving a⟩) ((name, i) :: given) := by
  intro n m hn
  have hlock : t.locks.get? name = some lock :=
    hsound.stored _ (List.mem_of_getElem? hx) lock rfl
  by_cases hname : n = name
  · subst hname
    have hi : i < xs.length := (List.getElem?_eq_some_iff.1 hx).1
    exact .inr ⟨i, _, List.lookup_cons_self, List.getElem?_set_self hi, rfl, rfl⟩
  have hne : m ≠ lock := fun hm => hname (hsound.distinct n name lock (hm ▸ hn) hlock)
  exact (h n m hn).imp (List.mem_erase_of_ne hne).2 fun hlooked =>
    (hlooked.set hx fun _ => rfl).cons hname

/-- A task that looks after the lock of its name leaves none of which nobody has hold. -/
theorem prune {a : α} (h : t.Attended xs given) (hx : xs[i]? = some ⟨name, .leaving a⟩) :
    (t.prune name).Attended (xs.set i ⟨name, .left a⟩) given := by
  intro n lock hn
  rw [references_prune]
  by_cases hname : n = name
  · subst hname
    exact .inl (mem_references_of_prune hn)
  rw [get?_prune_of_ne hname] at hn
  exact (h n lock hn).imp_right fun hlooked => hlooked.set hx fun h => absurd h.symm hname

/-- **However a task acts, whatever is stored is attended to.** -/
theorem step (htable : table.Lawful) (h : (table.get s).Attended xs given)
    (hsound : (table.get s).Sound xs) (hx : xs[i]? = some x) (hspares : x.Spares table)
    (hstep : x.Step table s y s') :
    (table.get s').Attended (xs.set i y)
      (if y.phase.isLeaving then (y.name, i) :: given else given) := by
  cases hstep with
  | enter =>
      rw [htable.get_set]
      exact h.still hx rfl fun n lock hn => stored_enter hn
  | take ht =>
      rw [htable.get_set]
      obtain ⟨-, rfl⟩ := take?_eq_some_iff.1 ht
      exact h.still hx rfl fun n lock hn => (em _).imp_right (⟨hn, ·⟩)
  | act hact =>
      rw [(Activity.Spares.step hspares htable hact).2]
      exact h.still hx rfl fun n lock hn => (em _).imp_right (⟨hn, ·⟩)
  | release =>
      rw [Part.modify, htable.get_set]
      exact h.release hsound hx
  | prune =>
      rw [Part.modify, htable.get_set]
      exact h.prune hx

end Attended

/-! ### What holds at any moment -/

/-- What a table under whose locks tasks take turns gives, where it is noted who gave back the lock
of which name, the latest first. -/
structure Guarded (t : LockTable) (xs : List (Locked σ α)) (given : List (String × Nat)) :
    Prop where
  /-- One task at a time holds the lock of a name. -/
  alone : ∀ (i j : Nat) (x y : Locked σ α), xs[i]? = some x → xs[j]? = some y → x.name = y.name →
    x.phase.holds?.isSome → y.phase.holds?.isSome → i = j
  /-- Whoever holds the lock of a name or waits for it has hold of the one that is stored. -/
  stored : ∀ x ∈ xs, ∀ lock, x.phase.reference? = some lock → t.locks.get? x.name = some lock
  /-- Once nobody holds the lock of a name or waits for it, and whoever gave it back last has
  looked after it, there is none. -/
  pruned : ∀ name, (∀ x ∈ xs, x.name = name → x.phase.reference? = none) →
    (∀ i, given.lookup name = some i → ∃ x a, xs[i]? = some x ∧ x.phase = .left a) →
    t.locks.get? name = none

theorem Sound.alone (h : t.Sound xs) {i j : Nat} (hx : xs[i]? = some x) (hy : xs[j]? = some y)
    (hname : x.name = y.name) (hxh : x.phase.holds?.isSome) (hyh : y.phase.holds?.isSome) :
    i = j := by
  by_contra hij
  obtain ⟨hi, rfl⟩ := List.getElem?_eq_some_iff.1 hx
  obtain ⟨lock, hlock⟩ := Option.isSome_iff_exists.1 hxh
  have hrest : y ∈ xs.eraseIdx i :=
    List.mem_eraseIdx_iff_getElem?.2 ⟨j, fun hji => hij hji.symm, hy⟩
  have hnone := (h.perm (List.getElem_cons_eraseIdx_perm hi).symm).alone_inside hlock hrest
    hname.symm
  rw [hnone] at hyh
  cases hyh

theorem Guarded.of_sound (h : t.Sound xs) (hattended : t.Attended xs given) :
    t.Guarded xs given where
  alone _ _ _ _ := h.alone
  stored := h.stored
  pruned := by
    intro name hnone hleft
    cases hn : t.locks.get? name with
    | none => rfl
    | some lock =>
        rcases hattended name lock hn with hused | ⟨i, x, hi, hx, -, hleaving⟩
        · obtain ⟨x, hx, hlock⟩ := List.mem_filterMap.1 (h.references.mem_iff.1 hused)
          have hname := h.distinct x.name name lock (h.stored x hx lock hlock) hn
          cases (hnone x hx hname).symm.trans hlock
        · obtain ⟨z, a, hz, hza⟩ := hleft i hi
          obtain rfl : x = z := Option.some.inj (hx.symm.trans hz)
          rw [hza] at hleaving
          cases hleaving

/-- What the table knows of its tasks, and who attends to it, carries over to whatever the tasks
come to. -/
theorem attended_of_turns (htable : table.Lawful) {tasks : List (String × Activity σ α)}
    (hspares : ∀ task ∈ tasks, task.2.Spares table) (hidle : (table.get s).Idle)
    (t : Locked.Turns table (tasks.map fun task => .task task.1 task.2) s ys s' given) :
    (table.get s').Sound ys ∧ (∀ y ∈ ys, y.Spares table) ∧ (table.get s').Attended ys given := by
  induction t with
  | refl =>
      refine ⟨hidle.sound ?_, ?_, hidle.attended⟩
      · exact List.forall_mem_map.2 fun task _ => ⟨task.2, rfl⟩
      · exact List.forall_mem_map.2 hspares
  | @turn ys x y s' s'' given i t hx hstep ih =>
      obtain ⟨hsound, hys, hattended⟩ := ih
      have hmem : x ∈ ys := List.mem_of_getElem? hx
      refine ⟨hsound.step htable hys (OneOf.iff_set.2 ⟨i, x, y, hx, hstep, rfl⟩), fun z hz => ?_,
        hattended.step htable hsound hx (hys x hmem) hstep⟩
      rcases List.mem_or_eq_of_mem_set hz with hz | rfl
      · exact hys z hz
      · exact (hys x hmem).step htable hstep

theorem guarded_of_turns (htable : table.Lawful) {tasks : List (String × Activity σ α)}
    (hspares : ∀ task ∈ tasks, task.2.Spares table) (hidle : (table.get s).Idle)
    (t : Locked.Turns table (tasks.map fun task => .task task.1 task.2) s ys s' given) :
    (table.get s').Guarded ys given :=
  have ⟨hsound, _, hattended⟩ := attended_of_turns htable hspares hidle t
  .of_sound hsound hattended

/-- **Each name has one lock at a time, and none once nobody needs it.** Let there be any tasks
under locks of any names, none of them begun, which leave the table alone while they hold a lock.

* What they do is `Locked.Turns`, whichever turns they take.
* Whatever they have come to, one task at a time holds the lock of a name; whoever holds it or waits
  for it has hold of the one that is stored under the name; and once nobody holds it or waits for it
  and whoever gave it back last has looked after it, nothing is stored there. -/
theorem guarded (htable : table.Lawful) {tasks : List (String × Activity σ α)}
    (hspares : ∀ task ∈ tasks, task.2.Spares table) (hidle : (table.get s).Idle) :
    (∀ (qs : List (Activity σ α)) (s' : σ),
      Interleaves (tasks.map fun task => holding table task.1 task.2) s qs s' ↔
        ∃ xs given, qs = xs.map (Locked.activity table) ∧
          Locked.Turns table (tasks.map fun task => .task task.1 task.2) s xs s' given) ∧
    ∀ (xs : List (Locked σ α)) (s' : σ) (given : List (String × Nat)),
      Locked.Turns table (tasks.map fun task => .task task.1 task.2) s xs s' given →
        (table.get s').Guarded xs given := by
  constructor
  · intro qs s'
    rw [← Locked.interleaves_iff, List.map_map]
    rfl
  · intro xs s' given t
    exact guarded_of_turns htable hspares hidle t

/-- A lock table that is all of the state. -/
def whole : Part LockTable LockTable := ⟨id, fun t _ => t⟩

/-- Two tasks of one name and one of another, which have nothing to do under their locks. -/
def hasty : List (String × Activity LockTable Unit) :=
  [("ticktock", .done ()), ("ticktock", .done ()), ("ghost", .done ())]

/-- The second task gives the lock of its name back after the first one, but looks after it before:
it is gone by then, while the third task waits for the lock of its own name. -/
theorem guarded_overtaken : ∃ t given,
    Interleaves (hasty.map fun task => holding whole task.1 task.2) {}
      ([⟨"ticktock", .leaving ()⟩, ⟨"ticktock", .left ()⟩, ⟨"ghost", .waiting 1 (.done ())⟩].map
        (Locked.activity whole)) t ∧
    given = [("ticktock", 1), ("ticktock", 0)] ∧
    t.locks.get? "ticktock" = none ∧ t.locks.get? "ghost" = some 1 := by
  have hspares : ∀ task ∈ hasty, task.2.Spares whole := by
    simpa [hasty] using Activity.Spares.done ()
  obtain ⟨hturns, hguarded⟩ := guarded ⟨fun _ _ => rfl, fun _ => rfl, fun _ _ _ => rfl⟩ hspares
    (⟨rfl, rfl, rfl⟩ : (whole.get {}).Idle)
  have t₀ : Locked.Turns whole (hasty.map fun task => .task task.1 task.2) {} _ _ _ := .refl
  have t₁ := (t₀.turn (i := 0) rfl .enter).turn (i := 0) rfl (.take rfl)
  have t₂ := (t₁.turn (i := 1) rfl .enter).turn (i := 2) rfl .enter
  have t₃ := (t₂.turn (i := 0) rfl .release).turn (i := 1) rfl (.take rfl)
  have t₄ := (t₃.turn (i := 1) rfl .release).turn (i := 1) rfl .prune
  have h := hguarded
    [⟨"ticktock", .leaving ()⟩, ⟨"ticktock", .left ()⟩, ⟨"ghost", .waiting 1 (.done ())⟩] _
    [("ticktock", 1), ("ticktock", 0)] t₄
  refine ⟨_, _, (hturns _ _).2 ⟨_, _, rfl, t₄⟩, rfl, h.pruned "ticktock" ?_ ?_, ?_⟩
  · simp [Phase.reference?]
  · intro i hi
    obtain rfl : 1 = i := Option.some.inj (List.lookup_cons_self.symm.trans hi)
    exact ⟨_, (), rfl, rfl⟩
  · exact h.stored ⟨"ghost", .waiting 1 (.done ())⟩ (by simp) 1 rfl

end LockTable

end StreamPipeline
