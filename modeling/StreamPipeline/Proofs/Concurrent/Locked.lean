import StreamPipeline.Proofs.Concurrent.LockTable
import StreamPipeline.Proofs.Concurrent.Spared

/-!
# Tasks under locks

A task under the lock of a name gets hold of the lock, waits for it, works inside, and leaves it in
two steps (`Phase`, `Locked.Step`): that is all that `LockTable.holding` does, one step at a time
(`Locked.activity_step_iff`).

However the tasks take turns, and whichever names they have, the table counts just the tasks that
have hold of a lock, keeps a lock for as long as one of them has, and gives a lock to one task at a
time (`LockTable.Sound`, `Sound.step`). So two tasks are never inside under the same name
(`Sound.alone_inside`), and the table is empty in the end (`Sound.idle`).
-/

namespace StreamPipeline

/-- How far an activity under a lock has come. -/
inductive Phase (σ α : Type) : Type 1
  | outside (body : Activity σ α)
  /-- The task has hold of the lock and waits for it. -/
  | waiting (lock : Nat) (body : Activity σ α)
  /-- The task holds the lock, and has this left to do. -/
  | inside (lock : Nat) (rest : Activity σ α)
  /-- The lock was given back, but its name is still to be looked after. -/
  | leaving (a : α)
  | left (a : α)

namespace Phase

variable {σ α : Type}

/-- The lock that a task has hold of. -/
def reference? : Phase σ α → Option Nat
  | waiting lock _ => some lock
  | inside lock _ => some lock
  | _ => none

/-- The lock that a task holds. -/
def holds? : Phase σ α → Option Nat
  | inside lock _ => some lock
  | _ => none

/-- What a task came to, once it has given its lock back. -/
def result? : Phase σ α → Option α
  | leaving a => some a
  | left a => some a
  | _ => none

/-- Whether the name of its lock is still to be looked after. -/
def isLeaving : Phase σ α → Bool
  | leaving _ => true
  | _ => false

theorem reference?_of_holds? {p : Phase σ α} {lock : Nat} (h : p.holds? = some lock) :
    p.reference? = some lock := by
  cases p <;> simp_all [holds?, reference?]

end Phase

/-- An activity under the lock of a name. -/
structure Locked (σ α : Type) where
  name : String
  phase : Phase σ α

namespace Locked

open LockTable (holding)

variable {σ α : Type} {table : Part σ LockTable} {x y : Locked σ α} {s s' : σ}

/-- What follows when a task comes to its end inside. -/
def finish (table : Part σ LockTable) (name : String) (lock : Nat) (a : α) : Activity σ α :=
  (Activity.change (table.modify (·.release lock))).bind fun _ =>
    (Activity.change (table.modify (·.prune name))).bind fun _ => .done a

/-- What is left to be done. -/
def activity (table : Part σ LockTable) (x : Locked σ α) : Activity σ α :=
  match x.phase with
  | .outside body => holding table x.name body
  | .waiting lock body =>
    (Activity.await fun s => ((table.get s).take? lock).map (table.set · s)).bind fun _ =>
      body.bind (finish table x.name lock)
  | .inside lock rest => rest.bind (finish table x.name lock)
  | .leaving a => (Activity.change (table.modify (·.prune x.name))).bind fun _ => .done a
  | .left a => .done a

/-- What a task under a lock does next. -/
inductive Step (table : Part σ LockTable) : Locked σ α → σ → Locked σ α → σ → Prop
  | enter {name : String} {body : Activity σ α} {s : σ} :
      Step table ⟨name, .outside body⟩ s
        ⟨name, .waiting ((table.get s).enter name).1 body⟩
        (table.set ((table.get s).enter name).2 s)
  | take {name : String} {lock : Nat} {body : Activity σ α} {s : σ} {t : LockTable}
      (h : (table.get s).take? lock = some t) :
      Step table ⟨name, .waiting lock body⟩ s ⟨name, .inside lock body⟩ (table.set t s)
  | act {name : String} {lock : Nat} {rest rest' : Activity σ α} {s s' : σ}
      (h : rest.Step s rest' s') :
      Step table ⟨name, .inside lock rest⟩ s ⟨name, .inside lock rest'⟩ s'
  | release {name : String} {lock : Nat} {a : α} {s : σ} :
      Step table ⟨name, .inside lock (.done a)⟩ s ⟨name, .leaving a⟩
        (table.modify (·.release lock) s)
  | prune {name : String} {a : α} {s : σ} :
      Step table ⟨name, .leaving a⟩ s ⟨name, .left a⟩ (table.modify (·.prune name) s)

theorem step_change {f : σ → σ} {p q : Activity σ α} {s s' : σ} :
    ((Activity.change f).bind fun _ => p).Step s q s' ↔ q = p ∧ s' = f s := by
  refine Activity.step_act_iff.trans ⟨?_, ?_⟩
  · rintro ⟨⟨⟩, hf, rfl⟩
    obtain ⟨-, rfl⟩ := Prod.mk.inj (Option.some.inj hf)
    exact ⟨rfl, rfl⟩
  · rintro ⟨rfl, rfl⟩
    exact ⟨(), rfl, rfl⟩

/-- **A task under a lock does just this.** -/
theorem activity_step_iff {q : Activity σ α} :
    (x.activity table).Step s q s' ↔ ∃ y, q = y.activity table ∧ x.Step table s y s' := by
  obtain ⟨name, phase⟩ := x
  constructor
  · intro h
    cases phase with
    | outside body =>
        obtain ⟨lock, hlock, rfl⟩ := Activity.step_act_iff.1 h
        obtain ⟨rfl, rfl⟩ := Prod.mk.inj (Option.some.inj hlock)
        exact ⟨_, rfl, .enter⟩
    | waiting lock body =>
        obtain ⟨⟨⟩, htake, rfl⟩ := Activity.step_act_iff.1 h
        rw [Option.map_map, Option.map_eq_some_iff] at htake
        obtain ⟨t, ht, he⟩ := htake
        obtain ⟨-, rfl⟩ := Prod.mk.inj he
        exact ⟨_, rfl, .take ht⟩
    | inside lock rest =>
        rcases Activity.step_bind h with ⟨a, rfl⟩ | ⟨rest', rfl, hact⟩
        · obtain ⟨rfl, rfl⟩ := step_change.1 h
          exact ⟨⟨name, .leaving a⟩, rfl, .release⟩
        · exact ⟨_, rfl, .act hact⟩
    | leaving a =>
        obtain ⟨rfl, rfl⟩ := step_change.1 h
        exact ⟨⟨name, .left a⟩, rfl, .prune⟩
    | left a => exact absurd h Activity.not_step_done
  · rintro ⟨y, rfl, h⟩
    cases h with
    | enter => exact Activity.step_act_iff.2 ⟨((table.get s).enter name).1, rfl, rfl⟩
    | take ht => exact Activity.step_act_iff.2 ⟨(), by simp [ht], rfl⟩
    | act hact => exact hact.bind _
    | release => exact step_change.2 ⟨rfl, rfl⟩
    | prune => exact step_change.2 ⟨rfl, rfl⟩

/-- The task is done once it has left. -/
theorem activity_eq_done_iff {a : α} :
    x.activity table = .done a ↔ x.phase = .left a := by
  obtain ⟨name, phase⟩ := x
  cases phase with
  | inside lock rest =>
      refine iff_of_false (fun h => ?_) nofun
      cases rest <;> cases h
  | left b => exact ⟨fun h => by cases h; rfl, fun h => by cases h; rfl⟩
  | _ => exact iff_of_false nofun nofun

/-- What the task has still to do under the lock neither looks at the locks nor changes them. -/
def Spares (table : Part σ LockTable) (x : Locked σ α) : Prop :=
  match x.phase with
  | .outside body => body.Spares table
  | .waiting _ body => body.Spares table
  | .inside _ rest => rest.Spares table
  | _ => True

theorem Spares.step (h : x.Spares table) (htable : table.Lawful) (hstep : x.Step table s y s') :
    y.Spares table := by
  cases hstep with
  | enter | take => exact h
  | act hact => exact (Activity.Spares.step h htable hact).1
  | release | prune => exact trivial

theorem Step.name_eq (h : x.Step table s y s') : y.name = x.name := by
  cases h <;> rfl

/-- **The induction over turns.** What each step of a task keeps holds of whatever becomes of
tasks. -/
theorem invariant {I : List (Locked σ α) → σ → Prop}
    (hI : ∀ xs s ys s', I xs s → OneOf (Step table) xs s ys s' → I ys s') {xs : List (Locked σ α)}
    {qs : List (Activity σ α)} (h : I xs s)
    (t : Activity.Interleaves (xs.map (activity table)) s qs s') :
    ∃ ys, qs = ys.map (activity table) ∧ I ys s' := by
  induction t with
  | refl => exact ⟨xs, rfl, h⟩
  | turn _ hturn ih =>
      obtain ⟨ys, rfl, hys⟩ := ih
      obtain ⟨zs, rfl, hzs⟩ := OneOf.exists_of_map (fun _ _ _ _ => activity_step_iff.1) hturn
      exact ⟨zs, rfl, hI _ _ _ _ hys hzs⟩

end Locked

namespace LockTable

variable {σ α : Type} {t : LockTable} {x y : Locked σ α} {xs ys : List (Locked σ α)}

/-- No task has hold of a lock, and there is none. -/
structure Idle (t : LockTable) : Prop where
  locks : t.locks = ∅
  references : t.references = []
  held : t.held = []

/-- What a table knows of the tasks under its locks. -/
structure Sound (t : LockTable) (xs : List (Locked σ α)) : Prop where
  references : t.references.Perm (xs.filterMap (·.phase.reference?))
  held : t.held.Perm (xs.filterMap (·.phase.holds?))
  /-- A lock is held once. -/
  exclusive : t.held.Nodup
  /-- The lock that a task has hold of is the one that is stored under its name. -/
  stored : ∀ x ∈ xs, ∀ lock, x.phase.reference? = some lock → t.locks.get? x.name = some lock
  distinct : ∀ n m lock, t.locks.get? n = some lock → t.locks.get? m = some lock → n = m
  fresh : ∀ n lock, t.locks.get? n = some lock → lock < t.fresh
  /-- A lock is stored only where a task has hold of it, or is about to look after it. -/
  used : ∀ n lock, t.locks.get? n = some lock →
    lock ∈ t.references ∨ ∃ x ∈ xs, x.name = n ∧ x.phase.isLeaving = true

theorem Idle.sound (h : t.Idle) (hout : ∀ x ∈ xs, ∃ body, x.phase = .outside body) :
    t.Sound xs := by
  have hnone : ∀ n, t.locks.get? n = none := fun n => by rw [h.locks]; rfl
  have hempty : ∀ f : Phase σ α → Option Nat, (∀ body, f (.outside body) = none) →
      xs.filterMap (fun x => f x.phase) = [] := fun f hf => by
    refine List.filterMap_eq_nil_iff.2 fun x hx => ?_
    obtain ⟨body, hbody⟩ := hout x hx
    rw [hbody, hf]
  refine ⟨?_, ?_, by simp [h.held], fun x hx lock hlock => ?_, fun n m lock hn => ?_,
    fun n lock hn => ?_, fun n lock hn => ?_⟩
  · rw [h.references, hempty _ fun _ => rfl]
  · rw [h.held, hempty _ fun _ => rfl]
  · obtain ⟨body, hbody⟩ := hout x hx
    rw [hbody] at hlock
    cases hlock
  all_goals cases (hnone n).symm.trans hn

namespace Sound

theorem perm (h : t.Sound xs) (hp : xs.Perm ys) : t.Sound ys where
  references := h.references.trans (hp.filterMap _)
  held := h.held.trans (hp.filterMap _)
  exclusive := h.exclusive
  stored := fun x hx => h.stored x (hp.mem_iff.2 hx)
  distinct := h.distinct
  fresh := h.fresh
  used := fun n lock hn => (h.used n lock hn).imp_right fun ⟨x, hx, hleaving⟩ =>
    ⟨x, hp.mem_iff.1 hx, hleaving⟩

/-- Where all tasks have left, no lock is left. -/
theorem idle (h : t.Sound xs) (hleft : ∀ x ∈ xs, ∃ a, x.phase = .left a) : t.Idle := by
  have hempty : ∀ f : Phase σ α → Option Nat, (∀ a, f (.left a) = none) →
      xs.filterMap (fun x => f x.phase) = [] := fun f hf => by
    refine List.filterMap_eq_nil_iff.2 fun x hx => ?_
    obtain ⟨a, ha⟩ := hleft x hx
    rw [ha, hf]
  have hreferences : t.references = [] :=
    List.perm_nil.1 (hempty Phase.reference? (fun _ => rfl) ▸ h.references)
  refine ⟨StringMap.ext_get? fun n => ?_, hreferences,
    List.perm_nil.1 (hempty Phase.holds? (fun _ => rfl) ▸ h.held)⟩
  cases hn : t.locks.get? n with
  | none => rfl
  | some lock =>
      rcases h.used n lock hn with hused | ⟨x, hx, -, hleaving⟩
      · rw [hreferences] at hused
        cases hused
      · obtain ⟨a, ha⟩ := hleft x hx
        rw [ha] at hleaving
        cases hleaving

/-- A lock that a task holds is held in the table, and that of its name. -/
theorem of_holds (h : t.Sound xs) (hx : x ∈ xs) {lock : Nat} (hl : x.phase.holds? = some lock) :
    lock ∈ t.held ∧ t.locks.get? x.name = some lock :=
  ⟨h.held.mem_iff.2 (List.mem_filterMap.2 ⟨x, hx, hl⟩),
    h.stored x hx lock (Phase.reference?_of_holds? hl)⟩

/-- **No two tasks are inside under one name.** -/
theorem alone_inside (h : t.Sound (x :: xs)) {lock : Nat} (hx : x.phase.holds? = some lock)
    (hy : y ∈ xs) (hname : y.name = x.name) : y.phase.holds? = none := by
  cases hm : y.phase.holds? with
  | none => rfl
  | some m =>
      obtain ⟨-, hstored⟩ := h.of_holds (by simp) hx
      obtain ⟨-, hstored'⟩ := h.of_holds (by simp [hy]) hm
      obtain rfl : m = lock := Option.some.inj (hstored'.symm.trans (hname ▸ hstored))
      have hheld := h.held.nodup_iff.1 h.exclusive
      rw [List.filterMap_cons, hx, List.nodup_cons] at hheld
      exact absurd (List.mem_filterMap.2 ⟨y, hy, hm⟩) hheld.1

/-- Where a task can take its lock, no other one of its name is inside. -/
theorem nobody_inside (h : t.Sound (x :: xs)) {lock : Nat} (hx : x.phase.reference? = some lock)
    (hfree : lock ∉ t.held) (hy : y ∈ xs) (hname : y.name = x.name) : y.phase.holds? = none := by
  cases hm : y.phase.holds? with
  | none => rfl
  | some m =>
      obtain ⟨hheld, hstored⟩ := h.of_holds (List.mem_cons_of_mem x hy) hm
      obtain rfl : m = lock :=
        Option.some.inj (hstored.symm.trans (hname ▸ h.stored x (by simp) lock hx))
      exact absurd hheld hfree

/-- Only the task that acts is to be looked at, for which lock it has hold of. -/
theorem stored_cons (h : t.Sound (x :: xs))
    (hy : ∀ m, y.phase.reference? = some m → t.locks.get? y.name = some m) :
    ∀ z ∈ y :: xs, ∀ m, z.phase.reference? = some m → t.locks.get? z.name = some m :=
  List.forall_mem_cons.2 ⟨hy, fun z hz => h.stored z (.tail _ hz)⟩

/-- A lock of which nobody has hold is looked after by another task than one that is not leaving, or
that leaves under another name. -/
theorem used_cons (h : t.Sound (x :: xs)) (y : Locked σ α) {n : String} {lock : Nat}
    (hx : x.name = n → x.phase.isLeaving = false) (hn : t.locks.get? n = some lock) :
    lock ∈ t.references ∨ ∃ z ∈ y :: xs, z.name = n ∧ z.phase.isLeaving = true := by
  rcases h.used n lock hn with hr | ⟨z, hz, hzn, hleaving⟩
  · exact .inl hr
  · rcases List.mem_cons.1 hz with rfl | hz
    · cases (hx hzn).symm.trans hleaving
    · exact .inr ⟨z, .tail _ hz, hzn, hleaving⟩

/-! ### Steps -/

variable {name : String} {lock : Nat} {body rest : Activity σ α} {a : α}

/-- A task gets hold of a lock that there is. -/
theorem enter_old (h : t.Sound (⟨name, .outside body⟩ :: xs))
    (hl : t.locks.get? name = some lock) :
    Sound { t with references := lock :: t.references } (⟨name, .waiting lock body⟩ :: xs) where
  references := h.references.cons lock
  held := h.held
  exclusive := h.exclusive
  stored := h.stored_cons fun m hm => by
    cases hm
    exact hl
  distinct := h.distinct
  fresh := h.fresh
  used := fun _ _ hn => (h.used_cons _ (fun _ => rfl) hn).imp_left (.tail _)

/-- A task makes a lock for its name. -/
theorem enter_new (h : t.Sound (⟨name, .outside body⟩ :: xs)) (hl : t.locks.get? name = none) :
    Sound { t with locks := t.locks.insert name t.fresh
                   references := t.fresh :: t.references, fresh := t.fresh + 1 }
      (⟨name, .waiting t.fresh body⟩ :: xs) := by
  -- no other name has the new lock
  have hnew : ∀ n, t.locks.get? n ≠ some t.fresh := fun n hn =>
    absurd (h.fresh n _ hn) (Nat.lt_irrefl _)
  refine ⟨h.references.cons t.fresh, h.held, h.exclusive, fun x hx m hm => ?_,
    fun n m lock hn hm => ?_, fun n m hn => ?_, fun n m hn => ?_⟩
  · rcases List.mem_cons.1 hx with rfl | hx
    · cases hm
      exact StringMap.get?_insert_self ..
    · have hstored := h.stored x (.tail _ hx) m hm
      have hne : x.name ≠ name := fun hxn => by cases hl.symm.trans (hxn ▸ hstored)
      exact (StringMap.get?_insert_eq_some_iff _).2 (.inr ⟨hne, hstored⟩)
  · rcases (StringMap.get?_insert_eq_some_iff _).1 hn with ⟨rfl, rfl⟩ | ⟨-, hn⟩ <;>
      rcases (StringMap.get?_insert_eq_some_iff _).1 hm with ⟨hname, hlock⟩ | ⟨-, hm⟩
    · exact hname.symm
    · exact absurd hm (hnew m)
    · exact absurd (hlock ▸ hn) (hnew n)
    · exact h.distinct n m lock hn hm
  · rcases (StringMap.get?_insert_eq_some_iff _).1 hn with ⟨-, rfl⟩ | ⟨-, hn⟩
    · exact Nat.lt_succ_self _
    · exact (h.fresh n m hn).trans (Nat.lt_succ_self _)
  · rcases (StringMap.get?_insert_eq_some_iff _).1 hn with ⟨-, rfl⟩ | ⟨-, hn⟩
    · exact .inl (.head _)
    · exact (h.used_cons _ (fun _ => rfl) hn).imp_left (.tail _)

theorem enter (h : t.Sound (⟨name, .outside body⟩ :: xs)) :
    (t.enter name).2.Sound (⟨name, .waiting (t.enter name).1 body⟩ :: xs) := by
  unfold LockTable.enter
  cases hl : t.locks.get? name with
  | some lock => exact h.enter_old hl
  | none => exact h.enter_new hl

theorem take (h : t.Sound (⟨name, .waiting lock body⟩ :: xs)) {t' : LockTable}
    (ht : t.take? lock = some t') : t'.Sound (⟨name, .inside lock body⟩ :: xs) := by
  obtain ⟨hfree, rfl⟩ := take?_eq_some_iff.1 ht
  refine ⟨h.references, h.held.cons lock, List.nodup_cons.2 ⟨hfree, h.exclusive⟩,
    h.stored_cons ?_, h.distinct, h.fresh, fun n m hn => h.used_cons _ (fun _ => rfl) hn⟩
  exact h.stored ⟨name, .waiting lock body⟩ (.head _)

theorem act {rest' : Activity σ α} (h : t.Sound (⟨name, .inside lock rest⟩ :: xs)) :
    t.Sound (⟨name, .inside lock rest'⟩ :: xs) where
  references := h.references
  held := h.held
  exclusive := h.exclusive
  stored := h.stored_cons (h.stored ⟨name, .inside lock rest⟩ (.head _))
  distinct := h.distinct
  fresh := h.fresh
  used := fun _ _ hn => h.used_cons _ (fun _ => rfl) hn

theorem release (h : t.Sound (⟨name, .inside lock rest⟩ :: xs)) :
    (t.release lock).Sound (⟨name, .leaving a⟩ :: xs) := by
  have hlock : t.locks.get? name = some lock :=
    h.stored ⟨name, .inside lock rest⟩ (.head _) lock rfl
  have herase : ∀ {as bs : List Nat}, as.Perm (lock :: bs) → (as.erase lock).Perm bs :=
    fun {as bs} hp => by simpa using hp.erase lock
  refine ⟨herase h.references, herase h.held, h.exclusive.erase lock, h.stored_cons nofun,
    h.distinct, h.fresh, fun n m hn => ?_⟩
  by_cases hm : m = lock
  · subst hm
    exact .inr ⟨_, .head _, h.distinct name n m hlock hn, rfl⟩
  · exact (h.used_cons _ (fun _ => rfl) hn).imp_left (List.mem_erase_of_ne hm).2

/-- A lock of which a task has hold stays. -/
theorem prune_used (h : t.Sound (⟨name, .leaving a⟩ :: xs))
    (hused : ∀ m, t.locks.get? name = some m → m ∈ t.references) :
    t.Sound (⟨name, .left a⟩ :: xs) where
  references := h.references
  held := h.held
  exclusive := h.exclusive
  stored := h.stored_cons nofun
  distinct := h.distinct
  fresh := h.fresh
  used := fun n m hn => by
    by_cases hne : name = n
    · subst hne
      exact .inl (hused m hn)
    · exact h.used_cons _ (fun hname => absurd hname hne) hn

/-- A lock of which nobody has hold is removed. -/
theorem prune_unused (h : t.Sound (⟨name, .leaving a⟩ :: xs))
    (hl : t.locks.get? name = some lock) (hunused : lock ∉ t.references) :
    Sound { t with locks := t.locks.erase name } (⟨name, .left a⟩ :: xs) := by
  have hold : ∀ {n m}, (t.locks.erase name).get? n = some m →
      n ≠ name ∧ t.locks.get? n = some m := (StringMap.get?_erase_eq_some_iff _).1
  refine ⟨h.references, h.held, h.exclusive, fun x hx m hm => ?_,
    fun n m lock hn hm => h.distinct n m lock (hold hn).2 (hold hm).2,
    fun n m hn => h.fresh n m (hold hn).2,
    fun n m hn => h.used_cons _ (fun hname => absurd hname.symm (hold hn).1) (hold hn).2⟩
  rcases List.mem_cons.1 hx with rfl | hx
  · cases hm
  · have hstored := h.stored x (.tail _ hx) m hm
    refine (StringMap.get?_erase_eq_some_iff _).2 ⟨fun hxn => hunused ?_, hstored⟩
    obtain rfl : lock = m := Option.some.inj (hl.symm.trans (hxn ▸ hstored))
    exact h.references.mem_iff.2 (List.mem_filterMap.2 ⟨x, .tail _ hx, hm⟩)

theorem prune (h : t.Sound (⟨name, .leaving a⟩ :: xs)) :
    (t.prune name).Sound (⟨name, .left a⟩ :: xs) := by
  unfold LockTable.prune
  cases hl : t.locks.get? name with
  | none => exact h.prune_used fun m hm => by cases hl.symm.trans hm
  | some lock =>
      dsimp only
      split
      · rename_i hused
        refine h.prune_used fun m hm => ?_
        obtain rfl : lock = m := Option.some.inj (hl.symm.trans hm)
        simpa using hused
      · rename_i hunused
        exact h.prune_unused hl (by simpa using hunused)

/-- **What one task does leaves the table sound.** -/
theorem change {table : Part σ LockTable} (htable : table.Lawful) {s s' : σ}
    (h : (table.get s).Sound (x :: xs)) (hx : x.Spares table) (hstep : x.Step table s y s') :
    (table.get s').Sound (y :: xs) := by
  cases hstep with
  | enter =>
      rw [htable.get_set]
      exact h.enter
  | take ht =>
      rw [htable.get_set]
      exact h.take ht
  | act hact =>
      rw [(Activity.Spares.step hx htable hact).2]
      exact h.act
  | release =>
      rw [Part.modify, htable.get_set]
      exact h.release
  | prune =>
      rw [Part.modify, htable.get_set]
      exact h.prune

/-- **However tasks take turns, the table stays sound.** -/
theorem step {table : Part σ LockTable} (htable : table.Lawful) {s s' : σ}
    (h : (table.get s).Sound xs) (hxs : ∀ x ∈ xs, x.Spares table)
    (hstep : OneOf (Locked.Step table) xs s ys s') : (table.get s').Sound ys := by
  obtain ⟨x, y, rest, hx, hy, hstep⟩ := hstep.perm
  have hspares : x.Spares table := hxs x (hx.mem_iff.2 (.head _))
  exact ((h.perm hx).change htable hspares hstep).perm hy.symm

end Sound

end LockTable

end StreamPipeline
