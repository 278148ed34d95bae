import Mathlib.Logic.Relation
import StreamPipeline.Proofs.Concurrent.Alone

/-!
# Activities step by step

One thing at a time happens to an activity (`Advances`): it takes a step that the state lets it
take, some of its time passes or is up, or its parts have come to their ends. Of the parts of a
pool, it happens to one of those that have a slot. When it happens is left open, so that these
steps cover every way in which activities may be delayed.

**No activity advances for ever** (`acc_behind`). `p.Becomes q` says that `q` may be left of `p`
while others change the state as they like, and `p.MayGive a` that it may come to the result `a`.
A part with a limit either comes to one of its own results in time or is given up
(`mayGive_limit_iff`), so that an activity with a limit is never stuck (`Limited.exists_behind`).
-/

namespace StreamPipeline

namespace Activity

open Relation (TransGen ReflTransGen)

variable {σ α β : Type}

mutual

/-- What is left of an activity after one thing has happened to it. -/
inductive Advances : {α : Type} → Activity σ α → σ → Activity σ α → σ → Prop
  | act {α β : Type} {f : σ → Option (β × σ)} {next : β → Activity σ α} {s s' : σ} {b : β}
      (h : f s = some (b, s')) : Advances (act f next) s (next b) s'
  | wakes {α : Type} {next : Activity σ α} {s : σ} : Advances (sleep 0 next) s next s
  | sleeps {α : Type} {n m : Nat} {next : Activity σ α} {s : σ} (h : m < n) :
      Advances (sleep n next) s (sleep m next) s
  | within {α β : Type} {n : Nat} {part part' : Activity σ β}
      {next : Option β → Activity σ α} {s s' : σ} (h : Advances part s part' s') :
      Advances (limit n part next) s (limit n part' next) s'
  | passes {α β : Type} {n m : Nat} {part : Activity σ β} {next : Option β → Activity σ α} {s : σ}
      (h : m < n) : Advances (limit n part next) s (limit m part next) s
  | inTime {α β : Type} {n : Nat} {b : β} {next : Option β → Activity σ α} {s : σ} :
      Advances (limit n (done b) next) s (next (some b)) s
  | tooLate {α β : Type} {part : Activity σ β} {next : Option β → Activity σ α} {s : σ} :
      Advances (limit 0 part next) s (next none) s
  | among {α β : Type} {slots : Nat} {parts parts' : Activities σ β}
      {next : List β → Activity σ α} {s s' : σ} (h : AdvancesAll slots parts s parts' s') :
      Advances (pool slots parts next) s (pool slots parts' next) s'
  | joined {α β : Type} {slots : Nat} {parts : Activities σ β} {bs : List β}
      {next : List β → Activity σ α} {s : σ} (h : results? parts = some bs) :
      Advances (pool slots parts next) s (next bs) s

/-- The same for one of those activities that have a slot. -/
inductive AdvancesAll : {α : Type} → Nat → Activities σ α → σ → Activities σ α → σ → Prop
  | head {α : Type} {slots : Nat} {p p' : Activity σ α} {ps : Activities σ α} {s s' : σ}
      (h : Advances p s p' s') : AdvancesAll (slots + 1) (.cons p ps) s (.cons p' ps) s'
  | tail {α : Type} {slots : Nat} {p : Activity σ α} {ps ps' : Activities σ α} {s s' : σ}
      (h : AdvancesAll (if p.result?.isSome then slots + 1 else slots) ps s ps' s') :
      AdvancesAll (slots + 1) (.cons p ps) s (.cons p ps') s'

end

theorem eq_done_of_result? {p : Activity σ α} {a : α} (h : p.result? = some a) : p = done a := by
  cases p with
  | done b => exact congrArg done (Option.some.inj h)
  | _ => cases h

theorem results?_cons_iff {p : Activity σ α} {ps : Activities σ α} {l : List α} :
    results? (.cons p ps) = some l ↔
      ∃ a as, p.result? = some a ∧ results? ps = some as ∧ l = a :: as := by
  cases hp : p.result? <;> cases hps : results? ps <;> simp [results?, hp, hps, eq_comm]

/-- An activity and the state on which it works, after one thing has happened to it. -/
def Next (x y : Activity σ α × σ) : Prop := Advances x.1 x.2 y.1 y.2

def NextAll (slots : Nat) (x y : Activities σ α × σ) : Prop := AdvancesAll slots x.1 x.2 y.1 y.2

/-! ### No activity advances for ever -/

/-- The activity `q` may be left of `p` when one thing has happened to it. -/
def Behind (q p : Activity σ α) : Prop := ∃ s s', p.Advances s q s'

def BehindAll (qs ps : Activities σ α) : Prop := ∃ slots s s', AdvancesAll slots ps s qs s'

theorem acc_sleep {next : Activity σ α} (h : Acc Behind next) (n : Nat) :
    Acc Behind (sleep n next) := by
  induction n using Nat.strongRecOn with
  | ind n ih =>
      refine ⟨_, fun q ⟨s, s', hq⟩ => ?_⟩
      cases hq with
      | wakes => exact h
      | sleeps hm => exact ih _ hm

theorem acc_limit {part : Activity σ β} {next : Option β → Activity σ α} (hpart : Acc Behind part)
    (hnext : ∀ b, Acc Behind (next b)) (n : Nat) : Acc Behind (limit n part next) := by
  induction hpart generalizing n with
  | intro part _ ihpart =>
      induction n using Nat.strongRecOn with
      | ind n ih =>
          refine ⟨_, fun q ⟨s, s', hq⟩ => ?_⟩
          cases hq with
          | within h => exact ihpart _ ⟨_, _, h⟩ n
          | passes hm => exact ih _ hm
          | inTime => exact hnext _
          | tooLate => exact hnext _

theorem acc_pool {slots : Nat} {parts : Activities σ β} {next : List β → Activity σ α}
    (hparts : Acc BehindAll parts) (hnext : ∀ bs, Acc Behind (next bs)) :
    Acc Behind (pool slots parts next) := by
  induction hparts with
  | intro parts _ ih =>
      refine ⟨_, fun q ⟨s, s', hq⟩ => ?_⟩
      cases hq with
      | among h => exact ih _ ⟨_, _, _, h⟩
      | joined h => exact hnext _

theorem acc_cons {p : Activity σ α} {ps : Activities σ α} (hp : Acc Behind p)
    (hps : Acc BehindAll ps) : Acc BehindAll (.cons p ps) := by
  induction hp generalizing ps with
  | intro p _ ihp =>
      induction hps with
      | intro ps hps ihps =>
          refine ⟨_, fun qs ⟨slots, s, s', hqs⟩ => ?_⟩
          cases hqs with
          | head h => exact ihp _ ⟨_, _, h⟩ ⟨ps, hps⟩
          | tail h => exact ihps _ ⟨_, _, _, h⟩

mutual

theorem acc_behind {α : Type} (p : Activity σ α) : Acc Behind p := by
  match p with
  | act f next =>
      refine ⟨_, fun q ⟨s, s', h⟩ => ?_⟩
      cases h
      exact acc_behind (next _)
  | sleep n next => exact acc_sleep (acc_behind next) n
  | limit n part next => exact acc_limit (acc_behind part) (fun b => acc_behind (next b)) n
  | pool slots parts next => exact acc_pool (acc_behindAll parts) fun bs => acc_behind (next bs)
  | done a => exact ⟨_, fun q ⟨_, _, h⟩ => by cases h⟩

theorem acc_behindAll {α : Type} (ps : Activities σ α) : Acc BehindAll ps := by
  match ps with
  | .nil => exact ⟨_, fun q ⟨_, _, _, h⟩ => by cases h⟩
  | .cons p ps => exact acc_cons (acc_behind p) (acc_behindAll ps)

end

/-- An activity that comes from another one leaves less to be done. -/
theorem behind_of_steps {x y : Activity σ α × σ} (h : TransGen Next x y) :
    TransGen Behind y.1 x.1 := by
  induction h with
  | single h => exact .single ⟨_, _, h⟩
  | tail _ h ih => exact .head ⟨_, _, h⟩ ih

/-! ### One activity after another -/

theorem result?_bind {p : Activity σ β} (h : p.result? = none) (g : β → Activity σ α) :
    (p.bind g).result? = none := by
  cases p with
  | done b => cases h
  | _ => rfl

/-- An activity with something behind it advances as it does, until there is nothing left of it. -/
theorem advances_bind {p : Activity σ β} {g : β → Activity σ α} {q : Activity σ α} {s s' : σ}
    (h : (p.bind g).Advances s q s') :
    (∃ b, p = done b) ∨ ∃ p', q = p'.bind g ∧ p.Advances s p' s' := by
  cases p with
  | done b => exact .inl ⟨b, rfl⟩
  | act f next =>
      cases h with
      | act h => exact .inr ⟨_, rfl, .act h⟩
  | sleep n next =>
      cases h with
      | wakes => exact .inr ⟨_, rfl, .wakes⟩
      | sleeps h => exact .inr ⟨sleep _ next, rfl, .sleeps h⟩
  | limit n part next =>
      cases h with
      | within h => exact .inr ⟨limit n _ next, rfl, .within h⟩
      | passes h => exact .inr ⟨limit _ part next, rfl, .passes h⟩
      | inTime => exact .inr ⟨_, rfl, .inTime⟩
      | tooLate => exact .inr ⟨_, rfl, .tooLate⟩
  | pool slots parts next =>
      cases h with
      | among h => exact .inr ⟨pool slots _ next, rfl, .among h⟩
      | joined h => exact .inr ⟨_, rfl, .joined h⟩

theorem Advances.bind {p p' : Activity σ β} {s s' : σ} (h : p.Advances s p' s')
    (g : β → Activity σ α) : (p.bind g).Advances s (p'.bind g) s' := by
  cases h with
  | act h => exact .act h
  | wakes => exact .wakes
  | sleeps h => exact .sleeps h
  | within h => exact .within h
  | passes h => exact .passes h
  | inTime => exact .inTime
  | tooLate => exact .tooLate
  | among h => exact .among h
  | joined h => exact .joined h

/-! ### What may become of an activity -/

/-- The activity `q` may be left of `p`, whatever others do to the state in the meantime. -/
def Becomes (p q : Activity σ α) : Prop := ReflTransGen (fun p q => Behind q p) p q

/-- An activity may come to a result. -/
def MayGive (p : Activity σ α) (a : α) : Prop := p.Becomes (done a)

theorem Becomes.refl (p : Activity σ α) : p.Becomes p := ReflTransGen.refl

theorem Becomes.tail {p q r : Activity σ α} (h : p.Becomes q) (hr : r.Behind q) : p.Becomes r :=
  ReflTransGen.tail h hr

theorem Becomes.head {p q r : Activity σ α} (hq : q.Behind p) (h : q.Becomes r) : p.Becomes r :=
  ReflTransGen.head hq h

theorem Becomes.trans {p q r : Activity σ α} (h : p.Becomes q) (h' : q.Becomes r) : p.Becomes r :=
  ReflTransGen.trans h h'

theorem Becomes.within {part part' : Activity σ β} (h : part.Becomes part') (n : Nat)
    (next : Option β → Activity σ α) : (limit n part next).Becomes (limit n part' next) :=
  ReflTransGen.lift (fun part => limit n part next)
    (fun _ _ ⟨s, s', h⟩ => ⟨s, s', .within h⟩) _ _ h

theorem Becomes.bind {p p' : Activity σ β} (h : p.Becomes p') (g : β → Activity σ α) :
    (p.bind g).Becomes (p'.bind g) :=
  ReflTransGen.lift (fun p : Activity σ β => p.bind g)
    (fun _ _ ⟨s, s', h⟩ => ⟨s, s', h.bind g⟩) _ _ h

theorem mayGive_done_iff {a b : α} : (done a : Activity σ α).MayGive b ↔ b = a := by
  constructor
  · intro h
    rcases ReflTransGen.cases_head h with heq | ⟨q, ⟨s, s', hq⟩, -⟩
    · cases heq
      rfl
    · cases hq
  · rintro rfl
    exact .refl _

/-- A part with a limit comes to one of its own results, or it is given up. -/
theorem mayGive_limit_iff [Nonempty σ] {n : Nat} {part : Activity σ β}
    {next : Option β → Activity σ α} {a : α} : (limit n part next).MayGive a ↔
      ∃ b, (∀ x, b = some x → part.MayGive x) ∧ (next b).MayGive a := by
  constructor
  · intro h
    generalize hp : limit n part next = p at h
    induction h using ReflTransGen.head_induction_on generalizing n part with
    | refl => cases hp
    | head hstep hrest ih =>
        obtain ⟨s, s', hstep⟩ := hstep
        subst hp
        cases hstep with
        | within hpart =>
            obtain ⟨b, hb, hnext⟩ := ih rfl
            exact ⟨b, fun x hx => (hb x hx).head ⟨s, s', hpart⟩, hnext⟩
        | passes => exact ih rfl
        | @inTime _ _ _ b => exact ⟨some b, fun x hx => by cases hx; exact .refl _, hrest⟩
        | tooLate => exact ⟨none, nofun, hrest⟩
  · rintro ⟨b, hb, hnext⟩
    obtain ⟨s⟩ := ‹Nonempty σ›
    cases b with
    | some x => exact ((hb x rfl).within n next).trans (hnext.head ⟨s, s, .inTime⟩)
    | none =>
        have hpassed : (limit n part next).Becomes (limit 0 part next) := by
          cases n with
          | zero => exact .refl _
          | succ n => exact (Becomes.refl _).tail ⟨s, s, .passes (Nat.succ_pos n)⟩
        exact hpassed.trans (hnext.head ⟨s, s, .tooLate⟩)

/-- What comes after an activity starts from one of its results. -/
theorem mayGive_bind_iff {p : Activity σ β} {g : β → Activity σ α} {a : α} :
    (p.bind g).MayGive a ↔ ∃ b, p.MayGive b ∧ (g b).MayGive a := by
  constructor
  · intro h
    generalize hq : p.bind g = q at h
    induction h using ReflTransGen.head_induction_on generalizing p with
    | refl =>
        cases p with
        | done b =>
            refine ⟨b, .refl _, ?_⟩
            show (g b).MayGive a
            rw [show g b = done a from hq]
            exact .refl _
        | _ => cases hq
    | head hstep hrest ih =>
        obtain ⟨s, s', hstep⟩ := hstep
        subst hq
        rcases advances_bind hstep with ⟨b, rfl⟩ | ⟨p', rfl, hp⟩
        · exact ⟨b, .refl _, ReflTransGen.head ⟨s, s', hstep⟩ hrest⟩
        · obtain ⟨b, hb, hnext⟩ := ih rfl
          exact ⟨b, hb.head ⟨s, s', hp⟩, hnext⟩
  · rintro ⟨b, hb, hnext⟩
    exact (hb.bind g).trans hnext

/-! ### Limited activities -/

/-- An activity of which nothing is left, or whose one part is given up after some time. -/
inductive Limited {α : Type} : Activity σ α → Prop
  | done (a : α) : Limited (done a)
  | limit {β : Type} (n : Nat) (part : Activity σ β) {next : Option β → Activity σ α}
      (h : ∀ b, Limited (next b)) : Limited (limit n part next)

theorem Limited.bind {p : Activity σ β} {g : β → Activity σ α} (h : p.Limited)
    (hg : ∀ b, (g b).Limited) : (p.bind g).Limited := by
  induction h with
  | done b => exact hg b
  | limit n part _ ih => exact .limit n part ih

/-- Activities that are all limited. -/
inductive LimitedAll {α : Type} : Activities σ α → Prop
  | nil : LimitedAll .nil
  | cons {p : Activity σ α} {ps : Activities σ α} (hp : Limited p) (hps : LimitedAll ps) :
      LimitedAll (.cons p ps)

theorem Limited.advances {p q : Activity σ α} {s s' : σ} (h : p.Limited)
    (hq : p.Advances s q s') : q.Limited := by
  cases h with
  | done => cases hq
  | limit n part h =>
      cases hq with
      | within | passes => exact .limit _ _ h
      | inTime | tooLate => exact h _

theorem LimitedAll.advances {slots : Nat} {ps qs : Activities σ α} {s s' : σ} (h : LimitedAll ps)
    (hqs : AdvancesAll slots ps s qs s') : LimitedAll qs := by
  induction h generalizing slots qs with
  | nil => cases hqs
  | cons hp hps ih =>
      cases hqs with
      | head h => exact .cons (hp.advances h) hps
      | tail h => exact .cons hp (ih h)

theorem LimitedAll.of_steps {slots : Nat} {x y : Activities σ α × σ} (h : LimitedAll x.1)
    (t : ReflTransGen (NextAll slots) x y) : LimitedAll y.1 := by
  induction t with
  | refl => exact h
  | tail _ hstep ih => exact ih.advances hstep

theorem Limited.becomes {p q : Activity σ α} (h : p.Limited) (hq : p.Becomes q) : q.Limited := by
  induction hq with
  | refl => exact h
  | tail _ hstep ih =>
      obtain ⟨s, s', hstep⟩ := hstep
      exact ih.advances hstep

/-- A limited activity is never stuck. -/
theorem Limited.exists_behind [Nonempty σ] {p : Activity σ α} (h : p.Limited) :
    (∃ a, p = Activity.done a) ∨ ∃ q, Behind q p := by
  obtain ⟨s⟩ := ‹Nonempty σ›
  cases h with
  | done a => exact .inl ⟨a, rfl⟩
  | limit n part h =>
      cases n with
      | zero => exact .inr ⟨_, s, s, .tooLate⟩
      | succ n => exact .inr ⟨_, s, s, .passes (Nat.lt_succ_self n)⟩

end Activity

end StreamPipeline
