/-!
# Activities

An activity works on a state that it shares with others. It acts in single steps, each of which may
have to wait until the state lets it happen; it sleeps; it puts a limit on the time that a part of
it may take; and it runs several parts at once, in a pool of a limited size.

`settle` lets an activity act as long as it can without time passing, parts in order. `run` also
lets time pass, always up to the next moment at which something can happen, so that delays and
limits take effect exactly and in order.
-/

namespace StreamPipeline

mutual

/-- A computation in steps on a shared state, with a result in `α`. -/
inductive Activity (σ : Type) : Type → Type 1
  /-- There is nothing left to do. -/
  | done {α : Type} (a : α) : Activity σ α
  /-- A step, which can be taken where `f` gives something. -/
  | act {α β : Type} (f : σ → Option (β × σ)) (next : β → Activity σ α) : Activity σ α
  /-- A pause of some milliseconds. -/
  | sleep {α : Type} (ms : Nat) (next : Activity σ α) : Activity σ α
  /-- A part that is given up when it takes longer than some milliseconds. -/
  | limit {α β : Type} (ms : Nat) (part : Activity σ β) (next : Option β → Activity σ α) :
      Activity σ α
  /-- Parts that run at once, so many of them that `slots` are unfinished, the first ones first. -/
  | pool {α β : Type} (slots : Nat) (parts : Activities σ β) (next : List β → Activity σ α) :
      Activity σ α

/-- A list of activities. -/
inductive Activities (σ : Type) : Type → Type 1
  | nil {α : Type} : Activities σ α
  | cons {α : Type} (p : Activity σ α) (ps : Activities σ α) : Activities σ α

end

namespace Activities

/-- The activities of a list. -/
def ofList {σ α : Type} : List (Activity σ α) → Activities σ α
  | [] => nil
  | p :: ps => cons p (ofList ps)

end Activities

namespace Activity

variable {σ α β : Type}

/-- The first activity and then what its result leads to. -/
def bind : Activity σ α → (α → Activity σ β) → Activity σ β
  | done a, g => g a
  | act f next, g => act f fun b => bind (next b) g
  | sleep ms next, g => sleep ms (bind next g)
  | limit ms part next, g => limit ms part fun b => bind (next b) g
  | pool slots parts next, g => pool slots parts fun b => bind (next b) g

instance : Monad (Activity σ) where
  pure := done
  bind := bind

/-- A step that can always be taken. -/
def step (f : σ → α × σ) : Activity σ α := act (fun s => some (f s)) done

/-- Looks at the state. -/
def look (f : σ → α) : Activity σ α := step fun s => (f s, s)

/-- Changes the state. -/
def change (f : σ → σ) : Activity σ Unit := step fun s => ((), f s)

/-- Waits until the state lets a change happen. -/
def await (f : σ → Option σ) : Activity σ Unit := act (fun s => (f s).map ((), ·)) done

/-- A pause. -/
def pause (ms : Nat) : Activity σ Unit := sleep ms (done ())

/-- The result of an activity that has nothing left to do. -/
def result? : Activity σ α → Option α
  | done a => some a
  | _ => none

/-- The results of activities that all have nothing left to do. -/
def results? : Activities σ α → Option (List α)
  | .nil => some []
  | .cons p ps => do return (← p.result?) :: (← results? ps)

mutual

/-- Acts as long as that is possible without time passing. -/
def settle {α : Type} (p : Activity σ α) (s : σ) : Activity σ α × σ :=
  match p with
  | done a => (done a, s)
  | act f next =>
    match f s with
    | some (b, s) => settle (next b) s
    | none => (act f next, s)
  | sleep ms next => if ms = 0 then settle next s else (sleep ms next, s)
  | limit ms part next =>
    let r := settle part s
    match r.1.result? with
    | some b => settle (next (some b)) r.2
    | none => if ms = 0 then settle (next none) r.2 else (limit ms r.1 next, r.2)
  | pool slots parts next =>
    let r := settleAll slots parts s
    match results? r.1 with
    | some bs => settle (next bs) r.2
    | none => (pool slots r.1 next, r.2)

/-- The same for those of some activities that have a slot. -/
def settleAll {α : Type} (slots : Nat) (ps : Activities σ α) (s : σ) : Activities σ α × σ :=
  match ps with
  | .nil => (.nil, s)
  | .cons p ps =>
    if slots = 0 then (.cons p ps, s)
    else
      let r := settle p s
      let rest := settleAll (if r.1.result?.isSome then slots else slots - 1) ps r.2
      (.cons r.1 rest.1, rest.2)

end

mutual

/-- The time until something can happen, if anything can. -/
def due {α : Type} (p : Activity σ α) (s : σ) : Option Nat :=
  match p with
  | done _ => some 0
  | act f _ => if (f s).isSome then some 0 else none
  | sleep ms _ => some ms
  | limit ms part _ => some ((due part s).elim ms (min ms))
  | pool slots parts _ => dueAll slots parts s

/-- The same for those of some activities that have a slot. -/
def dueAll {α : Type} (slots : Nat) (ps : Activities σ α) (s : σ) : Option Nat :=
  match ps with
  | .nil => none
  | .cons p ps =>
    if slots = 0 then none
    else if p.result?.isSome then dueAll slots ps s
    else match due p s, dueAll (slots - 1) ps s with
      | some m, some n => some (min m n)
      | some m, none => some m
      | none, n => n

end

mutual

/-- What is left when some milliseconds have passed. -/
def elapse {α : Type} (ms : Nat) : Activity σ α → Activity σ α
  | done a => done a
  | act f next => act f next
  | sleep n next => sleep (n - ms) next
  | limit n part next => limit (n - ms) (elapse ms part) next
  | pool slots parts next => pool slots (elapseAll ms slots parts) next

/-- The same for those of some activities that have a slot. -/
def elapseAll {α : Type} (ms slots : Nat) : Activities σ α → Activities σ α
  | .nil => .nil
  | .cons p ps =>
    if slots = 0 then .cons p ps
    else .cons (elapse ms p) (elapseAll ms (if p.result?.isSome then slots else slots - 1) ps)

end

/-- Runs an activity to its end, unless it waits for ever or time has to pass more than `fuel`
times. -/
def run : Nat → Activity σ α → σ → Option (α × σ)
  | 0, _, _ => none
  | fuel + 1, p, s =>
    let r := settle p s
    match r.1.result? with
    | some a => some (a, r.2)
    | none => (due r.1 r.2).bind fun ms => run fuel (elapse ms r.1) r.2

end Activity

end StreamPipeline
