/-!
# Parts of a state

What works on one part of a state is lifted to the whole.
-/

namespace StreamPipeline

/-- A part of a state. -/
structure Part (σ τ : Type) where
  get : σ → τ
  set : τ → σ → σ

namespace Part

variable {σ τ α : Type}

/-- The state with a part changed. -/
def modify (p : Part σ τ) (f : τ → τ) (s : σ) : σ := p.set (f (p.get s)) s

/-- A step on a part as a step on the whole. -/
def lift (p : Part σ τ) (f : τ → α × τ) (s : σ) : α × σ :=
  let (a, t) := f (p.get s)
  (a, p.set t s)

end Part

end StreamPipeline
