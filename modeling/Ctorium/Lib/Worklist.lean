import Mathlib.Order.Basic

/-!
# Depth-first worklists

A recursive procedure whose body does some work and then calls itself on a list
of further items, in order, is a loop over a worklist: the items of a call go
before the items that wait. `drain` runs the loop with fuel, and
`drain_invariant` is the rule for it: an invariant of the state and the worklist
that every item preserves, with a measure that every item decreases, holds at the
end, with nothing left to do.
-/

namespace Worklist

variable {σ ω : Type*} (perform : σ → ω → σ × List ω)

/-- Perform the items of a worklist, those that arise first, at most `n` of them. -/
def drain : ℕ → List ω → σ → σ
  | 0, _, s => s
  | _ + 1, [], s => s
  | n + 1, w :: ws, s => drain n ((perform s w).2 ++ ws) (perform s w).1

variable {perform} {I : σ → List ω → Prop} {μ : σ → List ω → ℕ}

/-- The rule for worklists, with fuel for the measure of what there is to do. -/
theorem drain_invariant
    (hstep : ∀ s w ws, I s (w :: ws) → I (perform s w).1 ((perform s w).2 ++ ws))
    (hdec : ∀ s w ws, I s (w :: ws) → μ (perform s w).1 ((perform s w).2 ++ ws) < μ s (w :: ws))
    {n : ℕ} {ws : List ω} {s : σ} (h : I s ws) (hn : μ s ws < n) :
    I (drain perform n ws s) [] := by
  induction n generalizing ws s with
  | zero => exact absurd hn (Nat.not_lt_zero _)
  | succ n ih =>
    cases ws with
    | nil => exact h
    | cons w ws =>
      exact ih (hstep s w ws h) (Nat.lt_of_lt_of_le (hdec s w ws h) (Nat.le_of_lt_succ hn))

end Worklist
