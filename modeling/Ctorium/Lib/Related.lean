import Ctorium.Lib.Attempt

/-!
# Attempts on related states

Two attempts are *related* if they end with the same failure, or both without one, in
states that stand in a relation. A computation *respects* the relation if it is related
to itself from related states. The rules follow the sequence, the loop and what is done
at the end, so that a program respects a relation if each of its parts does.
-/

namespace Attempt

variable {ε σ α : Type*}

/-- A function that runs on the failure, as at the boundary of a function that may not throw. -/
def mapFailure (g : ε → ε) (a : Attempt ε σ) : Attempt ε σ := ⟨a.state, a.failure.map g⟩

/-- What cannot fail may be done on either side of the boundary. -/
theorem mapFailure_andThen_ok (g : ε → ε) (a : Attempt ε σ) (f : σ → σ) :
    (a.andThen fun s => ok (f s)).mapFailure g = (a.mapFailure g).andThen fun s => ok (f s) := by
  obtain ⟨s, _ | e⟩ := a <;> rfl

/-- The same failure, in related states. -/
structure Related (R : σ → σ → Prop) (a a' : Attempt ε σ) : Prop where
  state : R a.state a'.state
  failure : a.failure = a'.failure

/-- From related states, the computation goes the same way. -/
def Respects (R : σ → σ → Prop) (f : σ → Attempt ε σ) : Prop :=
  ∀ s s', R s s' → Related R (f s) (f s')

variable {R : σ → σ → Prop} {a a' : Attempt ε σ} {f f' : σ → Attempt ε σ}

theorem Related.ok {s s' : σ} (h : R s s') : Related R (ok s : Attempt ε σ) (ok s') := ⟨h, rfl⟩

theorem Related.fail {s s' : σ} (h : R s s') (e : ε) : Related R (fail s e) (fail s' e) := ⟨h, rfl⟩

theorem Related.refl (hR : ∀ s, R s s) (a : Attempt ε σ) : Related R a a := ⟨hR _, rfl⟩

theorem Related.andThen (h : Related R a a')
    (hf : ∀ s s', R s s' → Related R (f s) (f' s')) :
    Related R (a.andThen f) (a'.andThen f') := by
  cases hfailure : a.failure with
  | none =>
    rw [andThen_of_ok hfailure, andThen_of_ok (h.failure.symm.trans hfailure)]
    exact hf _ _ h.state
  | some e =>
    rw [andThen_of_fail hfailure, andThen_of_fail (h.failure.symm.trans hfailure)]
    exact h

/-- Two loops over the same list, step by step. -/
theorem Related.forEach {g g' : σ → α → Attempt ε σ} {as : List α}
    (hg : ∀ a ∈ as, ∀ s s', R s s' → Related R (g s a) (g' s' a)) {s s' : σ} (h : R s s') :
    Related R (forEach g as s) (forEach g' as s') := by
  induction as generalizing s s' with
  | nil => exact .ok h
  | cons a as ih =>
    refine (hg a List.mem_cons_self s s' h).andThen fun t t' ht => ?_
    exact ih (fun b hb => hg b (List.mem_cons_of_mem a hb)) ht

theorem Related.mapFailure (h : Related R a a') (g : ε → ε) :
    Related R (a.mapFailure g) (a'.mapFailure g) :=
  ⟨h.state, congrArg (Option.map g) h.failure⟩

theorem Related.rethrow {g : σ → σ} (h : Related R a a') (hg : ∀ s s', R s s' → R (g s) (g s')) :
    Related R (a.rethrow g) (a'.rethrow g) := by
  refine ⟨?_, by rw [rethrow_failure, rethrow_failure, h.failure]⟩
  cases hfailure : a.failure with
  | none =>
    rw [rethrow_of_ok hfailure, rethrow_of_ok (h.failure.symm.trans hfailure)]
    exact h.state
  | some e =>
    rw [rethrow_of_fail hfailure, rethrow_of_fail (h.failure.symm.trans hfailure)]
    exact hg _ _ h.state

end Attempt
