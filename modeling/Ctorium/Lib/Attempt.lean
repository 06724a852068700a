import Mathlib.Data.Option.Basic

/-!
# Computations that keep their state when they fail

An *attempt* is a computation on a state that may fail half-way: the state that it
has reached by then is kept, and nothing is undone. `andThen` and `forEach` are the
sequence and the loop with such a failure as their early exit, and the rules
`andThen_invariant` and `forEach_invariant` carry an invariant of the state through
them, whether they fail or not. `cleanup` and `rethrow` add what is done at the end in
any case, and what is done for a failure only.
-/

/-- A state reached, and the failure that ended the computation there, if any. -/
structure Attempt (ε σ : Type*) where
  state : σ
  failure : Option ε

namespace Attempt

variable {ε σ α : Type*}

/-- The computation succeeds with the state. -/
def ok (s : σ) : Attempt ε σ := ⟨s, none⟩

/-- The computation fails in the state. -/
def fail (s : σ) (e : ε) : Attempt ε σ := ⟨s, some e⟩

/-- A check that changes nothing. -/
def check (s : σ) (e : Option ε) : Attempt ε σ := ⟨s, e⟩

/-- One computation after another. -/
def andThen (a : Attempt ε σ) (f : σ → Attempt ε σ) : Attempt ε σ :=
  match a.failure with
  | none => f a.state
  | some _ => a

/-- A loop over a list. -/
def forEach (f : σ → α → Attempt ε σ) : List α → σ → Attempt ε σ
  | [], s => ok s
  | a :: as, s => (f s a).andThen fun s' => forEach f as s'

/-- What follows the computation, whether it fails or not: a destructor. -/
def cleanup (a : Attempt ε σ) (f : σ → σ) : Attempt ε σ := ⟨f a.state, a.failure⟩

/-- A handler, which lets the failure pass on. -/
def rethrow (a : Attempt ε σ) (f : σ → σ) : Attempt ε σ :=
  match a.failure with
  | none => a
  | some _ => a.cleanup f

@[simp] theorem ok_state (s : σ) : (ok s : Attempt ε σ).state = s := rfl
@[simp] theorem ok_failure (s : σ) : (ok s : Attempt ε σ).failure = none := rfl
@[simp] theorem fail_state (s : σ) (e : ε) : (fail s e).state = s := rfl
@[simp] theorem fail_failure (s : σ) (e : ε) : (fail s e).failure = some e := rfl
@[simp] theorem check_state (s : σ) (e : Option ε) : (check s e).state = s := rfl
@[simp] theorem check_failure (s : σ) (e : Option ε) : (check s e).failure = e := rfl

@[simp] theorem cleanup_state (a : Attempt ε σ) (f : σ → σ) : (a.cleanup f).state = f a.state := rfl
@[simp] theorem cleanup_failure (a : Attempt ε σ) (f : σ → σ) :
    (a.cleanup f).failure = a.failure := rfl

variable {a : Attempt ε σ} {f : σ → Attempt ε σ} {g : σ → α → Attempt ε σ} {P : σ → Prop}

/-- A first part without failure hands its state to the second. -/
theorem andThen_of_ok (h : a.failure = none) : a.andThen f = f a.state := by
  simp [andThen, h]

/-- After a failure the second part does not run. -/
theorem andThen_of_fail {e : ε} (h : a.failure = some e) : a.andThen f = a := by
  simp [andThen, h]

@[simp] theorem ok_andThen (s : σ) : (ok s : Attempt ε σ).andThen f = f s := rfl

@[simp] theorem andThen_ok (a : Attempt ε σ) : a.andThen ok = a := by
  obtain ⟨s, _ | e⟩ := a <;> rfl

/-- A sequence succeeds if both of its parts do. -/
theorem andThen_failure_eq_none :
    (a.andThen f).failure = none ↔ a.failure = none ∧ (f a.state).failure = none := by
  cases h : a.failure <;> simp [andThen, h]

@[simp] theorem rethrow_failure (a : Attempt ε σ) (f : σ → σ) :
    (a.rethrow f).failure = a.failure := by
  cases h : a.failure <;> simp [rethrow, h]

theorem rethrow_of_ok {f : σ → σ} (h : a.failure = none) : a.rethrow f = a := by
  simp [rethrow, h]

/-- The cleanup runs on the way out only. -/
theorem rethrow_of_fail {f : σ → σ} {e : ε} (h : a.failure = some e) :
    a.rethrow f = a.cleanup f := by
  simp [rethrow, h]

/-- What both parts keep is kept by the sequence, whichever of them fails. -/
theorem andThen_invariant (ha : P a.state) (hf : ∀ s, P s → P (f s).state) :
    P (a.andThen f).state := by
  cases h : a.failure with
  | none =>
    rw [andThen_of_ok h]
    exact hf _ ha
  | some e =>
    rw [andThen_of_fail h]
    exact ha

/-- What the body keeps is kept by the loop, also when it stops early. -/
theorem forEach_invariant {as : List α} (hg : ∀ s, ∀ a ∈ as, P s → P (g s a).state) {s : σ}
    (hs : P s) : P (forEach g as s).state := by
  induction as generalizing s with
  | nil => exact hs
  | cons a as ih =>
    refine andThen_invariant (hg s a List.mem_cons_self hs) fun s' hs' => ?_
    exact ih (fun s b hb => hg s b (List.mem_cons_of_mem a hb)) hs'

/-- What holds of the failures of both parts of a sequence holds of its failure. -/
theorem andThen_failure {Q : ε → Prop} (ha : ∀ e, a.failure = some e → Q e)
    (hf : ∀ s e, (f s).failure = some e → Q e) {e : ε} (h : (a.andThen f).failure = some e) :
    Q e := by
  cases hfail : a.failure with
  | none =>
    rw [andThen_of_ok hfail] at h
    exact hf _ e h
  | some e' =>
    rw [andThen_of_fail hfail] at h
    exact ha e h

theorem forEach_failure {Q : ε → Prop} {as : List α}
    (hg : ∀ s a e, (g s a).failure = some e → Q e) {s : σ} {e : ε}
    (h : (forEach g as s).failure = some e) : Q e := by
  induction as generalizing s e with
  | nil => cases h
  | cons a as ih => exact andThen_failure (hg s a) (fun s' e' h' => ih h') h

/-- A loop whose steps change nothing when they fail leaves the state of a part of it that
    succeeds. -/
theorem forEach_prefix (hg : ∀ s a e, (g s a).failure = some e → (g s a).state = s) (as : List α)
    (s : σ) : ∃ pre, pre <+: as ∧ (forEach g pre s).failure = none ∧
      (forEach g as s).state = (forEach g pre s).state := by
  induction as generalizing s with
  | nil => exact ⟨[], List.prefix_rfl, rfl, rfl⟩
  | cons a as ih =>
    cases h : (g s a).failure with
    | none =>
      obtain ⟨pre, hpre, hok, hstate⟩ := ih (g s a).state
      refine ⟨a :: pre, (List.prefix_cons_inj a).mpr hpre, ?_, ?_⟩
      · exact andThen_failure_eq_none.mpr ⟨h, hok⟩
      · rw [forEach, forEach, andThen_of_ok h, andThen_of_ok h, hstate]
    | some e =>
      have hfail : forEach g (a :: as) s = g s a := andThen_of_fail h
      refine ⟨[], List.nil_prefix, rfl, ?_⟩
      rw [hfail, hg s a e h]
      rfl

/-- A loop that succeeds does its first step with success, and then the rest of its steps. -/
theorem forEach_cons_eq_none {a : α} {as : List α} {s : σ}
    (h : (forEach g (a :: as) s).failure = none) :
    (g s a).failure = none ∧ (forEach g as (g s a).state).failure = none ∧
      forEach g (a :: as) s = forEach g as (g s a).state := by
  obtain ⟨hfirst, hrest⟩ := andThen_failure_eq_none.mp h
  exact ⟨hfirst, hrest, andThen_of_ok hfirst⟩

end Attempt
