import Mathlib.Data.Option.Basic
import Mathlib.Logic.Relation

/-!
# Machines and their runs

A *machine* is a partial step function on a type of states, driven by actions.
An action that is not enabled in a state has no successor there, so the
interleavings of several parties are the runs of one machine whose actions name
the party that moves.

* A state is `ReachableBy G` if a run leads to it whose steps all meet the
  guard `G`, a condition on the state before the step and on the action.
* `ReachableBy.invariant` is the induction that carries an invariant along such
  runs: it holds initially, and every guarded step preserves it.
* `Along G` says that all steps of a given run meet a guard; where the guard is
  decidable, so is this.
* `ReachableBy.simulation` is the rule for two machines: if guarded runs of the one
  can follow every guarded step of the other, they reach related states.
-/

/-- A machine: its initial states and its partial step function. -/
structure Machine (σ α : Type*) where
  /-- The initial states. -/
  Init : σ → Prop
  /-- The successor of a state under an action, if the action is enabled. -/
  step : σ → α → Option σ

namespace Machine

variable {σ α : Type*} (M : Machine σ α)

/-- The state after a sequence of actions, if all of them are enabled. -/
def run : σ → List α → Option σ
  | s, [] => some s
  | s, a :: as => (M.step s a).bind fun s' => run s' as

@[simp] theorem run_nil (s : σ) : M.run s [] = some s := rfl

@[simp] theorem run_cons (s : σ) (a : α) (as : List α) :
    M.run s (a :: as) = (M.step s a).bind fun s' => M.run s' as := rfl

/-- The states that a run leads to whose steps all meet the guard `G`. -/
inductive ReachableBy (G : σ → α → Prop) : σ → Prop
  | init {s : σ} : M.Init s → ReachableBy G s
  | step {s s' : σ} {a : α} : ReachableBy G s → G s a → M.step s a = some s' → ReachableBy G s'

/-- The states that some run leads to. -/
def Reachable : σ → Prop := M.ReachableBy fun _ _ => True

/-- All steps of the run `as` from `s` meet the guard `G`. -/
def Along (G : σ → α → Prop) : σ → List α → Prop
  | _, [] => True
  | s, a :: as => G s a ∧ match M.step s a with
    | none => True
    | some s' => Along G s' as

instance Along.decidable (G : σ → α → Prop) [∀ s a, Decidable (G s a)] :
    ∀ s as, Decidable (M.Along G s as)
  | _, [] => .isTrue trivial
  | s, a :: as =>
    have : Decidable (match M.step s a with | none => True | some s' => M.Along G s' as) :=
      match M.step s a with
      | none => .isTrue trivial
      | some s' => Along.decidable G s' as
    inferInstanceAs (Decidable (_ ∧ _))

variable {M} {G : σ → α → Prop} {P : σ → Prop}

/-- What is left of a run that meets a guard after its first step. -/
theorem Along.tail {s s' : σ} {a : α} {as : List α} (h : M.Along G s (a :: as))
    (hs : M.step s a = some s') : M.Along G s' as := by
  have hrest := h.2
  rwa [hs] at hrest

/-- A run that meets a guard meets every weaker one. -/
theorem Along.mono {G' : σ → α → Prop} (hGG : ∀ s a, G s a → G' s a) {s : σ} {as : List α}
    (h : M.Along G s as) : M.Along G' s as := by
  induction as generalizing s with
  | nil => trivial
  | cons a as ih =>
    refine ⟨hGG s a h.1, ?_⟩
    have hrest := h.2
    cases hs : M.step s a with
    | none => trivial
    | some s' =>
      rw [hs] at hrest
      exact ih hrest

/-- All steps of a run meet a guard if the guard holds at every position that the run
    reaches. -/
theorem along_iff {s : σ} {as : List α} :
    M.Along G s as ↔ ∀ k t a, M.run s (as.take k) = some t → as[k]? = some a → G t a := by
  induction as generalizing s with
  | nil => simp [Along]
  | cons b as ih =>
    constructor
    · rintro ⟨hb, hrest⟩ k t a hr ha
      cases k with
      | zero =>
        obtain rfl := Option.some.inj hr
        obtain rfl := Option.some.inj ha
        exact hb
      | succ k =>
        obtain ⟨s₁, hs, hr⟩ := Option.bind_eq_some_iff.mp hr
        rw [hs] at hrest
        exact ih.1 hrest k t a hr ha
    · intro h
      refine ⟨h 0 s b rfl rfl, ?_⟩
      cases hs : M.step s b with
      | none => trivial
      | some s₁ =>
        refine ih.2 fun k t a hr ha => h (k + 1) t a ?_ ha
        rw [List.take_succ_cons, run_cons, hs]
        exact hr

/-- A run keeps what its steps preserve. -/
theorem run_invariant (hstep : ∀ s a s', P s → M.step s a = some s' → P s') {s s' : σ}
    {as : List α} (h : P s) (hr : M.run s as = some s') : P s' := by
  induction as generalizing s with
  | nil => exact Option.some.inj hr ▸ h
  | cons a as ih =>
    obtain ⟨s₁, hs, hr⟩ := Option.bind_eq_some_iff.mp hr
    exact ih (hstep s a s₁ h hs) hr

theorem run_append {s s' : σ} {as bs : List α} (hr : M.run s as = some s') :
    M.run s (as ++ bs) = M.run s' bs := by
  induction as generalizing s with
  | nil =>
    obtain rfl := Option.some.inj hr
    rfl
  | cons a as ih =>
    obtain ⟨s₁, hs, hr⟩ := Option.bind_eq_some_iff.mp hr
    rw [List.cons_append, run_cons, hs]
    exact ih hr

/-- A run ends with a step from where the run before it ends. -/
theorem run_concat {s s' : σ} {as : List α} {a : α} :
    M.run s (as ++ [a]) = some s' ↔ ∃ t, M.run s as = some t ∧ M.step t a = some s' := by
  induction as generalizing s with
  | nil => simp
  | cons b as ih => cases hs : M.step s b <;> simp [hs, ih]

theorem along_concat {s t : σ} {as : List α} {a : α} (hr : M.run s as = some t)
    (h : M.Along G s (as ++ [a])) : M.Along G s as ∧ G t a := by
  rw [along_iff] at h ⊢
  refine ⟨fun k u b hk hb => ?_, ?_⟩
  · obtain ⟨hlt, -⟩ := List.getElem?_eq_some_iff.mp hb
    refine h k u b ?_ ?_
    · rwa [List.take_append_of_le_length (Nat.le_of_lt hlt)]
    · rwa [List.getElem?_append_left hlt]
  · exact h as.length t a (by rwa [List.take_left]) (by simp)

/-- The exact guard of a property: if every step keeps the property exactly when it meets the
    guard, and a step that is not enabled meets it, then the property holds in all states of a
    run exactly when all its steps meet the guard. -/
theorem along_iff_forall {I : σ → Prop} (hI : ∀ s a s', I s → M.step s a = some s' → I s')
    (hP : ∀ s a s', I s → M.step s a = some s' → (P s' ↔ P s ∧ G s a))
    (hG : ∀ s a, I s → M.step s a = none → G s a) {s : σ} (hIs : I s) (hPs : P s)
    (as : List α) : (∀ k t, M.run s (as.take k) = some t → P t) ↔ M.Along G s as := by
  -- By induction on the schedule. A step that is not enabled ends the run, and is allowed by `hG`.
  induction as generalizing s with
  | nil =>
    refine ⟨fun _ => trivial, fun _ k t hr => ?_⟩
    rw [List.take_nil] at hr
    obtain rfl := Option.some.inj hr
    exact hPs
  | cons a as ih =>
    cases hs : M.step s a with
    | none =>
      simp only [Along, hs, and_true]
      refine ⟨fun _ => hG s a hIs hs, fun _ k t hr => ?_⟩
      cases k with
      | zero =>
        obtain rfl := Option.some.inj hr
        exact hPs
      | succ k =>
        rw [List.take_succ_cons, run_cons, hs] at hr
        cases hr
    | some s₁ =>
      simp only [Along, hs]
      constructor
      -- The property after one step says that the step is allowed; the rest is the induction.
      · intro h
        have hstep := (hP s a s₁ hIs hs).1 (h 1 s₁ (by simp [hs]))
        refine ⟨hstep.2, (ih (hI s a s₁ hIs hs) ((hP s a s₁ hIs hs).2 hstep)).1 fun k t hr => ?_⟩
        exact h (k + 1) t (by rw [List.take_succ_cons, run_cons, hs]; exact hr)
      · rintro ⟨hGa, hrest⟩ k t hr
        cases k with
        | zero =>
          obtain rfl := Option.some.inj hr
          exact hPs
        | succ k =>
          rw [List.take_succ_cons, run_cons, hs] at hr
          exact (ih (hI s a s₁ hIs hs) ((hP s a s₁ hIs hs).2 ⟨hPs, hGa⟩)).2 hrest k t hr

/-- The exact guard of a property of steps: if guarded steps keep an invariant under which a step
    has the property exactly when it meets the guard, and a step that is not enabled meets it, then
    all steps of a run have the property exactly when they all meet the guard. -/
theorem along_iff_forall_step {I : σ → Prop} {Q : σ → α → σ → Prop}
    (hI : ∀ s a s', I s → G s a → M.step s a = some s' → I s')
    (hQ : ∀ s a s', I s → M.step s a = some s' → (Q s a s' ↔ G s a))
    (hG : ∀ s a, I s → M.step s a = none → G s a) {s : σ} (hIs : I s) (as : List α) :
    (∀ k t a t', M.run s (as.take k) = some t → as[k]? = some a → M.step t a = some t' →
      Q t a t') ↔ M.Along G s as := by
  induction as generalizing s with
  | nil => simp [Along]
  | cons a as ih =>
    cases hs : M.step s a with
    -- No step is taken from here on.
    | none =>
      simp only [Along, hs, and_true]
      refine ⟨fun _ => hG s a hIs hs, fun _ k t b t' hr hb ht => ?_⟩
      cases k with
      | zero =>
        obtain rfl := Option.some.inj hr
        obtain rfl := Option.some.inj hb
        rw [hs] at ht
        cases ht
      | succ k =>
        rw [List.take_succ_cons, run_cons, hs] at hr
        cases hr
    | some s₁ =>
      simp only [Along, hs]
      constructor
      -- The first step gives the condition for it, which keeps the invariant for the others.
      · intro h
        have hGa := (hQ s a s₁ hIs hs).1 (h 0 s a s₁ rfl rfl hs)
        refine ⟨hGa, (ih (hI s a s₁ hIs hGa hs)).1 fun k t b t' hr hb => ?_⟩
        exact h (k + 1) t b t' (by rw [List.take_succ_cons, run_cons, hs]; exact hr) hb
      · rintro ⟨hGa, hrest⟩ k t b t' hr hb ht
        cases k with
        | zero =>
          obtain rfl := Option.some.inj hr
          obtain rfl := Option.some.inj hb
          obtain rfl := Option.some.inj (hs.symm.trans ht)
          exact (hQ s a s₁ hIs hs).2 hGa
        | succ k =>
          rw [List.take_succ_cons, run_cons, hs] at hr
          exact (ih (hI s a s₁ hIs hGa hs)).2 hrest k t b t' hr hb ht

/-- A fact that steps set and clear holds after a run exactly if it held before and no step has
    cleared it, or if a step has set it that none of the later ones has cleared. -/
theorem run_fact_iff {I F : σ → Prop} {Sets Clears : σ → α → Prop}
    (hI : ∀ s a s', I s → M.step s a = some s' → I s')
    (hF : ∀ s a s', I s → M.step s a = some s' → (F s' ↔ F s ∧ ¬Clears s a ∨ Sets s a))
    {s s' : σ} {as : List α} (hIs : I s) (hr : M.run s as = some s') :
    F s' ↔ F s ∧ M.Along (fun t a => ¬Clears t a) s as ∨
      ∃ as₁ a as₂ t t', as = as₁ ++ a :: as₂ ∧ M.run s as₁ = some t ∧ M.step t a = some t' ∧
        Sets t a ∧ M.Along (fun t a => ¬Clears t a) t' as₂ := by
  -- By induction on the run: the first step sets the fact, or keeps it, or a later one sets it.
  induction as generalizing s with
  | nil =>
    obtain rfl := Option.some.inj hr
    simp [Along]
  | cons a as ih =>
    obtain ⟨s₁, hs, hr⟩ := Option.bind_eq_some_iff.mp hr
    rw [ih (hI s a s₁ hIs hs) hr, hF s a s₁ hIs hs]
    constructor
    -- What holds after the first step was there before it, or has just been set.
    · rintro (⟨⟨hFs, hkeep⟩ | hset, hrest⟩ | ⟨as₁, b, as₂, t, t', rfl, hrun, htail⟩)
      · refine .inl ⟨hFs, hkeep, ?_⟩
        rwa [hs]
      · exact .inr ⟨[], a, as, s, s₁, rfl, rfl, hs, hset, hrest⟩
      · refine .inr ⟨a :: as₁, b, as₂, t, t', rfl, ?_, htail⟩
        rwa [run_cons, hs]
    · rintro (⟨hFs, halong⟩ | ⟨as₁, b, as₂, t, t', heq, hrun, ht, hset, hrest⟩)
      · exact .inl ⟨.inl ⟨hFs, halong.1⟩, halong.tail hs⟩
      -- Where the split is at the front, the first step is the one that sets the fact.
      · cases as₁ with
        | nil =>
          obtain ⟨rfl, rfl⟩ := List.cons.inj heq
          obtain rfl := Option.some.inj hrun
          obtain rfl := Option.some.inj (hs.symm.trans ht)
          exact .inl ⟨.inr hset, hrest⟩
        | cons c as₁ =>
          obtain ⟨rfl, rfl⟩ := List.cons.inj heq
          rw [run_cons, hs] at hrun
          exact .inr ⟨as₁, b, as₂, t, t', rfl, hrun, ht, hset, hrest⟩

/-- The induction along guarded runs: a property that holds initially and is
    preserved by every guarded step holds of every state reached. -/
theorem ReachableBy.invariant {s : σ} (h : M.ReachableBy G s) (hinit : ∀ s, M.Init s → P s)
    (hstep : ∀ s a s', P s → G s a → M.step s a = some s' → P s') : P s := by
  induction h with
  | init h => exact hinit _ h
  | step _ hG hs ih => exact hstep _ _ _ ih hG hs

theorem Reachable.init {s : σ} (h : M.Init s) : M.Reachable s := ReachableBy.init h

theorem Reachable.step {s s' : σ} {a : α} (h : M.Reachable s) (hs : M.step s a = some s') :
    M.Reachable s' := ReachableBy.step h trivial hs

/-- The invariant rule for all runs. -/
theorem Reachable.invariant {s : σ} (h : M.Reachable s) (hinit : ∀ s, M.Init s → P s)
    (hstep : ∀ s a s', P s → M.step s a = some s' → P s') : P s :=
  ReachableBy.invariant h hinit fun s a s' hP _ => hstep s a s' hP

theorem Reachable.run {s s' : σ} {as : List α} (h : M.Reachable s) (hr : M.run s as = some s') :
    M.Reachable s' := by
  induction as generalizing s with
  | nil => simp only [run_nil, Option.some.injEq] at hr; exact hr ▸ h
  | cons a as ih =>
    obtain ⟨s₁, hs, hr⟩ := Option.bind_eq_some_iff.mp hr
    exact ih (h.step hs) hr

/-- A run whose steps all meet the guard leads from guarded-reachable states to such states. -/
theorem ReachableBy.run {s s' : σ} {as : List α} (h : M.ReachableBy G s)
    (hG : M.Along G s as) (hr : M.run s as = some s') : M.ReachableBy G s' := by
  induction as generalizing s with
  | nil => simp only [run_nil, Option.some.injEq] at hr; exact hr ▸ h
  | cons a as ih =>
    obtain ⟨s₁, hs, hr⟩ := Option.bind_eq_some_iff.mp hr
    have hG' := hG.2
    rw [hs] at hG'
    exact ih (h.step hG.1 hs) hG' hr

/-! ## Simulation -/

variable (M) in
/-- A run whose steps all meet the guard leads from one state to the other. -/
def Leads (G : σ → α → Prop) : σ → σ → Prop :=
  Relation.ReflTransGen fun s s' => ∃ a, G s a ∧ M.step s a = some s'

theorem Leads.refl (s : σ) : M.Leads G s s := Relation.ReflTransGen.refl

theorem Leads.trans {s t u : σ} (h : M.Leads G s t) (h' : M.Leads G t u) : M.Leads G s u :=
  Relation.ReflTransGen.trans h h'

theorem Leads.single {s s' : σ} {a : α} (hG : G s a) (hs : M.step s a = some s') :
    M.Leads G s s' := Relation.ReflTransGen.single ⟨a, hG, hs⟩

/-- A run, step by step. -/
theorem Leads.of_run {s s' : σ} {as : List α} (hr : M.run s as = some s') :
    M.Leads (fun _ _ => True) s s' := by
  induction as generalizing s with
  | nil => exact Option.some.inj hr ▸ .refl s
  | cons a as ih =>
    obtain ⟨s₁, hs, hr⟩ := Option.bind_eq_some_iff.mp hr
    exact (Leads.single trivial hs).trans (ih hr)

theorem ReachableBy.leads {s s' : σ} (h : M.ReachableBy G s) (hs : M.Leads G s s') :
    M.ReachableBy G s' := by
  induction hs with
  | refl => exact h
  | tail _ hlast ih =>
    obtain ⟨a, hG, hs⟩ := hlast
    exact ih.step hG hs

/-- The rule for simulations: if every initial state has a related one, and whatever step is taken
    from related states, a run of the other machine leads to a state that is related again, then
    every state reached is related to one that the other machine reaches. -/
theorem ReachableBy.simulation {τ β : Type*} {N : Machine τ β} {H : τ → β → Prop}
    {R : σ → τ → Prop} {s : σ} (h : M.ReachableBy G s)
    (hinit : ∀ s, M.Init s → ∃ t, N.Init t ∧ R s t)
    (hstep : ∀ s a s' t, R s t → G s a → M.step s a = some s' → ∃ t', N.Leads H t t' ∧ R s' t') :
    ∃ t, N.ReachableBy H t ∧ R s t := by
  induction h with
  | init h =>
    obtain ⟨t, ht, hR⟩ := hinit _ h
    exact ⟨t, .init ht, hR⟩
  | step _ hG hs ih =>
    obtain ⟨t, ht, hR⟩ := ih
    obtain ⟨t', hleads, hR'⟩ := hstep _ _ _ t hR hG hs
    exact ⟨t', ht.leads hleads, hR'⟩

end Machine
