import Mathlib.Data.List.Infix
import Ctorium.Lib.Attempt

/-!
# Two attempts in lockstep

Two attempts start in one state and write a trace of what they have been told. The
second one is the reference. `Lockstep` says that they are equal as long as all that
is written is the same for both, and that their traces part for good at the first
entry that is not. `Lockstep.eq_iff` turns this into an exact condition for the
equality of the two, over the entries that the reference has written; the other rules
follow the sequence, the loop and the clean-up of attempts.
-/

namespace Attempt

variable {ε σ α ρ : Type*}

/-- Neither of two traces continues the other one. -/
def Parted (l l' : List ρ) : Prop := ¬ l <+: l' ∧ ¬ l' <+: l

theorem Parted.mono {l l' m m' : List ρ} (h : Parted l l') (hl : l <+: m) (hl' : l' <+: m') :
    Parted m m' := by
  constructor
  · intro hm
    rcases List.prefix_or_prefix_of_prefix (hl.trans hm) hl' with hp | hp
    · exact h.1 hp
    · exact h.2 hp
  · intro hm
    rcases List.prefix_or_prefix_of_prefix hl (hl'.trans hm) with hp | hp
    · exact h.1 hp
    · exact h.2 hp

theorem Parted.ne {l l' : List ρ} (h : Parted l l') : l ≠ l' := by
  rintro rfl
  exact h.1 (List.prefix_refl l)

/-- Two traces part where they go on with different entries. -/
theorem parted_append_cons {q q' : ρ} (l : List ρ) (hq : q ≠ q') :
    Parted (l ++ [q]) (l ++ [q']) := by
  constructor
  · intro h
    rw [List.prefix_append_right_inj] at h
    exact hq (by simpa using h)
  · intro h
    rw [List.prefix_append_right_inj] at h
    have hq' : q' = q := by simpa using h
    exact hq hq'.symm

variable (trace : σ → List ρ) (Same : ρ → Prop)

/-- What is written from a state to a later one. -/
def written (s t : σ) : List ρ := (trace t).drop (trace s).length

/-- The attempt `a` follows the attempt `a'`, both from the state `s`. -/
structure Lockstep (s : σ) (a a' : Attempt ε σ) : Prop where
  left : trace s <+: trace a.state
  right : trace s <+: trace a'.state
  agree_or_part : (a = a' ∧ ∀ q ∈ written trace s a'.state, Same q) ∨
    (Parted (trace a.state) (trace a'.state) ∧ ∃ q ∈ written trace s a'.state, ¬ Same q)

variable {trace Same} {s t u : σ} {a a' : Attempt ε σ}

theorem written_trans (hst : trace s <+: trace t) (htu : trace t <+: trace u) :
    written trace s u = written trace s t ++ written trace t u := by
  obtain ⟨l, hl⟩ := hst
  obtain ⟨m, hm⟩ := htu
  simp [written, ← hl, ← hm]

theorem mem_written_trans {q : ρ} (hst : trace s <+: trace t) (htu : trace t <+: trace u) :
    q ∈ written trace s u ↔ q ∈ written trace s t ∨ q ∈ written trace t u := by
  rw [written_trans hst htu, List.mem_append]

theorem written_eq_nil (h : trace t = trace s) : written trace s t = [] := by
  simp [written, h]

namespace Lockstep

/-- The two attempts are equal exactly if all that the reference has written is the same. -/
theorem eq_iff (h : Lockstep trace Same s a a') :
    a = a' ↔ ∀ q ∈ written trace s a'.state, Same q := by
  rcases h.agree_or_part with ⟨heq, hall⟩ | ⟨hpart, q, hq, hne⟩
  · exact iff_of_true heq hall
  · refine iff_of_false ?_ fun hall => hne (hall q hq)
    rintro rfl
    exact hpart.ne rfl

/-- An attempt that writes nothing follows itself. -/
theorem of_trace_eq (h : trace a.state = trace s) : Lockstep trace Same s a a where
  left := h ▸ List.prefix_refl _
  right := h ▸ List.prefix_refl _
  agree_or_part := by
    refine .inl ⟨rfl, fun q hq => ?_⟩
    rw [written_eq_nil h] at hq
    exact absurd hq List.not_mem_nil

/-- A first step that writes nothing. -/
theorem congr_start (ht : trace t = trace s) (h : Lockstep trace Same t a a') :
    Lockstep trace Same s a a' where
  left := ht ▸ h.left
  right := ht ▸ h.right
  agree_or_part := by
    have hw : written trace s a'.state = written trace t a'.state := by rw [written, written, ht]
    rw [hw]
    exact h.agree_or_part

/-- A clean-up that writes nothing. -/
theorem cleanup {f : σ → σ} (h : Lockstep trace Same s a a') (hf : ∀ t, trace (f t) = trace t) :
    Lockstep trace Same s (a.cleanup f) (a'.cleanup f) where
  left := by simpa [hf] using h.left
  right := by simpa [hf] using h.right
  agree_or_part := by
    have hw : written trace s (a'.cleanup f).state = written trace s a'.state := by
      rw [written, written, cleanup_state, hf]
    rw [hw, cleanup_state, cleanup_state, hf, hf]
    exact h.agree_or_part.imp_left fun ⟨heq, hall⟩ => ⟨heq ▸ rfl, hall⟩

/-- The trace of a sequence continues the trace of its first part. -/
theorem prefix_andThen {f : σ → Attempt ε σ} (a : Attempt ε σ)
    (hf : ∀ t, trace t <+: trace (f t).state) : trace a.state <+: trace (a.andThen f).state := by
  cases h : a.failure with
  | none =>
    rw [andThen_of_ok h]
    exact hf a.state
  | some e =>
    rw [andThen_of_fail h]

/-- Sequences. -/
theorem andThen {f f' : σ → Attempt ε σ} (h : Lockstep trace Same s a a')
    (hf : ∀ t, Lockstep trace Same t (f t) (f' t)) :
    Lockstep trace Same s (a.andThen f) (a'.andThen f') := by
  have hleft := prefix_andThen a fun t => (hf t).left
  have hright := prefix_andThen a' fun t => (hf t).right
  refine ⟨h.left.trans hleft, h.right.trans hright, ?_⟩
  rcases h.agree_or_part with ⟨rfl, hall⟩ | ⟨hpart, q, hq, hne⟩
  · cases hfail : a.failure with
    | some e =>
      rw [andThen_of_fail hfail, andThen_of_fail hfail]
      exact .inl ⟨rfl, hall⟩
    | none =>
      have hnext := hf a.state
      rw [andThen_of_ok hfail, andThen_of_ok hfail]
      refine hnext.agree_or_part.imp (fun ⟨heq, hall'⟩ => ⟨heq, fun q hq => ?_⟩)
        fun ⟨hpart, q, hq, hne⟩ => ⟨hpart, q, ?_, hne⟩
      · exact ((mem_written_trans h.right hnext.right).mp hq).elim (hall q) (hall' q)
      · exact (mem_written_trans h.right hnext.right).mpr (.inr hq)
  · -- Once the traces have parted, whatever follows cannot bring them together.
    exact .inr ⟨hpart.mono hleft hright, q,
      (mem_written_trans h.right hright).mpr (.inl hq), hne⟩

/-- Loops. -/
theorem forEach {f f' : σ → α → Attempt ε σ}
    (hf : ∀ t x, Lockstep trace Same t (f t x) (f' t x)) (xs : List α) (s : σ) :
    Lockstep trace Same s (Attempt.forEach f xs s) (Attempt.forEach f' xs s) := by
  induction xs generalizing s with
  | nil => exact of_trace_eq rfl
  | cons x xs ih => exact (hf s x).andThen ih

/-- An entry is written first, and what follows is in lockstep if the entry is the same. -/
theorem entry {q q' : ρ} {u : σ} (ht : trace t = trace s ++ [q]) (hu : trace u = trace s ++ [q'])
    (hsame : Same q' ↔ q = q') (hleft : trace t <+: trace a.state)
    (hright : trace u <+: trace a'.state) (hnext : q = q' → Lockstep trace Same u a a') :
    Lockstep trace Same s a a' := by
  have hst : trace s <+: trace t := ⟨[q], ht.symm⟩
  have hsu : trace s <+: trace u := ⟨[q'], hu.symm⟩
  have hmem : ∀ p, p ∈ written trace s u ↔ p = q' := by simp [written, hu]
  refine ⟨hst.trans hleft, hsu.trans hright, ?_⟩
  by_cases hq : q = q'
  · refine (hnext hq).agree_or_part.imp (fun ⟨heq, hall⟩ => ⟨heq, fun p hp => ?_⟩)
      fun ⟨hpart, p, hp, hne⟩ => ⟨hpart, p, ?_, hne⟩
    · rcases (mem_written_trans hsu hright).mp hp with hp | hp
      · rw [(hmem p).mp hp]
        exact hsame.mpr hq
      · exact hall p hp
    · exact (mem_written_trans hsu hright).mpr (.inr hp)
  · have hpart : Parted (trace t) (trace u) := by
      rw [ht, hu]
      exact parted_append_cons _ hq
    exact .inr ⟨hpart.mono hleft hright, q',
      (mem_written_trans hsu hright).mpr (.inl ((hmem q').mpr rfl)), fun h => hq (hsame.mp h)⟩

end Lockstep

end Attempt
