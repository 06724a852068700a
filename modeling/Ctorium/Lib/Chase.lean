import Mathlib.Data.Finset.Card
import Mathlib.Logic.Relation
import Mathlib.Order.WellFoundedSet

/-!
# Acyclic relations and bounded chases

A relation is *acyclic* if no element reaches itself in one or more steps. Three
ways to change an acyclic relation keep it acyclic: dropping edges
(`Acyclic.mono`), adding one edge that closes no path (`Acyclic.insert`), and
adding edges into an element that has no outgoing one (`Acyclic.sink`).

The edges of a partial function `next` can be *chased*: `chase next b n a`
follows them from `a` for at most `n` elements and reports whether `b` is among
them. A report is always right (`reflTransGen_of_chase`); a chase from `a` that
stops early misses nothing if the elements reachable from `a` lie in a finite
set of at most `n` elements and `next` has no cycle (`chase_of_reflTransGen`).
-/

open Relation

variable {α : Type*}

/-- No element reaches itself in one or more steps. -/
def Acyclic (R : α → α → Prop) : Prop := ∀ a, ¬ TransGen R a a

namespace Acyclic

variable {R R' : α → α → Prop}

theorem mono (h : Acyclic R) (hR : ∀ a b, R' a b → R a b) : Acyclic R' :=
  fun a ha => h a (TransGen.mono hR _ _ ha)

/-- Adding an edge from `t` to `u` closes no cycle if `u` does not reach `t`. -/
theorem insert {t u : α} (h : Acyclic R) (hR : ∀ a b, R' a b → R a b ∨ a = t ∧ b = u)
    (hu : ¬ ReflTransGen R u t) : Acyclic R' := by
  -- A path of the new relation either avoids the new edge, or reaches `t` before its first use
  -- and continues from `u` after its last one.
  have split : ∀ a b, TransGen R' a b →
      TransGen R a b ∨ ReflTransGen R a t ∧ ReflTransGen R u b := by
    intro a b hab
    induction hab with
    | single hab =>
      rcases hR _ _ hab with hab | ⟨rfl, rfl⟩
      · exact .inl (.single hab)
      · exact .inr ⟨.refl, .refl⟩
    | tail _ hbc ih =>
      rcases hR _ _ hbc with hbc | ⟨rfl, rfl⟩
      · rcases ih with ih | ⟨hat, hub⟩
        · exact .inl (ih.tail hbc)
        · exact .inr ⟨hat, hub.tail hbc⟩
      · rcases ih with ih | ⟨hat, _⟩
        · exact .inr ⟨ih.to_reflTransGen, .refl⟩
        · exact .inr ⟨hat, .refl⟩
  intro a ha
  rcases split a a ha with ha | ⟨hat, hua⟩
  · exact h a ha
  · exact hu (hua.trans hat)

/-- Edges into an element without outgoing edges close no cycle. -/
theorem sink {t : α} (h : Acyclic R) (hR : ∀ a b, R' a b → R a b ∨ b = t)
    (ht : ∀ b, ¬ R' t b) : Acyclic R' := by
  have split : ∀ a b, TransGen R' a b → TransGen R a b ∨ b = t := by
    intro a b hab
    induction hab with
    | single hab => exact (hR _ _ hab).imp_left .single
    | tail _ hbc ih =>
      rcases ih with ih | rfl
      · exact (hR _ _ hbc).imp_left ih.tail
      · exact absurd hbc (ht _)
  intro a ha
  rcases split a a ha with haa | rfl
  · exact h a haa
  · obtain ⟨b, hab, _⟩ := TransGen.head'_iff.mp ha
    exact ht b hab

/-- A finite nonempty set has an element with no edge inside the set. -/
theorem exists_no_edge (h : Acyclic R) (S : Finset α) (hS : S.Nonempty) :
    ∃ a ∈ S, ∀ b ∈ S, ¬ R a b := by
  have : IsStrictOrder α (flip (TransGen R)) :=
    { irrefl := h, trans := fun _ _ _ hab hbc => TransGen.trans hbc hab }
  obtain ⟨⟨a, ha⟩, _, hmin⟩ :=
    (S.wellFoundedOn (r := flip (TransGen R))).has_min Set.univ
      ⟨⟨hS.choose, hS.choose_spec⟩, trivial⟩
  exact ⟨a, ha, fun b hb hab => hmin ⟨b, hb⟩ trivial (.single hab)⟩

end Acyclic

section Chase

/-- The edge that a partial function has from `a`. -/
def Follows (next : α → Option α) (a b : α) : Prop := next a = some b

/-- Follow `next` from `a` for at most `n` elements and report whether `b` is among them. -/
def chase [DecidableEq α] (next : α → Option α) (b : α) : ℕ → α → Bool
  | 0, _ => false
  | n + 1, a =>
    if a = b then true
    else match next a with
      | none => false
      | some a' => chase next b n a'

variable [DecidableEq α] {next : α → Option α} {a b : α} {n : ℕ}

theorem reflTransGen_of_chase (h : chase next b n a = true) :
    ReflTransGen (Follows next) a b := by
  induction n generalizing a with
  | zero => simp [chase] at h
  | succ n ih =>
    rw [chase] at h
    split at h
    · next hab => rw [hab]
    · split at h
      · simp at h
      · next a' ha => exact (ih h).head ha

/-- A chase of an acyclic partial function is exact once its bound covers the
    elements reachable from its start. -/
theorem chase_of_reflTransGen (hacyc : Acyclic (Follows next)) (S : Finset α)
    (hS : ∀ x, ReflTransGen (Follows next) a x → x ∈ S) (hn : S.card ≤ n)
    (hab : ReflTransGen (Follows next) a b) : chase next b n a = true := by
  induction n generalizing a S with
  | zero =>
    have ha := hS a .refl
    simp [Finset.card_eq_zero.mp (Nat.le_zero.mp hn)] at ha
  | succ n ih =>
    rw [chase]
    split
    · rfl
    · next hne =>
      obtain rfl | ⟨a', ha, hab'⟩ := hab.cases_head
      · exact absurd rfl hne
      · rw [show next a = some a' from ha]
        -- No path from the successor returns to `a`, so it stays in the set without `a`.
        refine ih (S.erase a) (fun x hx => Finset.mem_erase.mpr ⟨?_, hS x (hx.head ha)⟩) ?_ hab'
        · rintro rfl
          exact hacyc _ (TransGen.head'_iff.mpr ⟨a', ha, hx⟩)
        · rw [Finset.card_erase_of_mem (hS a .refl)]
          omega

end Chase
