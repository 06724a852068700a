import Mathlib.Data.List.FinRange
import Mathlib.Data.List.Sort
import Mathlib.Order.Defs.LinearOrder

/-!
# Sorting without a promise about ties

`std::sort` permutes a range such that no element is less than an earlier one. It sees
the elements through the comparator only, and it leaves the order of equivalent elements to
the implementation. So the implementation is a parameter: it tells the order of the positions
from the comparisons, and a result about `StdSort.sort` holds for every order of ties.

* `sort_perm`: the elements are the same;
* `sort_desc_pairwise`: their keys descend;
* `sort_congr`: only the comparisons matter;
* `StdSort.insertion`: an implementation.
-/

/-- A comparator with which a range can be sorted: a strict weak ordering. -/
structure StrictWeak {α : Type*} (less : α → α → Bool) : Prop where
  asymm : ∀ a b, less a b = true → less b a = false
  trans : ∀ a b c, less b a = false → less c b = false → less c a = false

/-- An implementation of `std::sort`: the order in which the positions of a range are visited,
    given how their elements compare. -/
structure StdSort where
  order {n : ℕ} (less : Fin n → Fin n → Bool) : List (Fin n)
  order_perm {n : ℕ} (less : Fin n → Fin n → Bool) : (order less).Perm (List.finRange n)
  order_pairwise {n : ℕ} {less : Fin n → Fin n → Bool} (h : StrictWeak less) :
    (order less).Pairwise fun i j => less j i = false

namespace StdSort

variable {α κ : Type*} [LinearOrder κ]

/-- The range after the sort. -/
def sort (S : StdSort) (less : α → α → Bool) (l : List α) : List α :=
  (S.order fun i j => less (l.get i) (l.get j)).map l.get

/-- Insertion sort, to which implementations turn for short ranges. It keeps the order of ties. -/
def insertion : StdSort where
  order {n} less := (List.finRange n).insertionSort fun i j => less j i = false
  order_perm _ := List.perm_insertionSort _ _
  order_pairwise {_ less} h := by
    have : Std.Total fun i j => less j i = false := ⟨fun i j => by
      cases hij : less i j with
      | false => exact .inr rfl
      | true => exact .inl (h.asymm i j hij)⟩
    have : IsTrans _ fun i j => less j i = false := ⟨h.trans⟩
    exact List.pairwise_insertionSort _ _

variable (S : StdSort) {less less' : α → α → Bool} {l : List α} {a : α}

theorem sort_perm (less : α → α → Bool) (l : List α) : (S.sort less l).Perm l := by
  have hperm := (S.order_perm fun i j => less (l.get i) (l.get j)).map l.get
  rwa [List.map_get_finRange] at hperm

theorem sort_pairwise (h : StrictWeak less) (l : List α) :
    (S.sort less l).Pairwise fun a b => less b a = false :=
  List.pairwise_map.mpr (S.order_pairwise ⟨fun _ _ => h.asymm _ _, fun _ _ _ => h.trans _ _ _⟩)

/-- The elements are in the descending order of their keys. -/
theorem sort_desc_pairwise (key : α → κ) (l : List α) :
    (S.sort (fun a b => decide (key b < key a)) l).Pairwise fun a b => key b ≤ key a := by
  have hweak : StrictWeak fun a b => decide (key b < key a) := by
    refine ⟨fun a b h => decide_eq_false (of_decide_eq_true h).not_gt, fun a b c hab hbc => ?_⟩
    rw [decide_eq_false_iff_not, not_lt] at hab hbc ⊢
    exact hbc.trans hab
  exact (S.sort_pairwise hweak l).imp fun h => not_lt.mp (of_decide_eq_false h)

theorem sort_congr (h : ∀ a ∈ l, ∀ b ∈ l, less a b = less' a b) :
    S.sort less l = S.sort less' l := by
  have hless : (fun i j => less (l.get i) (l.get j)) = fun i j => less' (l.get i) (l.get j) := by
    funext i j
    exact h _ (l.get_mem i) _ (l.get_mem j)
  rw [sort, hless, sort]

@[simp] theorem mem_sort : a ∈ S.sort less l ↔ a ∈ l := (S.sort_perm less l).mem_iff

@[simp] theorem sort_nodup : (S.sort less l).Nodup ↔ l.Nodup := (S.sort_perm less l).nodup_iff

@[simp] theorem sort_nil : S.sort less ([] : List α) = [] := (S.sort_perm less []).eq_nil

@[simp] theorem sort_singleton : S.sort less [a] = [a] := (S.sort_perm less [a]).eq_singleton

end StdSort
