import Mathlib.Data.List.Basic
import Mathlib.Data.Nat.Notation

/-!
# Arrays in memory

Arrays that are allocated and never move are named by the order of their allocation, and an
access outside an array has no result. So a program that runs without such an access is one whose
reads and writes all have results.

* `read_write`: what a write changes;
* `copy_eq`: a copy holds what its source holds, and `read_alloc_of_some` that the source stays.
-/

/-- The arrays allocated so far. -/
abbrev ArrayHeap (α : Type*) := List (List α)

namespace ArrayHeap

variable {α : Type*} {h h' : ArrayHeap α} {a b i j n : ℕ} {v w : α}

/-- The element at an index of an array. -/
def read (h : ArrayHeap α) (a i : ℕ) : Option α := h[a]?.bind fun array => array[i]?

/-- An element is overwritten. -/
def write (h : ArrayHeap α) (a i : ℕ) (v : α) : Option (ArrayHeap α) :=
  if (read h a i).isSome then some (h.modify a fun array => array.set i v) else none

/-- A new array, whose name is the number of the arrays before it. -/
def alloc (h : ArrayHeap α) (array : List α) : ArrayHeap α := h ++ [array]

/-- The first `n` elements of an array. -/
def copy (h : ArrayHeap α) (a : ℕ) : ℕ → Option (List α)
  | 0 => some []
  | n + 1 => (copy h a n).bind fun array => (read h a n).map fun v => array ++ [v]

theorem exists_write (hr : read h a i = some w) (v : α) : ∃ h', write h a i v = some h' := by
  refine ⟨_, if_pos ?_⟩
  rw [hr]
  rfl

theorem read_write (hw : write h a i v = some h') (b j : ℕ) :
    read h' b j = if b = a ∧ j = i then some v else read h b j := by
  obtain ⟨hsome, ⟨⟩⟩ := Option.ite_none_right_eq_some.mp hw
  obtain ⟨w, hr⟩ := Option.isSome_iff_exists.mp hsome
  obtain ⟨array, harray, hi⟩ := Option.bind_eq_some_iff.mp hr
  obtain ⟨hlt, -⟩ := List.getElem?_eq_some_iff.mp hi
  rw [read, read, List.getElem?_modify]
  by_cases hb : b = a
  · subst hb
    by_cases hj : j = i
    · subst hj
      simp [harray, hlt]
    · simp [harray, hj, List.getElem?_set_ne (Ne.symm hj)]
  · simp [hb, Ne.symm hb]

/-- The arrays before a new one keep their elements. -/
theorem read_alloc_of_some {array : List α} (hr : read h a i = some v) :
    read (alloc h array) a i = some v := by
  obtain ⟨old, hold, hi⟩ := Option.bind_eq_some_iff.mp hr
  obtain ⟨hlt, -⟩ := List.getElem?_eq_some_iff.mp hold
  rw [read, alloc, List.getElem?_append_left hlt, hold]
  exact hi

@[simp] theorem read_alloc_length {array : List α} :
    read (alloc h array) h.length i = array[i]? := by
  simp [read, alloc]

theorem lt_length_of_read (hr : read h a i = some v) : a < h.length := by
  obtain ⟨_, hold, -⟩ := Option.bind_eq_some_iff.mp hr
  exact (List.getElem?_eq_some_iff.mp hold).1

/-- A copy of elements that are all there is the list of them. -/
theorem copy_eq {f : ℕ → α} (hread : ∀ i < n, read h a i = some (f i)) :
    copy h a n = some ((List.range n).map f) := by
  induction n with
  | zero => rfl
  | succ n ih =>
    rw [copy, ih fun i hi => hread i (Nat.lt_succ_of_lt hi), hread n n.lt_succ_self,
      List.range_succ, List.map_append]
    rfl

end ArrayHeap
