import Mathlib.Data.List.Basic

/-!
# Linked lists in a store

A singly linked list is a head and a store of successors. `Linked next head l`
says that following `next` from `head` visits exactly the elements of `l`, in
order, and then ends. The list depends only on the successors of its own
elements (`Linked.congr`).
-/

variable {α : Type*}

/-- Following `next` from a head visits the elements of a list, and ends. -/
def Linked (next : α → Option α) : Option α → List α → Prop
  | none, [] => True
  | some a, b :: l => a = b ∧ Linked next (next a) l
  | _, _ => False

namespace Linked

variable {next next' : α → Option α} {l : List α}

@[simp] theorem none_iff : Linked next none l ↔ l = [] := by
  cases l <;> simp [Linked]

/-- A head is the first member, and its successor leads to the rest. -/
@[simp] theorem some_iff {a : α} :
    Linked next (some a) l ↔ ∃ l', l = a :: l' ∧ Linked next (next a) l' := by
  cases l with
  | nil => simp [Linked]
  | cons b l => grind [Linked]

/-- The list is reached through the successors of its own members only. -/
theorem congr {head : Option α} (h : Linked next head l) (hn : ∀ a ∈ l, next' a = next a) :
    Linked next' head l := by
  induction l generalizing head with
  | nil =>
    cases head with
    | none => trivial
    | some a => cases h
  | cons b l ih =>
    cases head with
    | none => cases h
    | some a =>
      obtain ⟨rfl, h⟩ := h
      refine ⟨rfl, ?_⟩
      rw [hn a List.mem_cons_self]
      exact ih h fun x hx => hn x (List.mem_cons_of_mem _ hx)

/-- A head and its successors reach one list. -/
theorem unique {head : Option α} (h : Linked next head l) {l' : List α}
    (h' : Linked next head l') : l = l' := by
  induction l generalizing head l' with
  | nil =>
    cases head with
    | none => exact (none_iff.mp h').symm
    | some a => cases h
  | cons b l ih =>
    cases head with
    | none => cases h
    | some a =>
      obtain ⟨rfl, h⟩ := h
      obtain ⟨l'', rfl, h''⟩ := some_iff.mp h'
      rw [ih h h'']

end Linked
