import Mathlib.Data.List.Basic

/-!
# Atomic objects

An atomic object with its modification order. A read-modify-write reads the latest
value; a relaxed load may read an older one, so what is proved of every load is
proved of all values of the modification order, and `Atomic.All` says so.
-/

/-- An atomic object: its latest value, and the values before it, the latest first. -/
structure Atomic (α : Type*) where
  value : α
  earlier : List α := []
  deriving DecidableEq, Repr

namespace Atomic

variable {α : Type*} {a : Atomic α} {v w : α} {P : α → Prop}

/-- The modification order, the latest value first. -/
def values (a : Atomic α) : List α := a.value :: a.earlier

/-- A load of the value that was stored `back` modifications ago. -/
def load (a : Atomic α) (back : ℕ) : α := a.values.getD back a.value

/-- A store becomes the newest value, the earlier ones stay behind it. -/
def store (a : Atomic α) (v : α) : Atomic α := ⟨v, a.values⟩

/-- All values of the modification order have a property. -/
def All (a : Atomic α) (P : α → Prop) : Prop := ∀ v ∈ a.values, P v

@[simp] theorem load_zero : a.load 0 = a.value := rfl

@[simp] theorem store_value : (a.store v).value = v := rfl

@[simp] theorem mem_store : w ∈ (a.store v).values ↔ w = v ∨ w ∈ a.values := List.mem_cons

theorem value_mem (a : Atomic α) : a.value ∈ a.values := List.mem_cons_self

/-- A load returns a value of the modification order, however far behind it is. -/
theorem load_mem (a : Atomic α) (back : ℕ) : a.load back ∈ a.values := by
  rw [load, List.getD_eq_getElem?_getD]
  cases hv : a.values[back]? with
  | none => exact a.value_mem
  | some v => exact List.mem_of_getElem? hv

theorem All.value (h : a.All P) : P a.value := h _ a.value_mem

/-- What holds of every stored value holds of what a load returns. -/
theorem All.load (h : a.All P) (back : ℕ) : P (a.load back) := h _ (a.load_mem back)

/-- A store keeps what holds of all values if it holds of the new one. -/
@[simp] theorem all_store : (a.store v).All P ↔ P v ∧ a.All P := List.forall_mem_cons

@[simp] theorem all_new : (⟨v, []⟩ : Atomic α).All P ↔ P v := List.forall_mem_singleton

theorem All.mono {Q : α → Prop} (h : a.All P) (hPQ : ∀ v, P v → Q v) : a.All Q :=
  fun v hv => hPQ v (h v hv)

end Atomic
