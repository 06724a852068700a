import Mathlib.Data.List.Nodup

/-!
# Association lists in insertion order

A map as the list of its pairs, in the order in which the keys came. A store for a key that is
there replaces its value in place (`store`), and a removal drops the pair. `lookup_store` and
`lookup_filter` say what a lookup finds afterwards, and `filterMap_lookup` that the keys and the
lookups determine the list.
-/

namespace Assoc

variable {κ β : Type*} [BEq κ] [LawfulBEq κ] [DecidableEq κ] {l : List (κ × β)} {k j : κ} {v : β}

/-- The value of a key is replaced, or the pair is appended. -/
def store (l : List (κ × β)) (k : κ) (v : β) : List (κ × β) :=
  if (l.lookup k).isSome then l.map fun e => if e.1 = k then (k, v) else e else l ++ [(k, v)]

omit [BEq κ] [LawfulBEq κ] in
theorem keys_map_replace :
    (l.map fun e => if e.1 = k then (k, v) else e).map Prod.fst = l.map Prod.fst := by
  rw [List.map_map]
  refine List.map_congr_left fun e _ => ?_
  by_cases he : e.1 = k <;> simp [he]

omit [LawfulBEq κ] in
/-- The key of a store is appended if it was not there. -/
theorem keys_store (l : List (κ × β)) (k : κ) (v : β) :
    (store l k v).map Prod.fst =
      if (l.lookup k).isSome then l.map Prod.fst else l.map Prod.fst ++ [k] := by
  rw [store]
  split_ifs with h
  · exact keys_map_replace
  · simp

omit [DecidableEq κ] in
theorem lookup_eq_none_iff_notMem : l.lookup k = none ↔ k ∉ l.map Prod.fst := by
  rw [List.lookup_eq_none_iff]
  constructor
  · intro h hk
    obtain ⟨e, he, rfl⟩ := List.mem_map.mp hk
    simpa using h e he
  · intro h e he
    exact bne_iff_ne.mpr fun hke => h (hke ▸ List.mem_map_of_mem he)

theorem nodup_store (h : (l.map Prod.fst).Nodup) (k : κ) (v : β) :
    ((store l k v).map Prod.fst).Nodup := by
  rw [keys_store]
  split_ifs with hk
  · exact h
  · have hnot : k ∉ l.map Prod.fst :=
      lookup_eq_none_iff_notMem.mp (Option.not_isSome_iff_eq_none.mp hk)
    exact List.nodup_append.mpr ⟨h, List.nodup_singleton k, fun e he e' he' heq =>
      hnot (by rwa [heq, List.mem_singleton.mp he'] at he)⟩

theorem lookup_map_replace_self (hk : (l.lookup k).isSome) :
    (l.map fun e => if e.1 = k then (k, v) else e).lookup k = some v := by
  induction l with
  | nil => cases hk
  | cons e l ih =>
    by_cases he : e.1 = k
    · simp [he]
    · have hne : (k == e.1) = false := beq_eq_false_iff_ne.mpr (Ne.symm he)
      rw [List.lookup_cons, hne] at hk
      rw [List.map_cons, if_neg he, List.lookup_cons, hne]
      exact ih hk

theorem lookup_map_replace_of_ne (hj : j ≠ k) :
    (l.map fun e => if e.1 = k then (k, v) else e).lookup j = l.lookup j := by
  induction l with
  | nil => rfl
  | cons e l ih =>
    by_cases he : e.1 = k
    · have hne : (j == k) = false := beq_eq_false_iff_ne.mpr hj
      rw [List.map_cons, if_pos he, List.lookup_cons, List.lookup_cons, ih, he, hne]
    · rw [List.map_cons, if_neg he, List.lookup_cons, List.lookup_cons, ih]

/-- A lookup after a store. -/
theorem lookup_store (l : List (κ × β)) (k j : κ) (v : β) :
    (store l k v).lookup j = if j = k then some v else l.lookup j := by
  rw [store]
  split_ifs with hk hj hj
  · rw [hj]
    exact lookup_map_replace_self hk
  · exact lookup_map_replace_of_ne hj
  · have hnone : l.lookup k = none := Option.not_isSome_iff_eq_none.mp hk
    rw [hj, List.lookup_append, hnone]
    simp
  · have hne : (j == k) = false := beq_eq_false_iff_ne.mpr hj
    rw [List.lookup_append, List.lookup_cons, hne, List.lookup_nil, Option.or_none]

/-- A lookup after the removal of a key. -/
theorem lookup_filter (l : List (κ × β)) (k j : κ) :
    (l.filter fun e => e.1 ≠ k).lookup j = if j = k then none else l.lookup j := by
  induction l with
  | nil => simp
  | cons e l ih =>
    by_cases he : e.1 = k
    · rw [List.filter_cons_of_neg (by simpa using he), ih]
      split_ifs with hj
      · rfl
      · rw [List.lookup_cons, he, beq_eq_false_iff_ne.mpr hj]
    · rw [List.filter_cons_of_pos (by simpa using he), List.lookup_cons, List.lookup_cons, ih]
      split_ifs with hj
      · rw [hj, beq_eq_false_iff_ne.mpr (Ne.symm he)]
      · rfl

omit [DecidableEq κ] in
/-- Where the keys are distinct, the pairs are what the lookups find. -/
theorem mem_iff_lookup (h : (l.map Prod.fst).Nodup) : (k, v) ∈ l ↔ l.lookup k = some v := by
  induction l with
  | nil => simp
  | cons e l ih =>
    obtain ⟨hnot, hl⟩ := List.nodup_cons.mp h
    rw [List.lookup_cons, List.mem_cons]
    by_cases hk : k = e.1
    · subst hk
      have hnone : (e.1, v) ∉ l := fun hmem => hnot (List.mem_map.mpr ⟨_, hmem, rfl⟩)
      simp [hnone, Prod.ext_iff, eq_comm]
    · rw [beq_eq_false_iff_ne.mpr hk]
      simp [ih hl, Prod.ext_iff, hk]

omit [DecidableEq κ] in
/-- The keys with their lookups are the list again. -/
theorem filterMap_lookup (h : (l.map Prod.fst).Nodup) :
    (l.map Prod.fst).filterMap (fun k => (l.lookup k).map (k, ·)) = l := by
  rw [List.filterMap_map]
  refine (List.filterMap_congr fun e he => ?_).trans List.filterMap_some
  rw [Function.comp, (mem_iff_lookup h).mp he]
  rfl

end Assoc
