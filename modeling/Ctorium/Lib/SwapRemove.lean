import Mathlib.Data.List.Nodup
import Mathlib.Data.List.Perm.Basic

/-!
# Removal by overwriting with the last element

A vector whose order does not matter drops an element in constant time: the last
element is copied over it and the last position is popped. On the elements, this
is the removal of the first match (`swapRemove_perm`).

A loop that removes all matches so stays at a position after it has removed the element
there, since the one that has been copied to it has not been looked at
(`swapRemoveAll_perm`).
-/

variable {α : Type*}

/-- Overwrite the first element that satisfies `p` with the last one and drop the last position. -/
def swapRemove (p : α → Bool) (l : List α) : List α :=
  match l.findIdx? p, l.getLast? with
  | some i, some last => (l.set i last).dropLast
  | _, _ => l

theorem swapRemove_perm (p : α → Bool) (l : List α) : (swapRemove p l).Perm (l.eraseP p) := by
  rcases List.eq_nil_or_concat l with rfl | ⟨xs, last, rfl⟩
  · simp [swapRemove]
  rw [swapRemove, List.concat_eq_append, List.eraseP_eq_eraseIdx]
  cases hi : (xs ++ [last]).findIdx? p with
  | none => simp
  | some i =>
    simp only [List.getLast?_append, List.getLast?_singleton, Option.some_or]
    have hlt : i < (xs ++ [last]).length :=
      (List.findIdx?_eq_some_iff_getElem.mp hi).1
    by_cases h : i < xs.length
    · rw [List.set_append_left _ _ h, List.dropLast_concat, List.eraseIdx_append_of_lt_length h]
      exact (List.set_perm_cons_eraseIdx h last).trans
        (List.perm_append_singleton last _).symm
    · have hlen : i = xs.length := by simp at hlt; omega
      subst hlen
      simp [List.set_append_right, List.eraseIdx_append_of_length_le]

section Keys

variable {κ : Type*} [DecidableEq κ] {key : α → κ} {l : List α} {k : κ} {a : α}

/-- Where keys are distinct, the removal by key removes exactly the elements with that key. -/
theorem mem_swapRemove_key (h : (l.map key).Nodup) :
    a ∈ swapRemove (fun x => key x = k) l ↔ a ∈ l ∧ key a ≠ k := by
  rw [(swapRemove_perm _ l).mem_iff]
  induction l with
  | nil => simp
  | cons b l ih =>
    obtain ⟨hb, hl⟩ := List.nodup_cons.mp h
    by_cases hk : key b = k
    · rw [List.eraseP_cons_of_pos (by simpa using hk)]
      -- No later element has the key of the one that is removed.
      have hne : a ∈ l → key a ≠ k := fun ha hak =>
        hb (List.mem_map.mpr ⟨a, ha, hak.trans hk.symm⟩)
      constructor
      · exact fun ha => ⟨List.mem_cons_of_mem _ ha, hne ha⟩
      · rintro ⟨ha, hak⟩
        rcases List.mem_cons.mp ha with rfl | ha
        · exact absurd hk hak
        · exact ha
    · rw [List.eraseP_cons_of_neg (by simpa using hk), List.mem_cons, List.mem_cons, ih hl]
      constructor
      · rintro (rfl | ⟨ha, hak⟩)
        · exact ⟨.inl rfl, hk⟩
        · exact ⟨.inr ha, hak⟩
      · rintro ⟨rfl | ha, hak⟩
        · exact .inl rfl
        · exact .inr ⟨ha, hak⟩

omit [DecidableEq κ] in
theorem nodup_swapRemove_key (p : α → Bool) (h : (l.map key).Nodup) :
    ((swapRemove p l).map key).Nodup := by
  rw [((swapRemove_perm p l).map key).nodup_iff]
  exact h.sublist (List.eraseP_sublist.map key)

end Keys

section All

/-- Walk over a vector from position `i`, and remove each element that satisfies `p`: the last one
    is copied over it, and then the position is looked at again. This gives the vector that is left
    and the elements that have been removed, in this order. `n` bounds the number of steps. -/
def swapRemoveAll (p : α → Bool) : ℕ → ℕ → List α → List α × List α
  | 0, _, l => (l, [])
  | n + 1, i, l =>
    match l[i]?, l.getLast? with
    | some a, some last =>
      if p a then
        let (rest, removed) := swapRemoveAll p n i (l.set i last).dropLast
        (rest, a :: removed)
      else swapRemoveAll p n (i + 1) l
    | _, _ => (l, [])

variable {p : α → Bool}

/-- One removal: the element at the position, and the vector that is left. -/
theorem cons_set_dropLast_perm {l : List α} {i : ℕ} {a last : α} (ha : l[i]? = some a)
    (hlast : l.getLast? = some last) : (a :: (l.set i last).dropLast).Perm l := by
  obtain ⟨hlt, rfl⟩ := List.getElem?_eq_some_iff.mp ha
  obtain ⟨xs, rfl⟩ := List.getLast?_eq_some_iff.mp hlast
  by_cases h : i < xs.length
  · rw [List.set_append_left _ _ h, List.dropLast_concat, List.getElem_append_left h]
    refine ((List.set_perm_cons_eraseIdx h last).cons _).trans ?_
    refine (List.Perm.swap last _ _).trans ?_
    refine ((List.getElem_cons_eraseIdx_perm h).cons last).trans ?_
    exact (List.perm_append_singleton last xs).symm
  · have hlen : i = xs.length := by simp at hlt; omega
    subst hlen
    simpa using (List.perm_append_singleton last xs).symm

/-- Nothing gets lost. -/
theorem swapRemoveAll_append_perm (n i : ℕ) (l : List α) :
    ((swapRemoveAll p n i l).1 ++ (swapRemoveAll p n i l).2).Perm l := by
  induction n generalizing i l with
  | zero => simp [swapRemoveAll]
  | succ n ih =>
    unfold swapRemoveAll
    split
    · next a last ha hlast =>
      split_ifs
      · exact List.perm_middle.trans (((ih i _).cons a).trans (cons_set_dropLast_perm ha hlast))
      · exact ih (i + 1) l
    · simp

theorem of_mem_swapRemoveAll_snd {n i : ℕ} {l : List α} {a : α}
    (h : a ∈ (swapRemoveAll p n i l).2) : p a = true := by
  induction n generalizing i l with
  | zero => cases h
  | succ n ih =>
    unfold swapRemoveAll at h
    split at h
    · split_ifs at h with hp
      · rcases List.mem_cons.mp h with rfl | h
        · exact hp
        · exact ih h
      · exact ih h
    · cases h

/-- If the steps suffice, no match is left. -/
theorem of_mem_swapRemoveAll_fst {n i : ℕ} {l : List α} (hn : l.length ≤ i + n)
    (hdone : ∀ j < i, ∀ a, l[j]? = some a → p a = false) {a : α}
    (h : a ∈ (swapRemoveAll p n i l).1) : p a = false := by
  induction n generalizing i l with
  | zero =>
    change a ∈ l at h
    obtain ⟨j, hj⟩ := List.mem_iff_getElem?.mp h
    exact hdone j (Nat.lt_of_lt_of_le (List.getElem?_eq_some_iff.mp hj).1 hn) a hj
  | succ n ih =>
    unfold swapRemoveAll at h
    split at h
    · next b last hb hlast =>
      have hlt := (List.getElem?_eq_some_iff.mp hb).1
      split_ifs at h with hp
      · -- The positions that have been passed keep their elements.
        refine ih ?_ (fun j hj c hc => ?_) h
        · rw [List.length_dropLast, List.length_set]
          omega
        · rw [List.getElem?_dropLast] at hc
          split_ifs at hc
          rw [List.getElem?_set_ne (Nat.ne_of_gt hj)] at hc
          exact hdone j hj c hc
      · refine ih (by omega) (fun j hj c hc => ?_) h
        rcases Nat.lt_succ_iff_lt_or_eq.mp hj with hj | rfl
        · exact hdone j hj c hc
        · obtain rfl := Option.some.inj (hb.symm.trans hc)
          exact Bool.not_eq_true _ ▸ hp
    · next hnone =>
      change a ∈ l at h
      obtain ⟨j, hj⟩ := List.mem_iff_getElem?.mp h
      have hjlt := (List.getElem?_eq_some_iff.mp hj).1
      refine hdone j ?_ a hj
      -- The walk has come to the end.
      by_contra hge
      cases hb : l[i]? with
      | none =>
        rw [List.getElem?_eq_none_iff] at hb
        omega
      | some b =>
        refine hnone b (l.getLast (List.ne_nil_of_mem h)) hb ?_
        exact List.getLast?_eq_some_getLast _

/-- The loop over the whole vector leaves the other elements, and removes the matches. -/
theorem swapRemoveAll_perm (p : α → Bool) (l : List α) :
    ((swapRemoveAll p l.length 0 l).1.Perm (l.filter fun a => !p a)) ∧
      (swapRemoveAll p l.length 0 l).2.Perm (l.filter p) := by
  have hperm := swapRemoveAll_append_perm (p := p) l.length 0 l
  have hrest : ∀ a ∈ (swapRemoveAll p l.length 0 l).1, p a = false := fun a ha =>
    of_mem_swapRemoveAll_fst (by omega) (by omega) ha
  have hremoved : ∀ a ∈ (swapRemoveAll p l.length 0 l).2, p a = true := fun a ha =>
    of_mem_swapRemoveAll_snd ha
  constructor
  · refine List.Perm.trans (.of_eq ?_) (hperm.filter _)
    rw [List.filter_append, List.filter_eq_self.mpr, List.filter_eq_nil_iff.mpr, List.append_nil]
    · exact fun a ha => by simp [hremoved a ha]
    · exact fun a ha => by simp [hrest a ha]
  · refine List.Perm.trans (.of_eq ?_) (hperm.filter _)
    rw [List.filter_append, List.filter_eq_nil_iff.mpr, List.filter_eq_self.mpr, List.nil_append]
    · exact hremoved
    · exact fun a ha => by simp [hrest a ha]

end All
