import Mathlib.Data.List.Nodup

/-!
# The order of occurrences in a list

`Precedes l a b` says that `a` and `b` occur in the list `l` in this order. In a log to which
entries are appended, this is the order in which they happened: it never changes
(`Precedes.append`), a new entry comes after all earlier ones (`precedes_concat`), and of two
different entries one precedes the other (`precedes_total`), but not conversely if no entry
occurs twice (`Precedes.asymm`).
-/

variable {α : Type*} {l l' : List α} {a b c : α}

/-- `a` and `b` occur in `l` in this order. -/
def Precedes (l : List α) (a b : α) : Prop := [a, b].Sublist l

instance [DecidableEq α] (l : List α) (a b : α) : Decidable (Precedes l a b) :=
  inferInstanceAs (Decidable ([a, b].Sublist l))

theorem Precedes.left_mem (h : Precedes l a b) : a ∈ l := h.subset (by simp)

theorem Precedes.right_mem (h : Precedes l a b) : b ∈ l := h.subset (by simp)

/-- An order of two entries is kept in a longer list. -/
theorem Precedes.mono (h : Precedes l a b) (hl : l.Sublist l') : Precedes l' a b := h.trans hl

theorem Precedes.append (h : Precedes l a b) (l' : List α) : Precedes (l ++ l') a b :=
  h.mono (List.sublist_append_left l l')

theorem not_precedes_nil : ¬Precedes [] a b := fun h => nomatch h.left_mem

/-- Two entries in order are in the tail, or the first one is the head. -/
theorem precedes_cons_iff : Precedes (c :: l) a b ↔ Precedes l a b ∨ a = c ∧ b ∈ l := by
  rw [Precedes, List.sublist_cons_iff]
  refine or_congr_right ⟨?_, ?_⟩
  · rintro ⟨r, heq, hr⟩
    obtain ⟨rfl, rfl⟩ := List.cons.inj heq
    exact ⟨rfl, List.singleton_sublist.mp hr⟩
  · rintro ⟨rfl, hb⟩
    exact ⟨[b], rfl, List.singleton_sublist.mpr hb⟩

/-- Two entries in order are in one part, or one in each. -/
theorem precedes_append_iff :
    Precedes (l ++ l') a b ↔ Precedes l a b ∨ (a ∈ l ∧ b ∈ l') ∨ Precedes l' a b := by
  induction l with
  | nil => simp [not_precedes_nil]
  | cons c l ih =>
    rw [List.cons_append, precedes_cons_iff, ih, precedes_cons_iff, List.mem_append, List.mem_cons]
    tauto

theorem precedes_singleton : ¬Precedes [c] a b := fun h => by
  rcases precedes_cons_iff.mp h with h | ⟨-, hb⟩
  · exact not_precedes_nil h
  · cases hb

/-- An entry that is appended comes after all earlier ones. -/
theorem precedes_concat (ha : a ∈ l) : Precedes (l ++ [b]) a b :=
  precedes_append_iff.mpr (.inr (.inl ⟨ha, List.mem_singleton_self b⟩))

/-- The last entry has all the others before it. -/
theorem precedes_concat_iff :
    Precedes (l ++ [c]) a b ↔ Precedes l a b ∨ a ∈ l ∧ b = c := by
  rw [precedes_append_iff, List.mem_singleton, or_iff_left precedes_singleton]

/-- Distinct members come in one order or the other. -/
theorem precedes_total (ha : a ∈ l) (hb : b ∈ l) (hne : a ≠ b) :
    Precedes l a b ∨ Precedes l b a := by
  induction l with
  | nil => cases ha
  | cons c l ih =>
    rw [precedes_cons_iff, precedes_cons_iff]
    rcases List.mem_cons.mp ha with rfl | ha'
    · exact .inl (.inr ⟨rfl, List.mem_of_ne_of_mem hne.symm hb⟩)
    · rcases List.mem_cons.mp hb with rfl | hb'
      · exact .inr (.inr ⟨rfl, ha'⟩)
      · exact (ih ha' hb').imp .inl .inl

theorem Precedes.ne (h : Precedes l a b) (hl : l.Nodup) : a ≠ b := by
  rintro rfl
  exact List.not_nodup_pair a (hl.sublist h)

/-- Without repetition they come in one order only. -/
theorem Precedes.asymm (h : Precedes l a b) (hl : l.Nodup) : ¬Precedes l b a := by
  induction l with
  | nil => exact absurd h not_precedes_nil
  | cons c l ih =>
    obtain ⟨hc, hl⟩ := List.nodup_cons.mp hl
    intro h'
    rcases precedes_cons_iff.mp h with hab | ⟨rfl, hb⟩
    · rcases precedes_cons_iff.mp h' with hba | ⟨rfl, -⟩
      · exact ih hab hl hba
      · exact hc hab.right_mem
    · rcases precedes_cons_iff.mp h' with hba | ⟨rfl, -⟩
      · exact hc hba.right_mem
      · exact hc hb

/-- Reversing a list turns every order around. -/
theorem precedes_reverse : Precedes l.reverse a b ↔ Precedes l b a := by
  rw [Precedes, ← List.reverse_sublist, List.reverse_reverse]
  rfl

/-- Entries of a sublist occur in it in the order of the whole list. -/
theorem Precedes.restrict (h : Precedes l a b) (hl : l.Nodup) (hsub : l'.Sublist l) (ha : a ∈ l')
    (hb : b ∈ l') : Precedes l' a b :=
  (precedes_total ha hb (h.ne hl)).resolve_right fun h' => (h'.mono hsub).asymm hl h

/-- The images of the entries occur in the same order. -/
theorem Precedes.map {β : Type*} (f : α → β) (h : Precedes l a b) :
    Precedes (l.map f) (f a) (f b) := List.Sublist.map f h
