import Mathlib.Data.List.Pairwise
import Mathlib.Data.List.Rotate
import Mathlib.Data.List.Sort
import Mathlib.Order.Defs.LinearOrder

/-!
# Stable insertion by descending key

Inserting an element into a list sorted by descending key, behind all elements
whose key is not lower: `l.orderedInsert (fun a b => key b < key a) a`. A
property of the ordered pairs of the list after an insertion is one of the pairs
before it, and of the pairs with the new element.

* `rotate_findIdx_eq`: the insertion by a rotation of the list with the element at its end;
* `pairwise_stableInsert`: one insertion;
* `pairwise_foldl_stableInsert`: the insertion of a list of elements, one by one;
* `pairwise_merge_of`: the merge of two sorted lists whose comparison decides the order.
-/

namespace List

variable {α κ : Type*} [LinearOrder κ] {key : α → κ} {Q : α → α → Prop}

/-- Rotating the last element of a list to the first position whose key is lower inserts it
    there. -/
theorem rotate_findIdx_eq (l : List α) (a : α) :
    (l ++ [a]).take (l.findIdx fun b => key b < key a) ++
        ((l ++ [a]).drop (l.findIdx fun b => key b < key a)).rotate
          (l.length - l.findIdx fun b => key b < key a) =
      l.orderedInsert (fun a b => key b < key a) a := by
  have hle : (l.findIdx fun b => key b < key a) ≤ l.length := findIdx_le_length
  rw [take_append_of_le_length hle, drop_append_of_le_length hle, ← length_drop,
    rotate_append_length_eq, orderedInsert_eq_take_drop, takeWhile_eq_take_findIdx_not,
    dropWhile_eq_drop_findIdx_not]
  simp only [decide_not, Bool.not_not, singleton_append]

/-- The pairs of a list after a stable insertion. -/
theorem pairwise_stableInsert {l : List α} (hl : l.Pairwise fun a b => key b ≤ key a) (a : α) :
    (l.orderedInsert (fun a b => key b < key a) a).Pairwise Q ↔
      l.Pairwise Q ∧ (∀ b ∈ l, key a ≤ key b → Q b a) ∧ ∀ b ∈ l, key b < key a → Q a b := by
  induction l with
  | nil => simp
  | cons c l ih =>
    obtain ⟨hc, hl⟩ := pairwise_cons.1 hl
    by_cases hlt : key c < key a
    · -- The new element comes first: all keys of the list are lower than its key.
      have hall : ∀ b ∈ c :: l, key b < key a := by
        intro b hb
        rcases mem_cons.1 hb with rfl | hb
        · exact hlt
        · exact lt_of_le_of_lt (hc b hb) hlt
      rw [orderedInsert_cons, if_pos hlt, pairwise_cons]
      constructor
      · rintro ⟨ha, hcl⟩
        exact ⟨hcl, fun b hb hle => absurd (hall b hb) hle.not_gt, fun b hb _ => ha b hb⟩
      · rintro ⟨hcl, _, ha⟩
        exact ⟨fun b hb => ha b hb (hall b hb), hcl⟩
    · rw [orderedInsert_cons, if_neg hlt, pairwise_cons, ih hl, pairwise_cons]
      have hle : key a ≤ key c := not_lt.1 hlt
      constructor
      · rintro ⟨hcs, hl, hba, hab⟩
        refine ⟨⟨fun b hb => hcs b ((mem_orderedInsert _).2 (.inr hb)), hl⟩, ?_, ?_⟩
        · intro b hb hle'
          rcases mem_cons.1 hb with rfl | hb
          · exact hcs a ((mem_orderedInsert _).2 (.inl rfl))
          · exact hba b hb hle'
        · intro b hb hlt'
          rcases mem_cons.1 hb with rfl | hb
          · exact absurd hlt' hlt
          · exact hab b hb hlt'
      · rintro ⟨⟨hcs, hl⟩, hba, hab⟩
        refine ⟨fun b hb => ?_, hl, fun b hb => hba b (mem_cons_of_mem _ hb),
          fun b hb => hab b (mem_cons_of_mem _ hb)⟩
        rcases (mem_orderedInsert _).1 hb with rfl | hb
        · exact hba c mem_cons_self hle
        · exact hcs b hb

/-- Stable insertion keeps the list sorted. -/
theorem sorted_stableInsert {l : List α} (hl : l.Pairwise fun a b => key b ≤ key a) (a : α) :
    (l.orderedInsert (fun a b => key b < key a) a).Pairwise fun a b => key b ≤ key a :=
  (pairwise_stableInsert hl a).2 ⟨hl, fun _ _ h => h, fun _ _ h => h.le⟩

/-- The pairs of a list after the stable insertion of elements one by one, for a property
    that only concerns pairs of equal keys. -/
theorem pairwise_foldl_stableInsert (hQ : ∀ a b, key b < key a → Q a b) {l : List α}
    (hl : l.Pairwise fun a b => key b ≤ key a) (as : List α) :
    (as.foldl (fun l a => l.orderedInsert (fun a b => key b < key a) a) l).Pairwise Q ↔
      l.Pairwise Q ∧ (as.Pairwise fun a b => key b ≤ key a → Q a b) ∧
        ∀ a ∈ as, ∀ b ∈ l, key a ≤ key b → Q b a := by
  induction as generalizing l with
  | nil => simp
  | cons c as ih =>
    rw [foldl_cons, ih (sorted_stableInsert hl c), pairwise_stableInsert hl, pairwise_cons]
    constructor
    · rintro ⟨⟨hQl, hc, _⟩, has, hins⟩
      refine ⟨hQl, ⟨fun a ha => hins a ha c ((mem_orderedInsert _).2 (.inl rfl)), has⟩, ?_⟩
      intro a ha b hb
      rcases mem_cons.1 ha with rfl | ha
      · exact hc b hb
      · exact hins a ha b ((mem_orderedInsert _).2 (.inr hb))
    · rintro ⟨hQl, ⟨hc, has⟩, hins⟩
      refine ⟨⟨hQl, hins c mem_cons_self, fun b _ => hQ c b⟩, has, ?_⟩
      intro a ha b hb
      rcases (mem_orderedInsert _).1 hb with rfl | hb
      · exact hc a ha
      · exact hins a (mem_cons_of_mem _ ha) b hb

/-- Two elements of a sorted list come in one order or the other. -/
theorem Pairwise.or_of_ne {R : α → α → Prop} {l : List α} (h : l.Pairwise R) {a b : α}
    (ha : a ∈ l) (hb : b ∈ l) (hne : a ≠ b) : R a b ∨ R b a := by
  have : Std.Symm fun a b => R a b ∨ R b a := ⟨fun _ _ => Or.symm⟩
  have hor : l.Pairwise fun a b => R a b ∨ R b a := h.imp fun hab => .inl hab
  exact hor.forall ha hb hne

/-- The merge of two sorted lists is sorted if its comparison decides the order between the
    elements of one and those of the other. -/
theorem pairwise_merge_of {R : α → α → Prop} (trans : ∀ {a b c}, R a b → R b c → R a c)
    {le : α → α → Bool} {l l' : List α} (hl : l.Pairwise R) (hl' : l'.Pairwise R)
    (hle : ∀ a ∈ l, ∀ b ∈ l', if le a b then R a b else R b a) : (l.merge l' le).Pairwise R := by
  induction l generalizing l' with
  | nil => rwa [nil_merge]
  | cons a l ih =>
    induction l' with
    | nil => rwa [merge_right]
    | cons b l' ih' =>
      have hab := hle a mem_cons_self b mem_cons_self
      obtain ⟨ha, hl⟩ := pairwise_cons.1 hl
      obtain ⟨hb, hl'⟩ := pairwise_cons.1 hl'
      rw [cons_merge_cons]
      split at hab <;> rename_i hcmp
      · -- The element of the first list comes before all others.
        rw [if_pos hcmp, pairwise_cons]
        refine ⟨fun c hc => ?_, ih hl (pairwise_cons.2 ⟨hb, hl'⟩)
          fun c hc => hle c (mem_cons_of_mem _ hc)⟩
        rcases mem_merge.1 hc with hc | hc
        · exact ha c hc
        · rcases mem_cons.1 hc with rfl | hc
          · exact hab
          · exact trans hab (hb c hc)
      · rw [if_neg hcmp, pairwise_cons]
        refine ⟨fun c hc => ?_, ih' hl' fun c hc d hd => hle c hc d (mem_cons_of_mem _ hd)⟩
        rcases mem_merge.1 hc with hc | hc
        · rcases mem_cons.1 hc with rfl | hc
          · exact hab
          · exact trans hab (ha c hc)
        · exact hb c hc

end List
