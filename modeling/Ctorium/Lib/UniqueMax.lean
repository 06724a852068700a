import Mathlib.Data.List.Duplicate
import Mathlib.Data.List.Nodup
import Mathlib.Data.List.Perm.Subperm
import Mathlib.Data.List.Sort
import Mathlib.Order.Basic

/-!
# Unique maxima of a list

`IsUniqueMax key l a` says that `a` has the greatest key in `l`, and nothing else has
it. A list has no unique maximum if it is empty or if its greatest key is `Contested`.

* In a list that is sorted by descending keys, the first two elements decide
  (`first_eq_some`, `first_eq_none`).
* A late element at the end of the list leaves this decision alone if the list
  `Outweighs` its key: something in the list has a greater key, or two elements have
  the same.
* The decision does not depend on the order of the list: it is whether its `tops`, the
  elements with the greatest key, are a single one.
-/

namespace UniqueMax

variable {α β : Type*} [LinearOrder β] {key : α → β} {l l' : List α} {a b : α}

/-- The element has a greater key than every other element of the list. -/
def IsUniqueMax (key : α → β) (l : List α) (a : α) : Prop :=
  a ∈ l ∧ ∀ b ∈ l, b ≠ a → key b < key a

/-- Two elements of the list share its greatest key. -/
def Contested (key : α → β) (l : List α) : Prop :=
  ∃ a ∈ l, ∃ b ∈ l, a ≠ b ∧ key a = key b ∧ ∀ c ∈ l, key c ≤ key a

/-- A unique maximum is unique. -/
theorem IsUniqueMax.eq (ha : IsUniqueMax key l a) (hb : IsUniqueMax key l b) : a = b := by
  by_contra hne
  exact absurd (ha.2 b hb.1 (Ne.symm hne)) (not_lt_of_gt (hb.2 a ha.1 hne))

theorem IsUniqueMax.of_mem_iff (h : IsUniqueMax key l a) (hl : ∀ b, b ∈ l ↔ b ∈ l') :
    IsUniqueMax key l' a :=
  ⟨(hl a).mp h.1, fun b hb => h.2 b ((hl b).mpr hb)⟩

theorem Contested.of_mem_iff (h : Contested key l) (hl : ∀ b, b ∈ l ↔ b ∈ l') :
    Contested key l' := by
  obtain ⟨a, ha, b, hb, hne, hkey, hmax⟩ := h
  exact ⟨a, (hl a).mp ha, b, (hl b).mp hb, hne, hkey, fun c hc => hmax c ((hl c).mpr hc)⟩

/-- A list is never both decided and contested. -/
theorem Contested.not_isUniqueMax (h : Contested key l) : ¬IsUniqueMax key l a := by
  intro ha
  obtain ⟨b, hb, c, hc, hne, hkey, hmax⟩ := h
  by_cases hab : b = a
  · have hlt := ha.2 c hc fun hca => hne (hab.trans hca.symm)
    rw [← hkey, hab] at hlt
    exact absurd hlt (lt_irrefl _)
  · exact absurd (ha.2 b hb hab) (not_lt_of_ge (hmax a ha.1))

/-- The selection from a list in descending order: its first element, unless the second
    one has the same key. -/
def first (key : α → β) : List α → Option α
  | [] => none
  | [a] => some a
  | a :: b :: _ => if key a = key b then none else some a

/-- In a list in descending order without repetitions, the selection is the unique
    maximum; there is none if the list is empty or contested. -/
theorem first_eq_some (hsorted : l.Pairwise fun a b => key b ≤ key a)
    (h : first key l = some a) : IsUniqueMax key l a := by
  match l, h with
  | [_], rfl =>
    exact ⟨List.mem_singleton_self _, fun b hb hne => absurd (List.mem_singleton.mp hb) hne⟩
  | x :: y :: l, h =>
    rw [first, Option.ite_none_left_eq_some] at h
    obtain ⟨hkey, rfl⟩ : key x ≠ key y ∧ x = a := by simpa using h
    obtain ⟨hx, hrest⟩ := List.pairwise_cons.mp hsorted
    refine ⟨List.mem_cons_self, fun b hb hne => ?_⟩
    have hy : key y < key x := lt_of_le_of_ne (hx y List.mem_cons_self) fun he => hkey he.symm
    rcases List.mem_cons.mp ((List.mem_cons.mp hb).resolve_left hne) with rfl | hb
    · exact hy
    · exact lt_of_le_of_lt ((List.pairwise_cons.mp hrest).1 b hb) hy

/-- A sorted list without a first choice is empty or has its maximum twice. -/
theorem first_eq_none (hsorted : l.Pairwise fun a b => key b ≤ key a) (hnodup : l.Nodup)
    (h : first key l = none) : l = [] ∨ Contested key l := by
  match l, h with
  | [], _ => exact .inl rfl
  | x :: y :: l, h =>
    have hkey : key x = key y := by
      by_contra hne
      rw [first, if_neg hne] at h
      exact absurd h nofun
    obtain ⟨hx, -⟩ := List.pairwise_cons.mp hsorted
    refine .inr ⟨x, List.mem_cons_self, y, by simp, ?_, hkey, fun c hc => ?_⟩
    · rintro rfl
      exact (List.nodup_cons.mp hnodup).1 List.mem_cons_self
    · rcases List.mem_cons.mp hc with rfl | hc
      · exact le_refl _
      · exact hx c hc

theorem first_congr {key' : α → β} (h : ∀ a ∈ l, key' a = key a) :
    first key' l = first key l := by
  rcases l with _ | ⟨a, _ | ⟨b, l⟩⟩
  · rfl
  · rfl
  · rw [first, first, h a (by simp), h b (by simp)]

theorem IsUniqueMax.congr {key' : α → β} (h : ∀ b ∈ l, key' b = key b)
    (ha : IsUniqueMax key l a) : IsUniqueMax key' l a :=
  ⟨ha.1, fun b hb hne => by
    rw [h b hb, h a ha.1]
    exact ha.2 b hb hne⟩

theorem Contested.congr {key' : α → β} (h : ∀ b ∈ l, key' b = key b)
    (hl : Contested key l) : Contested key' l := by
  obtain ⟨a, ha, b, hb, hne, hkey, hmax⟩ := hl
  refine ⟨a, ha, b, hb, hne, by rw [h a ha, h b hb, hkey], fun c hc => ?_⟩
  rw [h c hc, h a ha]
  exact hmax c hc

/-! ## The elements with the greatest key -/

/-- The elements with the greatest key. -/
def tops (key : α → β) (l : List α) : List α := l.filter fun a => ∀ b ∈ l, key b ≤ key a

theorem mem_tops : a ∈ tops key l ↔ a ∈ l ∧ ∀ b ∈ l, key b ≤ key a := by simp [tops]

/-- The maxima do not depend on the order of the list. -/
theorem tops_perm (h : l.Perm l') : (tops key l).Perm (tops key l') := by
  have hsame : tops key l' = l'.filter fun a => ∀ b ∈ l, key b ≤ key a :=
    List.filter_congr fun a _ => by simp only [h.mem_iff]
  rw [hsame]
  exact h.filter _

theorem tops_map {γ : Type*} {f : γ → α} (l : List γ) :
    tops key (l.map f) = (tops (key ∘ f) l).map f := by
  unfold tops
  rw [List.filter_map]
  congr 2
  funext a
  simp

theorem tops_congr {key' : α → β} (h : ∀ a ∈ l, key' a = key a) : tops key' l = tops key l :=
  List.filter_congr fun a ha => by
    have hall : (∀ b ∈ l, key' b ≤ key' a) ↔ ∀ b ∈ l, key b ≤ key a :=
      forall₂_congr fun b hb => by rw [h b hb, h a ha]
    simp only [hall]

/-- A list that is not empty has a greatest key. -/
theorem tops_eq_nil_iff : tops key l = [] ↔ l = [] := by
  refine ⟨fun h => ?_, fun h => by rw [h]; rfl⟩
  by_contra hne
  obtain ⟨a, ha, hmax⟩ : ∃ a ∈ l, ∀ b ∈ l, key b ≤ key a := by
    clear h
    induction l with
    | nil => exact absurd rfl hne
    | cons x l ih =>
      rcases eq_or_ne l [] with rfl | hl
      · exact ⟨x, List.mem_cons_self, fun b hb => (congrArg key (List.mem_singleton.mp hb)).le⟩
      · obtain ⟨a, ha, hmax⟩ := ih hl
        rcases le_total (key a) (key x) with hle | hle
        · refine ⟨x, List.mem_cons_self, fun b hb => ?_⟩
          rcases List.mem_cons.mp hb with rfl | hb
          · exact le_rfl
          · exact (hmax b hb).trans hle
        · refine ⟨a, List.mem_cons_of_mem x ha, fun b hb => ?_⟩
          rcases List.mem_cons.mp hb with rfl | hb
          · exact hle
          · exact hmax b hb
  exact List.not_mem_nil (h ▸ mem_tops.mpr ⟨ha, hmax⟩)

/-- A unique maximum is the only one. -/
theorem IsUniqueMax.tops_eq (h : IsUniqueMax key l a) (hnodup : l.Nodup) : tops key l = [a] := by
  refine List.perm_singleton.mp ((List.perm_ext_iff_of_nodup (hnodup.filter _)
    (List.nodup_singleton a)).mpr fun b => ?_)
  rw [List.mem_singleton]
  constructor
  · intro hb
    obtain ⟨hbl, hmax⟩ := mem_tops.mp hb
    by_contra hne
    exact absurd (h.2 b hbl hne) (not_lt_of_ge (hmax a h.1))
  · rintro rfl
    refine mem_tops.mpr ⟨h.1, fun c hc => ?_⟩
    rcases eq_or_ne c b with rfl | hne
    · exact le_rfl
    · exact (h.2 c hc hne).le

/-- Contested means that there are two maxima at least. -/
theorem Contested.exists_tops_eq (h : Contested key l) :
    ∃ a b rest, tops key l = a :: b :: rest := by
  obtain ⟨a, ha, b, hb, hne, hkey, hmax⟩ := h
  have ha' : a ∈ tops key l := mem_tops.mpr ⟨ha, hmax⟩
  have hb' : b ∈ tops key l := mem_tops.mpr ⟨hb, fun c hc => hkey ▸ hmax c hc⟩
  match htops : tops key l with
  | [] => exact absurd (htops ▸ ha') List.not_mem_nil
  | [x] =>
    rw [htops, List.mem_singleton] at ha' hb'
    exact absurd (ha'.trans hb'.symm) hne
  | x :: y :: rest => exact ⟨x, y, rest, rfl⟩

/-! ## A late element -/

/-- Something in the list has a greater key than `k`, or two elements have the key `k`. -/
def Outweighs (key : α → β) (l : List α) (k : β) : Prop :=
  (∃ a ∈ l, k < key a) ∨ ∃ a ∈ l, ∃ b ∈ l, a ≠ b ∧ key a = k ∧ key b = k

variable {c : α}

theorem Outweighs.of_mem_iff {k : β} {l' : List α} (h : Outweighs key l k)
    (hl : ∀ a, a ∈ l ↔ a ∈ l') : Outweighs key l' k := by
  simpa only [Outweighs, hl] using h

theorem Outweighs.lt_of_isUniqueMax {k : β} (h : Outweighs key l k) (ha : IsUniqueMax key l a) :
    k < key a := by
  rcases h with ⟨x, hx, hlt⟩ | ⟨x, hx, y, hy, hne, hkx, hky⟩
  · by_cases hxa : x = a
    · exact hxa ▸ hlt
    · exact hlt.trans (ha.2 x hx hxa)
  · -- One of the two elements with the key `k` is not the maximum.
    by_cases hxa : x = a
    · exact hky ▸ ha.2 y hy fun hya => hne (hxa.trans hya.symm)
    · exact hkx ▸ ha.2 x hx hxa

/-- An entry below the maximum changes nothing. -/
theorem IsUniqueMax.concat (ha : IsUniqueMax key l a) (hc : key c < key a) :
    IsUniqueMax key (l ++ [c]) a := by
  refine ⟨List.mem_append_left _ ha.1, fun b hb hne => ?_⟩
  rcases List.mem_append.mp hb with hb | hb
  · exact ha.2 b hb hne
  · exact List.mem_singleton.mp hb ▸ hc

/-- Neither does an entry below the contested ones settle the contest. -/
theorem Contested.concat (hl : Contested key l) (hc : Outweighs key l (key c)) :
    Contested key (l ++ [c]) := by
  obtain ⟨a, ha, b, hb, hne, hkey, hmax⟩ := hl
  refine ⟨a, List.mem_append_left _ ha, b, List.mem_append_left _ hb, hne, hkey, fun x hx => ?_⟩
  rcases List.mem_append.mp hx with hx | hx
  · exact hmax x hx
  · rw [List.mem_singleton.mp hx]
    rcases hc with ⟨y, hy, hlt⟩ | ⟨y, hy, -, -, -, hky, -⟩
    · exact hlt.le.trans (hmax y hy)
    · exact hky ▸ hmax y hy

/-- If the list does not outweigh a late element, then neither its unique maximum nor its
    being contested survives. -/
theorem outweighs_of_concat_isUniqueMax (hc : c ∉ l) (ha : a ∈ l)
    (h : IsUniqueMax key (l ++ [c]) a) : Outweighs key l (key c) :=
  .inl ⟨a, ha, h.2 c (by simp) fun hca => hc (hca ▸ ha)⟩

theorem outweighs_of_concat_contested (hl : Contested key l) (h : Contested key (l ++ [c])) :
    Outweighs key l (key c) := by
  obtain ⟨a, ha, b, hb, hne, hkey, hmax⟩ := h
  obtain ⟨x, hx, y, hy, hxy, hkxy, hmaxl⟩ := hl
  have hca := hmax c (by simp)
  rcases lt_or_eq_of_le hca with hlt | heq
  · -- The greatest key is above that of the late element, so it belongs to the list.
    rcases List.mem_append.mp ha with ha | ha
    · exact .inl ⟨a, ha, hlt⟩
    · exact absurd hlt (by rw [List.mem_singleton.mp ha]; exact lt_irrefl _)
  · -- One of the two elements with the greatest key is in the list.
    obtain ⟨z, hz, hkz⟩ : ∃ z ∈ l, key z = key c := by
      rcases List.mem_append.mp ha with ha | ha
      · exact ⟨a, ha, heq.symm⟩
      · rcases List.mem_append.mp hb with hb | hb
        · exact ⟨b, hb, hkey.symm.trans heq.symm⟩
        · exact absurd ((List.mem_singleton.mp ha).trans (List.mem_singleton.mp hb).symm) hne
    have hkx : key x = key c := by
      refine le_antisymm ?_ (hkz ▸ hmaxl z hz)
      exact heq ▸ hmax x (List.mem_append_left _ hx)
    exact .inr ⟨x, hx, y, hy, hxy, hkx, hkxy.symm.trans hkx⟩

/-- The selection from a list with a late element. -/
theorem first_concat_of_two (x y : α) (l : List α) (c : α) :
    first key (x :: y :: l ++ [c]) = first key (x :: y :: l) := rfl

/-- In a list without repetitions, a key counts twice if two elements have it. -/
theorem two_le_count_map_iff {γ : Type*} [DecidableEq γ] {f : α → γ} {k : γ} (hnodup : l.Nodup) :
    2 ≤ (l.map f).count k ↔ ∃ a ∈ l, ∃ b ∈ l, a ≠ b ∧ f a = k ∧ f b = k := by
  rw [← List.duplicate_iff_two_le_count, List.duplicate_iff_sublist]
  constructor
  · intro h
    obtain ⟨l', hl', heq⟩ := List.sublist_map_iff.mp h
    obtain ⟨a, b, rfl⟩ := List.length_eq_two.mp (by simpa using (congrArg List.length heq).symm)
    obtain ⟨ha, hb⟩ : k = f a ∧ k = f b := by simpa using heq
    have hne : a ≠ b := by simpa using hnodup.sublist hl'
    exact ⟨a, hl'.subset (by simp), b, hl'.subset (by simp), hne, ha.symm, hb.symm⟩
  · rintro ⟨a, ha, b, hb, hne, rfl, hab⟩
    have hsub : List.Subperm [a, b] l :=
      List.subperm_of_subset (by simpa using hne) (by simp [ha, hb])
    obtain ⟨l', hperm, hl'⟩ := hsub
    have hmap : l'.map f = [f a, f a] := by
      have := (hperm.map f)
      rw [show [a, b].map f = List.replicate 2 (f a) by simp [hab]] at this
      exact List.perm_replicate.mp this
    exact hmap ▸ hl'.map f

end UniqueMax
