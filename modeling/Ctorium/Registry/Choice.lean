import Ctorium.Registry.FirstStart

/-!
# What the first start selects

After the first start, the selection for a type and a name is a choice by priority among
the descriptors that were there when the candidates were sorted; the context bean, which
comes later, is chosen for its key only if there is nothing else
(`selectKey_finishStart_eq`). A choice does not depend on the order of the candidates
(`choose_perm`), nor on what they are called (`choose_map`).
-/

namespace Ctorium

open UniqueMax

/-! ## Choices -/

section Choose

variable {α γ : Type*} {key : α → ℤ} {l l' : List α}

/-- The only element with the greatest key. -/
def choose (key : α → ℤ) (l : List α) : Except Failure α :=
  match tops key l with
  | [] => .error BeanContext.noBean
  | [a] => .ok a
  | _ :: _ :: _ => .error BeanContext.ambiguousResolution

theorem choose_perm (h : l.Perm l') : choose key l = choose key l' := by
  have htops : (tops key l).Perm (tops key l') := tops_perm h
  unfold choose
  match hl : tops key l with
  | [] =>
    rw [hl] at htops
    rw [htops.nil_eq.symm]
  | [a] =>
    rw [hl] at htops
    rw [List.singleton_perm.mp htops]
  | a :: b :: rest =>
    rw [hl] at htops
    match hl' : tops key l' with
    | [] => exact absurd (hl' ▸ htops).length_eq (by simp)
    | [x] => exact absurd (hl' ▸ htops).length_eq (by simp)
    | x :: y :: rest' => rfl

theorem choose_map {f : γ → α} (l : List γ) :
    choose key (l.map f) = (choose (key ∘ f) l).map f := by
  unfold choose
  rw [tops_map]
  match tops (key ∘ f) l with
  | [] => rfl
  | [a] => rfl
  | a :: b :: rest => rfl

theorem choose_congr {key' : α → ℤ} (h : ∀ a ∈ l, key' a = key a) :
    choose key' l = choose key l := by
  unfold choose
  rw [tops_congr h]

theorem choose_of_isUniqueMax {a : α} (hnodup : l.Nodup) (h : IsUniqueMax key l a) :
    choose key l = .ok a := by
  rw [choose, h.tops_eq hnodup]

theorem choose_of_contested (h : Contested key l) :
    choose key l = .error BeanContext.ambiguousResolution := by
  obtain ⟨a, b, rest, htops⟩ := h.exists_tops_eq
  rw [choose, htops]

@[simp] theorem choose_nil : choose key [] = .error BeanContext.noBean := rfl

/-- The element chosen is one of the list. -/
theorem mem_of_choose {a : α} (h : choose key l = .ok a) : a ∈ l := by
  unfold choose at h
  match htops : tops key l with
  | [] =>
    rw [htops] at h
    cases h
  | [b] =>
    rw [htops] at h
    obtain rfl := Except.ok.inj h
    exact (mem_tops.mp (htops ▸ List.mem_singleton_self b)).1
  | b :: c :: rest =>
    rw [htops] at h
    cases h

end Choose

/-! ## Selections -/

namespace BeanContext

variable {r : Registry} {typeId : TypeId} {nameId : NameId} {l : List DescriptorId}

/-- The selection from caches that agree with the candidates. -/
theorem selectKey_eq_choose (h : r.typeIndex.Agrees r.priorityOf typeId nameId l)
    (hnodup : l.Nodup) (hperm : ((r.typeIndex.candidatesFor typeId nameId).getD []).Perm l) :
    selectKey r typeId nameId = choose r.priorityOf l := by
  have hnone : ∀ {candidates : List DescriptorId}, candidates.Perm l →
      l = [] ∨ Contested r.priorityOf l →
      .error (if candidates = [] then noBean else ambiguousResolution) =
        choose r.priorityOf l := by
    rintro candidates hcandidates (rfl | hcont)
    · rw [if_pos hcandidates.eq_nil, choose_nil]
    · rw [choose_of_contested hcont, if_neg]
      rintro rfl
      obtain ⟨a, ha, -⟩ := hcont
      exact List.not_mem_nil (hcandidates.symm.subset ha)
  -- By the way that the index answers: the single candidate, the cached head, or the list.
  unfold selectKey
  split
  · next id hid =>
    split_ifs at hid with hname
    rw [choose_of_isUniqueMax hnodup (h.single hname id hid)]
  · cases hentry : r.typeIndex.entries typeId nameId with
    | none =>
      have hcandidates : (r.typeIndex.candidatesFor typeId nameId).getD [] = [] := by
        simp [TypeIndex.candidatesFor, hentry]
      rw [hcandidates] at hperm
      rw [hperm.nil_eq.symm, choose_nil]
      rfl
    | some entry =>
      have hcandidates : (r.typeIndex.candidatesFor typeId nameId).getD [] = entry.candidates := by
        simp [TypeIndex.candidatesFor, hentry]
      cases hhead : entry.head with
      | none =>
        simp only [selectEntry, hhead, selectFallback_eq]
        cases hfirst : first r.priorityOf entry.candidates with
        | some id =>
          exact (choose_of_isUniqueMax hnodup (h.chosen id (hcandidates ▸ hfirst))).symm
        | none => exact hnone (hcandidates ▸ hperm) (h.unchosen (hcandidates ▸ hfirst))
      | some head =>
        have hcached := h.cached entry head hentry hhead
        simp only [selectEntry, hhead]
        split_ifs at hcached ⊢
        · exact (choose_of_contested hcached).symm
        · exact (choose_of_isUniqueMax hnodup hcached).symm

end BeanContext

namespace Registry

variable {s : StartState} (ctx : Addr)

/-- After the start, no candidates wait. -/
theorem finishStart_candidates (h : s.registry.Indexed) (typeId : TypeId) (nameId : NameId) :
    (((finishStart (sortState s) ctx).registry.typeIndex.candidatesFor typeId nameId).getD []).Perm
      (keyIds (finishStart (sortState s) ctx).registry.descriptors typeId nameId) := by
  have hinserted := (Indexed.finishStart (s := sortState s) h.sortAllCandidates ctx).inserted
    typeId nameId
  have hpending : (finishStart (sortState s) ctx).registry.typeIndex.pendingFor typeId nameId =
      [] := rfl
  rwa [TypeIndex.inserted, hpending, List.append_nil] at hinserted

/-- The selection after the first start: among the candidates that have been sorted, or else the
    context bean. -/
theorem selectKey_finishStart_eq (h : s.registry.Indexed) (typeId : TypeId) (nameId : NameId) :
    BeanContext.selectKey (finishStart (sortState s) ctx).registry typeId nameId =
      choose (finishStart (sortState s) ctx).registry.priorityOf
        (if keyIds s.registry.descriptors typeId nameId = [] then
          keyIds (finishStart (sortState s) ctx).registry.descriptors typeId nameId
        else keyIds s.registry.descriptors typeId nameId) := by
  have hcandidates := finishStart_candidates ctx h typeId nameId
  by_cases hkey : typeId = s.registry.contextTypeId ∧ nameId = kUnnamed
  · obtain ⟨rfl, rfl⟩ := hkey
    have hperm := h.inserted s.registry.contextTypeId kUnnamed
    split_ifs with hnil
    · -- There is only the context bean.
      have hinserted : s.registry.typeIndex.inserted s.registry.contextTypeId kUnnamed = [] :=
        List.perm_nil.mp (hnil ▸ hperm)
      exact BeanContext.selectKey_eq_choose (finishStart_agrees ctx h (.inl hinserted) _ _)
        (keyIds_nodup _ _ _) hcandidates
    · -- The head that was cached before the context bean came is selected.
      have hrivals : s.registry.typeIndex.inserted s.registry.contextTypeId kUnnamed ≠ [] :=
        fun hinserted => hnil (List.perm_nil.mp (hinserted ▸ hperm.symm))
      have hnodup := inserted_nodup h s.registry.contextTypeId kUnnamed
      obtain ⟨x, ambiguous, hselect, hcached⟩ := selectKey_finishStart ctx h hrivals
      rw [hselect, choose_perm hperm.symm]
      split_ifs at hcached ⊢
      · exact (choose_of_contested hcached).symm
      · exact (choose_of_isUniqueMax hnodup hcached).symm
  · have hsame := keyIds_finishStart s ctx typeId nameId
    rw [if_neg hkey, List.append_nil] at hsame
    rw [hsame, ite_self]
    exact BeanContext.selectKey_eq_choose (finishStart_agrees_of_ne ctx h hkey)
      (keyIds_nodup _ _ _) (hsame ▸ hcandidates)

end Registry

end Ctorium
