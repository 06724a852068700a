import Ctorium.Lifecycle

/-!
# Objects and instances

A construction under way and an instance in a store are about different objects, and the
constructor of an object returns once (`Known`). Only some of the steps construct objects
or bring them into a store; `step_frame` says that the others do not.
-/

namespace Ctorium.Lifecycle

open Function (update)

variable {T : Table} {s s' : State} {a : Action}

/-- The steps that construct objects, or bring them into a store. -/
def Action.constructs : Action → Bool
  | .construct _ | .constructed _ | .constructorThrows _ | .store _ | .activate _ | .allocate _ _
  | .makeObject _ | .storeBound _ => true
  | _ => false

/-- The other steps leave the constructions and the instances in stores as they are. -/
theorem step_frame (ha : a.constructs = false) (h : step T s a = some s') :
    s'.constructions = s.constructions ∧ s'.published = s.published ∧
      s'.contexts = s.contexts ∧ s'.completed = s.completed := by
  cases a with
  | construct | constructed | constructorThrows | store | activate | allocate | makeObject
  | storeBound => cases ha
  | perform f =>
    simp only [step] at h
    split at h
    · obtain ⟨-, ⟨⟩⟩ := Option.ite_none_right_eq_some.mp h
      exact ⟨rfl, rfl, rfl, rfl⟩
    · cases h
  | release k =>
    simp only [step] at h
    split at h
    · obtain ⟨-, ⟨⟩⟩ := Option.ite_none_right_eq_some.mp h
      exact ⟨rfl, rfl, rfl, rfl⟩
    · cases h
  | destroyNext p =>
    simp only [step] at h
    split at h
    · obtain ⟨-, ⟨⟩⟩ := Option.ite_none_right_eq_some.mp h
      exact ⟨rfl, rfl, rfl, rfl⟩
    · cases h
  | sweepSlot =>
    simp only [step] at h
    split at h
    · obtain ⟨-, h⟩ := Option.ite_none_right_eq_some.mp h
      split at h <;> obtain ⟨⟩ := h <;> exact ⟨rfl, rfl, rfl, rfl⟩
    · cases h
  | _ =>
    obtain ⟨-, ⟨⟩⟩ := Option.ite_none_right_eq_some.mp h
    exact ⟨rfl, rfl, rfl, rfl⟩

/-- The objects of the constructions under way and of the instances in stores are different ones. -/
structure Known (s : State) : Prop where
  constructions : (s.constructions.map (·.bean.mem)).Nodup
  published : (s.published.map Instance.mem).Nodup
  unpublished : ∀ c ∈ s.constructions, c.bean.mem ∉ s.published.map Instance.mem
  completed : s.completed.Nodup
  /-- Exactly the constructors of these objects have returned. -/
  returned : ∀ c ∈ s.constructions, c.returned = true ↔ c.bean.mem ∈ s.completed
  publishedCompleted : ∀ b ∈ s.published, b.mem ∈ s.completed

theorem known_init : Known {} := ⟨.nil, .nil, nofun, .nil, nofun, nofun⟩

/-- The invariant reads three fields only. -/
theorem Known.of_eq (h : Known s) (hc : s'.constructions = s.constructions)
    (hp : s'.published = s.published) (hd : s'.completed = s.completed) : Known s' := by
  obtain ⟨hconstructions, hpublished, hunpublished, hcompleted, hreturned, hpc⟩ := h
  refine ⟨?_, ?_, ?_, ?_, ?_, ?_⟩ <;> simpa only [hc, hp, hd]

theorem Known.ne_of_erase (h : Known s) {c c' : Construction} (hc : c ∈ s.constructions)
    (hc' : c' ∈ s.constructions.erase c) : c'.bean.mem ≠ c.bean.mem := by
  intro heq
  have hperm := (List.perm_cons_erase hc).map (·.bean.mem)
  rw [List.map_cons] at hperm
  exact (List.nodup_cons.mp (hperm.nodup h.constructions)).1 (heq ▸ List.mem_map_of_mem hc')

theorem Known.erase_nodup (h : Known s) (c : Construction) :
    ((s.constructions.erase c).map (·.bean.mem)).Nodup :=
  h.constructions.sublist ((List.erase_sublist).map _)

/-- A construction whose constructor has returned ends with its instance in a store. -/
theorem Known.publish (h : Known s) {c : Construction} (hc : c ∈ s.constructions)
    (hr : c.returned = true) : Known (s.publish T c) where
  constructions := h.erase_nodup c
  published := by
    rw [show (s.publish T c).published = s.published.concat c.bean from
      (List.concat_eq_append ..).symm, List.map_concat]
    exact h.published.concat (h.unpublished c hc)
  unpublished c' hc' := by
    rw [show (s.publish T c).published = s.published ++ [c.bean] from rfl, List.map_append,
      List.mem_append, not_or]
    exact ⟨h.unpublished c' (List.mem_of_mem_erase hc'),
      mt List.mem_singleton.mp (h.ne_of_erase hc hc')⟩
  completed := h.completed
  returned c' hc' := h.returned c' (List.mem_of_mem_erase hc')
  publishedCompleted b hb := by
    rcases List.mem_append.mp hb with hb | hb
    · exact h.publishedCompleted b hb
    · exact List.mem_singleton.mp hb ▸ (h.returned c hc).mp hr

/-- A construction begins in memory that nobody uses. -/
theorem Known.construct (h : Known s) {c : Construction} (hm : s.Fresh c.bean.mem)
    (hr : c.returned = false) (hc : s'.constructions = c :: s.constructions)
    (hp : s'.published = s.published) (hd : s'.completed = s.completed) : Known s' where
  constructions := by
    rw [hc, List.map_cons]
    exact List.nodup_cons.mpr ⟨hm.2.2.1, h.constructions⟩
  published := hp ▸ h.published
  unpublished c' hc' := by
    rw [hc] at hc'
    rw [hp]
    rcases List.mem_cons.mp hc' with rfl | hc'
    · exact hm.2.1
    · exact h.unpublished c' hc'
  completed := hd ▸ h.completed
  returned c' hc' := by
    rw [hc] at hc'
    rw [hd]
    rcases List.mem_cons.mp hc' with rfl | hc'
    · exact iff_of_false (by simp [hr]) hm.1
    · exact h.returned c' hc'
  publishedCompleted b hb := hd ▸ h.publishedCompleted b (hp ▸ hb)

/-- The constructor returns: its object is complete, and still under construction for the store. -/
theorem Known.constructed (h : Known s) {c : Construction} (hc : c ∈ s.constructions)
    (hr : c.returned = false) : Known (constructedStep s c) where
  constructions := by
    have hperm := (List.perm_cons_erase hc).map (·.bean.mem)
    exact hperm.nodup h.constructions
  published := h.published
  unpublished c' hc' := by
    rcases List.mem_cons.mp hc' with rfl | hc'
    · exact h.unpublished c hc
    · exact h.unpublished c' (List.mem_of_mem_erase hc')
  completed := by
    have hnew : c.bean.mem ∉ s.completed := fun hm => by
      rw [(h.returned c hc).mpr hm] at hr
      cases hr
    rw [show (constructedStep s c).completed = s.completed.concat c.bean.mem from
      (List.concat_eq_append ..).symm]
    exact h.completed.concat hnew
  returned c' hc' := by
    rw [show (constructedStep s c).completed = s.completed ++ [c.bean.mem] from rfl,
      List.mem_append, List.mem_singleton]
    rcases List.mem_cons.mp hc' with rfl | hc'
    · exact iff_of_true rfl (.inr rfl)
    · rw [or_iff_left (h.ne_of_erase hc hc')]
      exact h.returned c' (List.mem_of_mem_erase hc')
  publishedCompleted b hb := List.mem_append_left _ (h.publishedCompleted b hb)

/-- An unwound construction leaves no object behind. -/
theorem Known.constructorThrows (h : Known s) {c : Construction}
    (hc : s'.constructions = s.constructions.erase c) (hp : s'.published = s.published)
    (hd : s'.completed = s.completed) : Known s' where
  constructions := hc ▸ h.erase_nodup c
  published := hp ▸ h.published
  unpublished c' hc' := hp ▸ h.unpublished c' (List.mem_of_mem_erase (hc ▸ hc'))
  completed := hd ▸ h.completed
  returned c' hc' := hd ▸ h.returned c' (List.mem_of_mem_erase (hc ▸ hc'))
  publishedCompleted b hb := hd ▸ h.publishedCompleted b (hp ▸ hb)

theorem Known.makeObject (h : Known s) {m : Addr} (hm : s.Fresh m) :
    Known { s with completed := s.completed ++ [m] } where
  constructions := h.constructions
  published := h.published
  unpublished := h.unpublished
  completed := by
    rw [← List.concat_eq_append]
    exact h.completed.concat hm.1
  returned c hc := by
    rw [List.mem_append, List.mem_singleton, or_iff_left fun heq : c.bean.mem = m =>
      hm.2.2.1 (heq ▸ List.mem_map_of_mem hc)]
    exact h.returned c hc
  publishedCompleted b hb := List.mem_append_left _ (h.publishedCompleted b hb)

/-- An object that the program made is published under the id of its binding. -/
theorem Known.storeBound (h : Known s) {b : Instance} (hm : b.mem ∈ s.completed)
    (hp : b.mem ∉ s.published.map Instance.mem) (hc : b.mem ∉ s.constructions.map (·.bean.mem)) :
    Known (storeBoundStep s b) where
  constructions := h.constructions
  published := by
    rw [show (storeBoundStep s b).published = s.published.concat b from
      (List.concat_eq_append ..).symm, List.map_concat]
    exact h.published.concat hp
  unpublished c hcm := by
    rw [show (storeBoundStep s b).published = s.published ++ [b] from rfl, List.map_append,
      List.mem_append, not_or]
    refine ⟨h.unpublished c hcm, mt List.mem_singleton.mp fun heq : c.bean.mem = b.mem => ?_⟩
    exact hc (heq ▸ List.mem_map_of_mem hcm)
  completed := h.completed
  returned := h.returned
  publishedCompleted b' hb' := by
    rcases List.mem_append.mp hb' with hb' | hb'
    · exact h.publishedCompleted b' hb'
    · exact List.mem_singleton.mp hb' ▸ hm

theorem activateStep_frame (T : Table) (s : State) (c : Construction) (k : SlotId) :
    (activateStep T s c k).constructions = (s.publish T c).constructions ∧
      (activateStep T s c k).published = (s.publish T c).published ∧
      (activateStep T s c k).contexts = (s.publish T c).contexts ∧
      (activateStep T s c k).completed = (s.publish T c).completed ∧
      (activateStep T s c k).frames = (s.publish T c).frames ∧
      (activateStep T s c k).trace = (s.publish T c).trace := by
  rw [activateStep]
  split <;> exact ⟨rfl, rfl, rfl, rfl, rfl, rfl⟩

/-- Every action keeps the objects apart. -/
theorem Known.step (h : Known s) (hs : step T s a = some s') : Known s' := by
  rcases ha : a.constructs with _ | _
  · obtain ⟨hc, hp, -, hd⟩ := step_frame ha hs
    exact h.of_eq hc hp hd
  · cases a with
    | construct c =>
      obtain ⟨⟨hm, hr, -⟩, ⟨⟩⟩ := Option.ite_none_right_eq_some.mp hs
      rcases hslot : c.slot with _ | k <;>
        exact h.construct hm hr (by simp [constructStep, hslot, State.setSlot])
          (by simp [constructStep, hslot, State.setSlot])
          (by simp [constructStep, hslot, State.setSlot])
    | constructed c =>
      obtain ⟨⟨hc, hr⟩, ⟨⟩⟩ := Option.ite_none_right_eq_some.mp hs
      exact h.constructed hc hr
    | constructorThrows c =>
      obtain ⟨-, ⟨⟩⟩ := Option.ite_none_right_eq_some.mp hs
      rw [constructorThrowsStep]
      dsimp only
      split
      · split <;> exact h.constructorThrows rfl rfl rfl
      · exact h.constructorThrows rfl rfl rfl
    | store c =>
      obtain ⟨⟨hc, hr, -⟩, ⟨⟩⟩ := Option.ite_none_right_eq_some.mp hs
      exact (h.publish (T := T) hc hr).of_eq rfl rfl rfl
    | activate c =>
      simp only [Lifecycle.step] at hs
      split at hs
      · rename_i k _
        obtain ⟨⟨hc, hr⟩, ⟨⟩⟩ := Option.ite_none_right_eq_some.mp hs
        obtain ⟨hcs, hp, -, hd, -⟩ := activateStep_frame T s c k
        exact (h.publish (T := T) hc hr).of_eq hcs hp hd
      · cases hs
    | allocate c k =>
      obtain ⟨⟨hc, hr, -⟩, ⟨⟩⟩ := Option.ite_none_right_eq_some.mp hs
      exact (h.publish (T := T) hc hr).of_eq rfl rfl rfl
    | makeObject m =>
      obtain ⟨hm, ⟨⟩⟩ := Option.ite_none_right_eq_some.mp hs
      exact h.makeObject hm
    | storeBound b =>
      obtain ⟨⟨hm, hp, hc, -⟩, ⟨⟩⟩ := Option.ite_none_right_eq_some.mp hs
      exact h.storeBound hm hp hc
    | _ => cases ha

theorem Known.of_reachable (h : (machine T).Reachable s) : Known s :=
  h.invariant (fun _ hinit => hinit ▸ known_init) fun _ _ _ hI hs => hI.step hs

/-- Beans without hooks. -/
def hookless : Table := ⟨fun _ => false, fun _ => false, 0⟩

end Ctorium.Lifecycle
