import Ctorium.ListenerStore
import Mathlib.Data.List.Nodup

/-!
# Views in use are not reclaimed

A dispatch may iterate a view as long as it is not erased (`Protected`). The hazard
cell sees to this for one dispatch per thread: the cell holds the view from before
the second load of `view_` on, and a retired view is not published again.

A dispatch nested in a callback uses the same cell. It overwrites the outer view
and clears the cell when it ends, while the outer dispatch goes on. So the views are
protected in every run in which no reclamation reads the cell of a thread for a
view that the thread still iterates after such a nested dispatch
(`protected_of_nested_covered`); a callback that first dispatches and then registers
a listener breaks it (`nested_dispatch_unprotected`).
-/

namespace Ctorium.ListenerStore

open Function

/-- Every view that a dispatch iterates is the current one or retired, not erased. -/
def Protected (s : State) : Prop :=
  ∀ t v b, Frame.iterate v b ∈ s.frames t → v ∈ s.liveViews

/-- A reclamation that reads the cell of a thread for a view finds the view there, if the
    thread iterates it in a dispatch in which a nested dispatch has used the cell. -/
def NestedCovered (s : State) : Action → Prop
  | .advance _ _ =>
    match s.reclaim with
    | some (_, .scan v _ slot _) =>
      Frame.iterate v true ∈ s.frames slot → s.hazardViews slot = some v.addr
    | _ => True
  | _ => True

instance (s : State) (a : Action) : Decidable (NestedCovered s a) := by
  unfold NestedCovered
  split
  · split <;> infer_instance
  · infer_instance

/-- A dispatch frame, as opposed to a mutation. -/
def Frame.isDispatch : Frame → Bool
  | .mutate _ => false
  | _ => true

/-- The frames of dispatches that have stored to the cell. -/
def Frame.usesCell : Frame → Bool
  | .validate _ | .iterate _ _ | .clear => true
  | _ => false

/-- Below a frame there are only callbacks of dispatches, whose views the cell no longer
    covers once a nested dispatch has stored to it. -/
def Nested : List Frame → Prop
  | [] => True
  | f :: rest =>
    (∀ g ∈ rest, ∃ v b, g = .iterate v b ∧ (f.usesCell = true → b = true)) ∧ Nested rest

/-- What a reclamation knows: the views it has yet to check are retired, and no thread whose
    cell it has read, or that had no cell when it began, iterates the view it checks. -/
def Reclaim.Ok (s : State) : Reclaim → Prop
  | .next todo => todo ⊆ s.allViews ∧ todo.Nodup
  | .scan v todo slot count => (v :: todo) ⊆ s.allViews ∧ (v :: todo).Nodup ∧
      ∀ t b, t < slot ∨ count ≤ t → Frame.iterate v b ∉ s.frames t

/-- The invariant of the store. -/
structure Inv (s : State) : Prop where
  view_eq : s.view = s.currentView
  addrs : (s.liveViews.map (·.addr)).Nodup
  live : Protected s
  cell : ∀ t v, Frame.iterate v false ∈ s.frames t → s.hazardViews t = some v.addr
  validating : ∀ t a, Frame.validate a ∈ s.frames t → s.hazardViews t = some a
  nested : ∀ t, Nested (s.frames t)
  slots : ∀ t, ∀ f ∈ s.frames t, f.isDispatch = true → t < s.publishedDispatchHazardSlots
  slots_le : s.publishedDispatchHazardSlots ≤ kDispatchHazardSlotCount
  reclaim : ∀ t r, s.reclaim = some (t, r) → r.Ok s

section Dispatch

variable {s : State} {t : ThreadId}

/-- The published view is not retired. -/
theorem Inv.view_not_retired {v : View} (h : Inv s) (hv : s.view = some v) :
    v ∉ s.allViews := by
  intro hm
  have hn := h.addrs
  rw [State.liveViews, ← h.view_eq, hv, Option.toList_some, List.singleton_append, List.map_cons,
    List.nodup_cons] at hn
  exact hn.1 (List.mem_map_of_mem hm)

/-- A thread moves on in its dispatches: what it iterates, it iterated before or is published. -/
theorem Inv.setFrames {a : Option Addr} {fs : List Frame} (h : Inv s)
    (hlive : ∀ v b, Frame.iterate v b ∈ fs →
      (∃ b', Frame.iterate v b' ∈ s.frames t) ∨ s.view = some v)
    (hcell : ∀ v, Frame.iterate v false ∈ fs → a = some v.addr)
    (hval : ∀ x, Frame.validate x ∈ fs → a = some x) (hnest : Nested fs)
    (hslots : ∀ f ∈ fs, f.isDispatch = true → t < s.publishedDispatchHazardSlots) :
    Inv ((s.setHazard t a).setFrames t fs) where
  view_eq := h.view_eq
  addrs := h.addrs
  live u v b hf := by
    by_cases hu : u = t
    · subst hu
      simp only [State.setFrames, update_self] at hf
      rcases hlive v b hf with ⟨b', hb'⟩ | hv
      · exact h.live u v b' hb'
      · exact List.mem_append_left _
          (by rw [State.setFrames, State.setHazard, ← h.view_eq, hv]; simp)
    · simp only [State.setFrames, update_of_ne hu] at hf
      exact h.live u v b hf
  cell u v hf := by
    by_cases hu : u = t
    · subst hu
      simp only [State.setFrames, State.setHazard, update_self] at hf ⊢
      exact hcell v hf
    · simp only [State.setFrames, State.setHazard, update_of_ne hu] at hf ⊢
      exact h.cell u v hf
  validating u x hf := by
    by_cases hu : u = t
    · subst hu
      simp only [State.setFrames, State.setHazard, update_self] at hf ⊢
      exact hval x hf
    · simp only [State.setFrames, State.setHazard, update_of_ne hu] at hf ⊢
      exact h.validating u x hf
  nested u := by
    by_cases hu : u = t
    · subst hu; simpa [State.setFrames] using hnest
    · simpa [State.setFrames, State.setHazard, hu] using h.nested u
  slots u f hf hd := by
    by_cases hu : u = t
    · subst hu
      simp only [State.setFrames, update_self] at hf
      exact hslots f hf hd
    · simp only [State.setFrames, State.setHazard, update_of_ne hu] at hf
      exact h.slots u f hf hd
  slots_le := h.slots_le
  -- A reclaimer that has passed the cells relies on no frame that iterates over its view.
  reclaim u r hr := by
    have hok := h.reclaim u r hr
    cases r with
    | next todo => exact hok
    | scan v todo slot count =>
      obtain ⟨hsub, hnodup, hno⟩ := hok
      refine ⟨hsub, hnodup, fun w b hw hf => ?_⟩
      by_cases hwt : w = t
      · subst hwt
        simp only [State.setFrames, update_self] at hf
        rcases hlive v b hf with ⟨b', hb'⟩ | hv
        -- A view that is still published has not been retired.
        · exact hno w b' hw hb'
        · exact h.view_not_retired hv (hsub List.mem_cons_self)
      · simp only [State.setFrames, State.setHazard, update_of_ne hwt] at hf
        exact hno w b hw hf

theorem setHazard_self : s.setHazard t (s.hazardViews t) = s := by
  rw [State.setHazard, update_eq_self]

/-- The innermost frame of a thread changes, and its cell does not. -/
theorem Inv.setFrames_same {fs : List Frame} (h : Inv s)
    (hlive : ∀ v b, Frame.iterate v b ∈ fs →
      (∃ b', Frame.iterate v b' ∈ s.frames t) ∨ s.view = some v)
    (hcell : ∀ v, Frame.iterate v false ∈ fs → s.hazardViews t = some v.addr)
    (hval : ∀ x, Frame.validate x ∈ fs → s.hazardViews t = some x) (hnest : Nested fs)
    (hslots : ∀ f ∈ fs, f.isDispatch = true → t < s.publishedDispatchHazardSlots) :
    Inv (s.setFrames t fs) := by
  have := h.setFrames (t := t) hlive hcell hval hnest hslots
  rwa [setHazard_self] at this

theorem mem_markNested {f : Frame} {fs : List Frame} (hf : f ∈ State.markNested fs) :
    f ∈ fs ∧ (∀ v b, f ≠ .iterate v b) ∨ ∃ v b, f = .iterate v true ∧ Frame.iterate v b ∈ fs := by
  induction fs with
  | nil => cases hf
  | cons g fs ih =>
    cases g <;> simp only [State.markNested, List.mem_cons] at hf <;>
      rcases hf with rfl | hf
    case iterate.inl v b => exact .inr ⟨v, b, rfl, List.mem_cons_self⟩
    case load.inl | publish.inl | validate.inl | clear.inl | mutate.inl =>
      exact .inl ⟨List.mem_cons_self, by rintro _ _ ⟨⟩⟩
    all_goals
      rcases ih hf with ⟨hm, hne⟩ | ⟨v, b, rfl, hm⟩
      · exact .inl ⟨List.mem_cons_of_mem _ hm, hne⟩
      · exact .inr ⟨v, b, rfl, List.mem_cons_of_mem _ hm⟩

theorem nested_markNested {fs : List Frame} (h : Nested fs) : Nested (State.markNested fs) := by
  induction fs with
  | nil => trivial
  | cons f fs ih =>
    obtain ⟨hbelow, hfs⟩ := h
    have hmark : ∀ g ∈ State.markNested fs, ∃ v b, g = .iterate v b ∧ b = true := by
      intro g hg
      rcases mem_markNested hg with ⟨hm, hne⟩ | ⟨v, _, rfl, _⟩
      · obtain ⟨v, b, rfl, _⟩ := hbelow g hm
        exact absurd rfl (hne v b)
      · exact ⟨v, true, rfl, rfl⟩
    cases f <;> refine ⟨fun g hg => ?_, ih hfs⟩ <;>
      · obtain ⟨v, b, hgv, hb⟩ := hmark g hg
        exact ⟨v, b, hgv, fun _ => hb⟩

/-- Every step of a dispatch keeps the invariant. -/
theorem Inv.advanceDispatch {f : Frame} {rest : List Frame} {s' : State} (h : Inv s)
    (hf : s.frames t = f :: rest) (hs : s.advanceDispatch t rest f = some s') : Inv s' := by
  have hnest := h.nested t
  rw [hf] at hnest
  obtain ⟨hbelow, hrest⟩ := hnest
  have hold : ∀ g ∈ rest, g ∈ s.frames t := fun g hg => by
    rw [hf]; exact List.mem_cons_of_mem _ hg
  have hiter : ∀ v b, Frame.iterate v b ∈ rest →
      (∃ b', Frame.iterate v b' ∈ s.frames t) ∨ s.view = some v :=
    fun v b hm => .inl ⟨b, hold _ hm⟩
  have hval : ∀ {a : Option Addr} (x), Frame.validate x ∈ rest → a = some x := fun x hm => by
    obtain ⟨v, b, hg, _⟩ := hbelow _ hm
    cases hg
  have hslotsRest : ∀ g ∈ rest, g.isDispatch = true → t < s.publishedDispatchHazardSlots :=
    fun g hg => h.slots t g (hold g hg)
  have hslot : f.isDispatch = true → t < s.publishedDispatchHazardSlots :=
    h.slots t f (by rw [hf]; exact List.mem_cons_self)
  -- The innermost frame changes to one that neither iterates nor validates.
  have change (f' : Frame) (hit : ∀ v b, f' ≠ .iterate v b) (hva : ∀ x, f' ≠ .validate x)
      (hused : f'.usesCell = true → f.usesCell = true) (hd : f.isDispatch = true) :
      Inv (s.setFrames t (f' :: rest)) := by
    refine h.setFrames_same (fun v b hm => ?_) (fun v hm => ?_) (fun x hm => ?_) ⟨?_, hrest⟩ ?_
    · rcases List.mem_cons.mp hm with hm | hm
      · exact absurd hm.symm (hit v b)
      · exact hiter v b hm
    · rcases List.mem_cons.mp hm with hm | hm
      · exact absurd hm.symm (hit v false)
      · exact h.cell t v (hold _ hm)
    · rcases List.mem_cons.mp hm with hm | hm
      · exact absurd hm.symm (hva x)
      · exact hval x hm
    · intro g hg
      obtain ⟨v, b, hgv, hb⟩ := hbelow g hg
      exact ⟨v, b, hgv, fun hu => hb (hused hu)⟩
    · intro g hg hgd
      rcases List.mem_cons.mp hg with rfl | hg
      · exact hslot hd
      · exact hslotsRest g hg hgd
  -- The innermost dispatch ends and clears the cell, which covers no view below.
  have leave (hu : f.usesCell = true) : Inv ((s.setHazard t none).setFrames t rest) := by
    refine h.setFrames hiter (fun v hm => ?_) hval hrest hslotsRest
    obtain ⟨v', b, hg, hb⟩ := hbelow _ hm
    cases hg
    cases hb hu
  cases f with
  | load =>
    simp only [State.advanceDispatch] at hs
    split at hs
    · cases hs
      exact h.setFrames_same hiter (fun v hm => h.cell t v (hold _ hm)) hval hrest hslotsRest
    · cases hs
      exact change (.publish _) nofun nofun nofun rfl
  | publish a =>
    cases hs
    have hmark : ∀ g ∈ State.markNested rest, ∃ v b, g = .iterate v true ∧
        Frame.iterate v b ∈ rest := by
      intro g hg
      rcases mem_markNested hg with ⟨hm, hne⟩ | hm
      · obtain ⟨v, b, rfl, _⟩ := hbelow g hm
        exact absurd rfl (hne v b)
      · exact hm
    refine h.setFrames (fun v b hm => ?_) (fun v hm => ?_) (fun x hm => ?_)
      ⟨fun g hg => ?_, nested_markNested hrest⟩ fun g hg hd => ?_
    · rcases List.mem_cons.mp hm with hm | hm
      · cases hm
      · obtain ⟨v', b', hg, hold'⟩ := hmark _ hm
        cases hg
        exact hiter v b' hold'
    · rcases List.mem_cons.mp hm with hm | hm
      · cases hm
      · obtain ⟨v', b', hg, _⟩ := hmark _ hm
        cases hg
    · rcases List.mem_cons.mp hm with hm | hm
      · cases hm; rfl
      · obtain ⟨v', b', hg, _⟩ := hmark _ hm
        cases hg
    · obtain ⟨v, b, hgv, _⟩ := hmark g hg
      exact ⟨v, true, hgv, fun _ => rfl⟩
    · exact hslot rfl
  | validate a =>
    simp only [State.advanceDispatch] at hs
    split at hs
    · cases hs
      exact leave rfl
    · next v hv =>
      split at hs
      · next hva =>
        cases hs
        have hcell : s.hazardViews t = some a :=
          h.validating t a (by rw [hf]; exact List.mem_cons_self)
        refine h.setFrames_same (fun v' b hm => ?_) (fun v' hm => ?_) (fun x hm => ?_)
          ⟨fun g hg => ?_, hrest⟩ fun g hg hd => hslot rfl
        · rcases List.mem_cons.mp hm with hm | hm
          · cases hm; exact .inr hv
          · exact hiter v' b hm
        · rcases List.mem_cons.mp hm with hm | hm
          · cases hm; rw [hcell, hva]
          · exact h.cell t v' (hold _ hm)
        · rcases List.mem_cons.mp hm with hm | hm
          · cases hm
          · exact hval x hm
        · obtain ⟨v', b, hgv, hb⟩ := hbelow g hg
          exact ⟨v', b, hgv, fun _ => hb rfl⟩
      · cases hs
        exact change (.publish _) nofun nofun nofun rfl
  | iterate v b =>
    cases hs
    exact change .clear nofun nofun (fun _ => rfl) rfl
  | clear =>
    cases hs
    exact leave rfl
  | mutate m => cases hs

end Dispatch

/-! ## Mutations and reclamation -/

section Mutations

variable {s s' : State} {t : ThreadId} {rest : List Frame}

/-- User code starts a dispatch or a mutation. -/
theorem Inv.push {f : Frame} (h : Inv s) (hu : userCode (s.frames t) = true)
    (hf : f = .load ∨ ∃ m, f = .mutate m)
    (hslot : f.isDispatch = true → t < s.publishedDispatchHazardSlots) :
    Inv (s.setFrames t (f :: s.frames t)) := by
  have hit : ∀ v b, f ≠ .iterate v b := by rcases hf with rfl | ⟨m, rfl⟩ <;> exact nofun
  have hva : ∀ x, f ≠ .validate x := by rcases hf with rfl | ⟨m, rfl⟩ <;> exact nofun
  have hused : f.usesCell = false := by rcases hf with rfl | ⟨m, rfl⟩ <;> rfl
  -- User code runs, so the latest frame is a callback, and those below it are too.
  have hcallbacks : ∀ g ∈ s.frames t, ∃ v b, g = .iterate v b := by
    have hnest := h.nested t
    cases hfs : s.frames t with
    | nil => simp
    | cons g rest =>
      rw [hfs] at hu hnest
      cases g with
      | iterate v b =>
        intro g' hg'
        rcases List.mem_cons.mp hg' with rfl | hg'
        · exact ⟨v, b, rfl⟩
        · obtain ⟨v', b', hgv, _⟩ := hnest.1 g' hg'
          exact ⟨v', b', hgv⟩
      | _ => simp [userCode] at hu
  refine h.setFrames_same (fun v b hm => ?_) (fun v hm => ?_) (fun x hm => ?_)
    ⟨fun g hg => ?_, h.nested t⟩ fun g hg hd => ?_
  -- The new frame holds no view and has no address in its cell.
  · rcases List.mem_cons.mp hm with hm | hm
    · exact absurd hm.symm (hit v b)
    · exact .inl ⟨b, hm⟩
  · rcases List.mem_cons.mp hm with hm | hm
    · exact absurd hm.symm (hit v false)
    · exact h.cell t v hm
  · rcases List.mem_cons.mp hm with hm | hm
    · exact absurd hm.symm (hva x)
    · exact h.validating t x hm
  · obtain ⟨v, b, hgv⟩ := hcallbacks g hg
    exact ⟨v, b, hgv, fun hu => by rw [hused] at hu; cases hu⟩
  · rcases List.mem_cons.mp hg with rfl | hg
    · exact hslot hd
    · exact h.slots t g hg hd

/-- A mutation returns. -/
theorem Inv.popMutate {m : Mutation} (h : Inv s) (hf : s.frames t = .mutate m :: rest) :
    Inv (s.setFrames t rest) := by
  have hnest := h.nested t
  rw [hf] at hnest
  have hold : ∀ g ∈ rest, g ∈ s.frames t := fun g hg => by
    rw [hf]; exact List.mem_cons_of_mem _ hg
  exact h.setFrames_same (fun v b hm => .inl ⟨b, hold _ hm⟩) (fun v hm => h.cell t v (hold _ hm))
    (fun x hm => h.validating t x (hold _ hm)) hnest.2 fun g hg => h.slots t g (hold g hg)

/-- The number of listeners plays no role in the protection of views. -/
theorem Inv.setSizes (h : Inv s) (sizes : LifecyclePhase → ℕ) :
    Inv { s with phaseSizes := sizes } where
  view_eq := h.view_eq
  addrs := h.addrs
  live := h.live
  cell := h.cell
  validating := h.validating
  nested := h.nested
  slots := h.slots
  slots_le := h.slots_le
  reclaim u r hr := by
    have hok := h.reclaim u r hr
    cases r <;> exact hok

/-- A reclamation changes its progress. -/
theorem Inv.setReclaim {r : Option (ThreadId × Reclaim)} (h : Inv s)
    (hr : ∀ t r', r = some (t, r') → r'.Ok s) : Inv { s with reclaim := r } where
  view_eq := h.view_eq
  addrs := h.addrs
  live := h.live
  cell := h.cell
  validating := h.validating
  nested := h.nested
  slots := h.slots
  slots_le := h.slots_le
  reclaim u r' hr' := by
    have hok := hr u r' hr'
    cases r' <;> exact hok

theorem liveViews_publishView (new : Option View) :
    (s.publishView t new).liveViews = new.toList ++ (s.allViews ++ s.currentView.toList) := rfl

/-- A mutation publishes a view at a new address and retires the current one. -/
theorem Inv.publishView {new : Option View} (h : Inv s)
    (hnew : ∀ v, new = some v → v.addr ∉ s.liveViews.map (·.addr)) :
    Inv (s.publishView t new) := by
  have hperm : (s.allViews ++ s.currentView.toList).Perm s.liveViews := List.perm_append_comm
  have hretired : ((s.allViews ++ s.currentView.toList).map (·.addr)).Nodup :=
    (hperm.map _).nodup_iff.mpr h.addrs
  refine ⟨rfl, ?_, fun u v b hf => ?_, h.cell, h.validating, h.nested, h.slots, h.slots_le,
    fun u r hr => ?_⟩
  · rw [liveViews_publishView]
    cases new with
    | none => exact hretired
    | some v =>
      rw [Option.toList_some, List.singleton_append, List.map_cons, List.nodup_cons]
      exact ⟨fun hm => hnew v rfl ((hperm.map _).mem_iff.mp hm), hretired⟩
  · rw [liveViews_publishView]
    exact List.mem_append_right _ (hperm.mem_iff.mpr (h.live u v b hf))
  · cases hr
    exact ⟨List.Subset.refl _, hretired.of_map _⟩

theorem Inv.lock {m : Mutation} {addr : Addr} (h : Inv s)
    (hf : s.frames t = .mutate m :: rest) (hs : s.lock t m rest addr = some s') : Inv s' := by
  have publish (sizes : LifecyclePhase → ℕ) (hs : (if addr ∈ { s with
      phaseSizes := sizes : State }.liveViews.map (·.addr) then none
      else some ({ s with phaseSizes := sizes : State }.publishView t
        (some ⟨addr, s.nextId⟩))) = some s') : Inv s' := by
    split at hs
    · cases hs
    · next hnew =>
      cases hs
      refine (h.setSizes sizes).publishView fun v hv => ?_
      cases hv
      exact hnew
  cases m with
  | addListener p => exact publish _ hs
  | addListenerDeferred p => cases hs; exact (h.setSizes _).popMutate hf
  | finalizeListeners => exact publish s.phaseSizes hs
  | removeByToken p =>
    cases p with
    | none => cases hs; exact h.popMutate hf
    | some p => exact publish _ hs
  | clear =>
    cases hs
    exact (h.setSizes fun _ => 0).publishView nofun

/-- A retired view that no thread iterates is erased. -/
theorem Inv.erase {v : View} {todo : List View} (h : Inv s)
    (hno : ∀ u b, Frame.iterate v b ∉ s.frames u) (hsub : (v :: todo) ⊆ s.allViews)
    (hnodup : (v :: todo).Nodup) :
    Inv { s with allViews := s.allViews.erase v, reclaim := some (t, .next todo) } := by
  obtain ⟨hv, htodo⟩ := List.nodup_cons.mp hnodup
  have hsublist : (s.currentView.toList ++ s.allViews.erase v).Sublist s.liveViews :=
    List.Sublist.append_left List.erase_sublist _
  refine ⟨h.view_eq, h.addrs.sublist (hsublist.map _), fun u w b hf => ?_, h.cell, h.validating,
    h.nested, h.slots, h.slots_le, fun u r hr => ?_⟩
  · have hne : w ≠ v := by
      rintro rfl
      exact hno u b hf
    rcases List.mem_append.mp (h.live u w b hf) with hm | hm
    · exact List.mem_append_left _ hm
    · exact List.mem_append_right _ ((List.mem_erase_of_ne hne).mpr hm)
  · cases hr
    refine ⟨fun w hw => ?_, htodo⟩
    have hne : w ≠ v := by
      rintro rfl
      exact hv hw
    exact (List.mem_erase_of_ne hne).mpr (hsub (List.mem_cons_of_mem _ hw))

/-- Every step of a reclamation keeps the invariant, if nested dispatches are covered. -/
theorem Inv.advanceReclaim {m : Mutation} {r : Reclaim} (h : Inv s)
    (hf : s.frames t = .mutate m :: rest) (hr : s.reclaim = some (t, r))
    (hG : ∀ v todo slot count, r = .scan v todo slot count →
      Frame.iterate v true ∈ s.frames slot → s.hazardViews slot = some v.addr) :
    Inv (s.advanceReclaim t rest r) := by
  have hok := h.reclaim t r hr
  cases r with
  | next todo =>
    cases todo with
    | nil => exact (h.popMutate hf).setReclaim nofun
    | cons v todo =>
      obtain ⟨hsub, hnodup⟩ := hok
      refine h.setReclaim fun u r' hr' => ?_
      cases hr'
      refine ⟨hsub, hnodup, fun u b hu hm => ?_⟩
      have hslot := h.slots u _ hm rfl
      rw [Nat.min_eq_left h.slots_le] at hu
      rcases hu with hu | hu
      · exact Nat.not_lt_zero _ hu
      · exact Nat.not_lt_of_le hu hslot
  | scan v todo slot count =>
    obtain ⟨hsub, hnodup, hno⟩ := hok
    simp only [State.advanceReclaim]
    split
    · split
      · refine h.setReclaim fun u r' hr' => ?_
        cases hr'
        exact ⟨fun w hw => hsub (List.mem_cons_of_mem _ hw), (List.nodup_cons.mp hnodup).2⟩
      · next hcell =>
        refine h.setReclaim fun u r' hr' => ?_
        cases hr'
        refine ⟨hsub, hnodup, fun u b hu hm => ?_⟩
        by_cases hslot : u = slot
        · -- The cell of this thread does not hold the view, so the thread does not iterate it.
          subst hslot
          cases b with
          | false => exact hcell (h.cell u v hm)
          | true => exact hcell (hG v todo u count rfl hm)
        · exact hno u b (hu.imp_left fun hlt =>
            Nat.lt_of_le_of_ne (Nat.le_of_lt_succ hlt) hslot) hm
    · next hdone =>
      refine h.erase (fun u b => hno u b ?_) hsub hnodup
      exact (Nat.lt_or_ge u slot).imp_right fun hle =>
        Nat.le_trans (Nat.le_of_not_lt hdone) hle

theorem step_inv {a : Action} (h : Inv s) (hG : NestedCovered s a) (hs : step s a = some s') :
    Inv s' := by
  cases a with
  | acquireSlot =>
    simp only [step] at hs
    split at hs
    · next hlt =>
      cases hs
      exact ⟨h.view_eq, h.addrs, h.live, h.cell, h.validating, h.nested,
        fun u f hf hd => Nat.lt_succ_of_lt (h.slots u f hf hd), hlt, fun u r hr => by
          have hok := h.reclaim u r hr
          cases r <;> exact hok⟩
    · cases hs
  | dispatch t phase =>
    simp only [step] at hs
    split at hs
    · next hu =>
      split at hs
      · cases hs; exact h
      · cases hs; exact h.push hu.2 (.inl rfl) fun _ => hu.1
    · cases hs
  | mutate t m =>
    simp only [step] at hs
    split at hs
    · next hu => cases hs; exact h.push hu (.inr ⟨m, rfl⟩) nofun
    · cases hs
  | advance t addr =>
    simp only [step] at hs
    split at hs
    · cases hs
    · next m rest hf =>
      split at hs
      · exact h.lock hf hs
      -- Only the owner of the lock goes on with a reclamation; the scan of a cell is where the
      -- guard is needed.
      · next owner r hr =>
        split at hs
        · next howner =>
          cases hs
          subst howner
          refine h.advanceReclaim hf hr fun v todo slot count hscan hm => ?_
          subst hscan
          simp only [NestedCovered, hr] at hG
          exact hG hm
        · cases hs
    · next f rest _ hf => exact h.advanceDispatch hf hs

end Mutations

theorem init_inv : Inv initial where
  view_eq := rfl
  addrs := List.nodup_nil
  live _ _ _ hf := by cases hf
  cell _ _ hf := by cases hf
  validating _ _ hf := by cases hf
  nested _ := trivial
  slots _ _ hf := by cases hf
  slots_le := Nat.zero_le _
  reclaim _ _ hr := by cases hr

/-- **Views in use are not erased**, in every state of a run whose reclamations find the views
    of dispatches with nested dispatches in the cell. -/
theorem protected_of_nested_covered {s : State} (h : machine.ReachableBy NestedCovered s) :
    Protected s := by
  have hinv : Inv s := h.invariant (fun _ hs => hs ▸ init_inv) fun _ _ _ => step_inv
  exact hinv.live

/-! ## Two runs of one thread -/

/-- `n` steps of a thread, with new views at address `addr`. -/
def advances (n : ℕ) (t : ThreadId) (addr : Addr) : List Action :=
  List.replicate n (.advance t addr)

/-- Thread 0 registers a listener and dispatches an event, up to the callback. -/
def dispatchActions : List Action :=
  [.acquireSlot, .mutate 0 (.addListener .created)] ++ advances 2 0 100 ++
    [.dispatch 0 .created] ++ advances 3 0 0

/-- The callback registers a listener. -/
def registerActions : List Action :=
  [.mutate 0 (.addListener .created)] ++ advances 4 0 200

theorem protected_of_nested_covered_register : ∃ s,
    machine.run initial (dispatchActions ++ registerActions) = some s ∧
    Frame.iterate ⟨100, 0⟩ false ∈ s.frames 0 ∧ Protected s := by
  have hrun : ∃ s, machine.run initial (dispatchActions ++ registerActions) = some s ∧
      Frame.iterate ⟨100, 0⟩ false ∈ s.frames 0 := ⟨_, rfl, by decide⟩
  have hguard : machine.Along NestedCovered initial (dispatchActions ++ registerActions) := by
    decide
  obtain ⟨s, hrun, hframe⟩ := hrun
  exact ⟨s, hrun, hframe,
    protected_of_nested_covered ((Machine.ReachableBy.init rfl).run hguard hrun)⟩

/-- The callback dispatches an event, whose dispatch clears the cell, and then registers a
    listener, which erases the view that the callback belongs to. -/
theorem nested_dispatch_unprotected : ∃ s, machine.run initial (dispatchActions ++
      [.dispatch 0 .created] ++ advances 5 0 0 ++ registerActions) = some s ∧
    machine.Reachable s ∧ ¬ Protected s := by
  have hrun : ∃ s, machine.run initial (dispatchActions ++
        [.dispatch 0 .created] ++ advances 5 0 0 ++ registerActions) = some s ∧
      Frame.iterate ⟨100, 0⟩ true ∈ s.frames 0 ∧ (⟨100, 0⟩ : View) ∉ s.liveViews :=
    ⟨_, rfl, by decide, by decide⟩
  obtain ⟨s, hrun, hframe, hgone⟩ := hrun
  exact ⟨s, hrun, (Machine.Reachable.init rfl).run hrun, fun h => hgone (h 0 _ true hframe)⟩

end Ctorium.ListenerStore
