import Ctorium.Prototype.Exact

/-!
# Keeping the handle of a creation event

When a prototype has been activated, `materializeOneImpl` dispatches its creation events
with an `AnyBean` that tracks it like any other handle. A global listener is given this
`AnyBean`; the wrapper that `on<T>` puts around a typed callback makes a `Bean<T>` of
it, with the slot `kInvalidSlotId`, so that the view and its copies do not count.

A copy that a callback keeps should keep the prototype alive (`Kept`). This holds as
long as no callback copies the view of a typed listener (`kept_of_uncopied_views`):
such a copy points to a destroyed bean as soon as the handle that `resolve` returns is
gone (`typed_copy_dangles`).
-/

namespace Ctorium.Keeping

open Function Prototype Prototype.State

/-! ## The machine -/

structure State where
  store : Prototype.State := {}
  /-- The `AnyBean` handles of the creation events under way. -/
  events : List CellId := []
  /-- The views that typed listeners have of them. -/
  views : List CellId := []
  /-- The handles that callbacks have copied out of events. -/
  copies : List CellId := []

/-- The `Bean<T>` of `BeanContext::on`, which does not track. -/
def typedView (h : Handle) : Handle := { h with slot := kInvalidSlotId }

inductive Action
  /-- An operation on handles that are neither events nor views. -/
  | handle (a : Prototype.Action)
  /-- The prototype of the handle that `resolve` is about to return has been created. -/
  | beginEvent (c : CellId)
  /-- A typed listener is notified. -/
  | beginTyped (e : CellId)
  /-- Its callback copies the `const Bean<T>&`. -/
  | copyBean (v : CellId) (owner : Option ObjectId)
  /-- The callback of a global listener copies or casts the `const AnyBean&`. -/
  | copyAnyBean (e : CellId) (owner : Option ObjectId)
  | castAnyBean (e : CellId) (target : DescriptorId) (owner : Option ObjectId)
  | endTyped (v : CellId)
  | endEvent (e : CellId)
  deriving DecidableEq, Repr

/-- The handles that an operation works on. -/
def operands : Prototype.Action → List CellId
  | .activate _ members _ => members
  | .copy c _ | .move c _ | .cast c _ _ | .destroy c => [c]
  | .copyAssign d c | .moveAssign d c => [d, c]
  | .allocate _ | .abandon _ | .construct _ _ => []

/-- The operation works on no event and no view, and makes no handle to a bean. -/
def State.ordinary (s : State) (a : Prototype.Action) : Bool :=
  ((operands a).all fun c => c ∉ s.events ++ s.views) && match a with
    | .construct h _ => h.object.isNone
    | _ => true

def State.enabled (s : State) : Action → Bool
  | .handle a => s.ordinary a
  | .beginEvent c => c ∉ s.events ++ s.views ∧ (s.store.cells c).handle.isPrototype
  | .beginTyped e | .copyAnyBean e _ | .castAnyBean e _ _ | .endEvent e => e ∈ s.events
  | .copyBean v _ | .endTyped v => v ∈ s.views

/-- The operation on the handles of the store. -/
def State.operation (s : State) : Action → Prototype.Action
  | .handle a => a
  | .beginEvent c => .copy c none
  | .beginTyped e => .construct (typedView (s.store.cells e).handle) none
  | .copyBean c owner | .copyAnyBean c owner => .copy c owner
  | .castAnyBean e target owner => .cast e (some target) owner
  | .endTyped c | .endEvent c => .destroy c

/-- The handle that a step has made, or ends, is noted. -/
def State.note (s : State) (store : Prototype.State) : Action → State
  | .handle _ => { s with store := store }
  | .beginEvent _ => { s with store := store, events := s.store.nextCell :: s.events }
  | .beginTyped _ => { s with store := store, views := s.store.nextCell :: s.views }
  | .copyBean _ _ | .copyAnyBean _ _ | .castAnyBean _ _ _ =>
    { s with store := store, copies := s.store.nextCell :: s.copies }
  | .endTyped v => { s with store := store, views := s.views.filter (· ≠ v) }
  | .endEvent e => { s with store := store, events := s.events.filter (· ≠ e) }

def step (s : State) (a : Action) : Option State :=
  if s.enabled a then (s.store.step (s.operation a)).map fun store => s.note store a else none

/-- All sequences of operations and creation events. -/
def machine : Machine State Action where
  Init s := s = {}
  step := step

def Action.copiesView : Action → Bool
  | .copyBean _ _ => true
  | _ => false

/-- The operations are careful, and no callback copies the view of a typed listener. -/
def UncopiedViews (s : State) (a : Action) : Prop :=
  Careful s.store (s.operation a) ∧ ¬a.copiesView

/-- The copies keep their prototypes alive, and nothing else does. -/
structure Kept (s : State) : Prop where
  alive : ∀ c ∈ s.copies, (s.store.cells c).alive →
    ∀ o, (s.store.cells c).handle.object = some o → (s.store.objects o).state = .active
  /-- A prototype that has been created and has no handle has been destroyed, once. -/
  dropped : ∀ o, (s.store.objects o).state = .active ∨ (s.store.objects o).state = .destroyed →
    (∀ c, (s.store.cells c).alive → (s.store.cells c).handle.object ≠ some o) →
      (s.store.objects o).state = .destroyed ∧ s.store.lifecycles.count o = 1

/-! ## Handles that do not track -/

/-- A handle to an object that does not track it. -/
def Untracked (h : Handle) : Prop := h.object ≠ none ∧ h.isPrototype = false

variable {s t : Prototype.State} {c : CellId} {h : Handle}

theorem isPrototype_of_not_untracked (hu : ¬Untracked h) {o : ObjectId} (ho : h.object = some o) :
    h.isPrototype = true :=
  Bool.eq_true_of_not_eq_false fun hproto => hu ⟨ho ▸ nofun, hproto⟩

/-- Cells may have been destroyed, but no handle has changed. -/
structure Fades (s t : Prototype.State) : Prop where
  handle : ∀ c, (t.cells c).handle = (s.cells c).handle
  alive : ∀ c, (t.cells c).alive → (s.cells c).alive
  nextCell : t.nextCell = s.nextCell

namespace Fades

theorem of_eq (h : t.cells = s.cells) (hnext : t.nextCell = s.nextCell) : Fades s t :=
  ⟨fun c => by rw [h], fun c => by rw [h]; exact id, hnext⟩

theorem trans {u : Prototype.State} (h : Fades s t) (h' : Fades t u) : Fades s u :=
  ⟨fun c => (h'.handle c).trans (h.handle c), fun c halive => h.alive c (h'.alive c halive),
    h'.nextCell.trans h.nextCell⟩

theorem release (i : Prototype.SlotId) : Fades s (s.release i).1 := by
  unfold Prototype.State.release
  dsimp only
  split_ifs
  · split <;> exact .of_eq rfl rfl
  · exact .of_eq rfl rfl

theorem kill : Fades s (s.kill c) := by
  refine ⟨fun b => ?_, fun b => ?_, rfl⟩ <;> by_cases hb : b = c
  · subst hb
    simp [State.kill]
  · simp [State.kill, hb]
  · subst hb
    simp [State.kill]
  · simp [State.kill, hb]

theorem perform (w : Work) : Fades s (s.perform w).1 := by
  cases w with
  | destroyCell c =>
    rw [State.perform_destroyCell]
    split
    · exact kill.trans (release _)
    · exact kill
  | reclaimSlot i => exact .of_eq rfl rfl

theorem worklist (n : ℕ) (ws : List Work) :
    Fades s (Worklist.drain Prototype.State.perform n ws s) := by
  induction n generalizing s ws with
  | zero => exact .of_eq rfl rfl
  | succ n ih =>
    cases ws with
    | nil => exact .of_eq rfl rfl
    | cons w ws => exact (perform w).trans (ih _)

theorem releaseIfPrototype : Fades s (s.releaseIfPrototype h) := by
  unfold Prototype.State.releaseIfPrototype
  split_ifs
  · exact (release _).trans (worklist _ _)
  · exact .of_eq rfl rfl

theorem retainIfPrototype : Fades s (s.retainIfPrototype h) := by
  unfold Prototype.State.retainIfPrototype
  split_ifs <;> exact .of_eq rfl rfl

theorem destroy : Fades s (s.destroy c) := by
  have hdrain : ∀ u : Prototype.State, u.cells = s.cells → u.nextCell = s.nextCell →
      Fades s (u.drain [.destroyCell c]) :=
    fun u hcells hnext => (Fades.of_eq hcells hnext).trans (.worklist _ _)
  exact hdrain _ rfl rfl

end Fades

theorem dead_destroy : ¬((s.destroy c).cells c).alive := by
  have hfirst : ∀ u : Prototype.State, ¬((u.perform (.destroyCell c)).1.cells c).alive := by
    intro u hu
    rw [State.perform_destroyCell] at hu
    split at hu
    · simpa [State.kill] using (Fades.release _).alive c hu
    · simp [State.kill] at hu
  -- The handle goes first, and what follows makes none.
  exact fun halive => hfirst _ ((Fades.worklist _ _).alive c halive)

/-- A step makes no handle to a bean that does not track it. -/
structure NoneMade (s t : Prototype.State) : Prop where
  untracked : ∀ c, (t.cells c).alive → Untracked (t.cells c).handle →
    (s.cells c).alive ∧ Untracked (s.cells c).handle
  nextCell : s.nextCell ≤ t.nextCell

namespace NoneMade

theorem of_fades (h : Fades s t) : NoneMade s t :=
  ⟨fun c halive hu => ⟨h.alive c halive, h.handle c ▸ hu⟩, h.nextCell.ge⟩

theorem trans {u : Prototype.State} (h : NoneMade s t) (h' : NoneMade t u) : NoneMade s u where
  untracked c halive hu :=
    h.untracked c (h'.untracked c halive hu).1 (h'.untracked c halive hu).2
  nextCell := h.nextCell.trans h'.nextCell

theorem newCell {owner : Option ObjectId} (hh : ¬Untracked h) :
    NoneMade s (s.newCell h owner) := by
  refine ⟨fun c halive hu => ?_, Nat.le_succ _⟩
  by_cases hc : c = s.nextCell
  · subst hc
    simp only [Prototype.State.newCell, update_self] at hu
    exact absurd hu hh
  · simpa [Prototype.State.newCell, hc] using And.intro halive hu

theorem setHandle (hh : ¬Untracked h) : NoneMade s (s.setHandle c h) := by
  refine ⟨fun b halive hu => ?_, le_rfl⟩
  by_cases hb : b = c
  · subst hb
    simp only [Prototype.State.setHandle, update_self] at hu
    exact absurd hu hh
  · simpa [Prototype.State.setHandle, hb] using And.intro halive hu

end NoneMade

theorem not_untracked_empty : ¬Untracked {} := fun hu => hu.1 rfl

/-- The handle of a bean with a slot tracks it, as no slot has the number of the sentinel. -/
theorem not_untracked_first (hinv : Inv none none s []) {i : SlotId} {o : ObjectId}
    (hmem : s.memoryAt i = some o) : ¬Untracked ⟨some o, i, (s.slots i).descId⟩ := by
  have hlt := Nat.lt_of_lt_of_le (hinv.slots.lt i o hmem) hinv.slots.le
  have hvalid : i ≠ kInvalidSlotId := by
    rintro rfl
    exact absurd hlt (by decide)
  intro hu
  have hproto := hu.2
  simp [Handle.isPrototype, hvalid] at hproto

/-- A further handle like one that tracks its bean. -/
theorem NoneMade.newCell_retain {owner : Option ObjectId} (hh : ¬Untracked h) :
    NoneMade s ((s.newCell h owner).retainIfPrototype h) :=
  (NoneMade.newCell hh).trans (.of_fades .retainIfPrototype)

/-- An operation on handles that track their beans makes no other handles. -/
theorem noneMade_step {a : Prototype.Action} (hinv : Inv none none s [])
    (hoperands : ∀ c ∈ operands a, (s.cells c).alive → ¬Untracked (s.cells c).handle)
    (hconstruct : ∀ h owner, a = .construct h owner → ¬Untracked h) (hs : s.step a = some t) :
    NoneMade s t := by
  -- A new handle comes from the operand, from the activation, or is empty.
  cases a with
  | allocate d =>
    obtain ⟨-, hs⟩ := Option.ite_none_right_eq_some.mp hs
    obtain rfl := Option.some.inj hs
    have hslot : s.allocateSlot.2.cells = s.cells ∧ s.allocateSlot.2.nextCell = s.nextCell := by
      unfold State.allocateSlot
      split <;> exact ⟨rfl, rfl⟩
    exact .of_fades (.of_eq hslot.1 hslot.2)
  | abandon i =>
    obtain ⟨o, -, rfl⟩ := Option.map_eq_some_iff.mp hs
    exact .of_fades (.of_eq rfl rfl)
  | activate i members returned =>
    obtain ⟨-, hs⟩ := Option.ite_none_right_eq_some.mp hs
    obtain ⟨o, hres, rfl⟩ := Option.map_eq_some_iff.mp hs
    have hmem : s.memoryAt i = some o := (Inv.of_reservedAt hres).1
    have howned : Fades s { s.setSlot i { s.slots i with refcount := 1 } with
        cells := fun c => if c ∈ members then { s.cells c with owner := some o } else s.cells c
        objects := update s.objects o ⟨.active, members⟩ } := by
      refine ⟨fun c => ?_, fun c => ?_, rfl⟩ <;> by_cases hc : c ∈ members <;> simp [hc]
    unfold Prototype.State.activate
    dsimp only
    split_ifs
    · exact (NoneMade.of_fades howned).trans (.newCell (not_untracked_first hinv hmem))
    · exact .of_fades howned
  | construct h owner =>
    obtain ⟨-, hs⟩ := Option.ite_none_right_eq_some.mp hs
    obtain rfl := Option.some.inj hs
    exact .newCell (hconstruct h owner rfl)
  | copy c owner =>
    obtain ⟨⟨hc, -⟩, hs⟩ := Option.ite_none_right_eq_some.mp hs
    obtain rfl := Option.some.inj hs
    exact .newCell_retain (hoperands c List.mem_cons_self hc)
  | move c owner =>
    obtain ⟨⟨hc, -⟩, hs⟩ := Option.ite_none_right_eq_some.mp hs
    obtain rfl := Option.some.inj hs
    exact (NoneMade.newCell (hoperands c List.mem_cons_self hc)).trans
      (.setHandle not_untracked_empty)
  | copyAssign d c =>
    obtain ⟨⟨-, hc⟩, hs⟩ := Option.ite_none_right_eq_some.mp hs
    obtain rfl := Option.some.inj hs
    unfold Prototype.State.copyAssign
    split_ifs
    · exact .of_fades (.of_eq rfl rfl)
    -- The release makes no handle; what the destination gets is the handle of the source.
    · have hrelease : Fades s (s.releaseIfPrototype (s.cells d).handle) := .releaseIfPrototype
      have hsource := hoperands c (List.mem_cons_of_mem _ List.mem_cons_self) hc
      rw [← hrelease.handle c] at hsource
      exact (NoneMade.of_fades hrelease).trans ((NoneMade.setHandle hsource).trans
        (.of_fades (Fades.retainIfPrototype.trans (.of_eq rfl rfl))))
  | moveAssign d c =>
    obtain ⟨⟨-, hc⟩, hs⟩ := Option.ite_none_right_eq_some.mp hs
    obtain rfl := Option.some.inj hs
    unfold Prototype.State.moveAssign
    split_ifs
    · exact .of_fades (.of_eq rfl rfl)
    · have hrelease : Fades s (s.releaseIfPrototype (s.cells d).handle) := .releaseIfPrototype
      have hsource := hoperands c (List.mem_cons_of_mem _ List.mem_cons_self) hc
      rw [← hrelease.handle c] at hsource
      exact (NoneMade.of_fades hrelease).trans ((NoneMade.setHandle hsource).trans
        ((NoneMade.setHandle not_untracked_empty).trans (.of_fades (.of_eq rfl rfl))))
  | cast c target owner =>
    obtain ⟨⟨hc, -⟩, hs⟩ := Option.ite_none_right_eq_some.mp hs
    obtain rfl := Option.some.inj hs
    cases target with
    | none => exact .of_fades (.of_eq rfl rfl)
    | some d =>
      have hcast : ¬Untracked (castHandle (s.cells c).handle d) :=
        hoperands c List.mem_cons_self hc
      exact .newCell_retain hcast
  | destroy c =>
    obtain ⟨-, hs⟩ := Option.ite_none_right_eq_some.mp hs
    obtain rfl := Option.some.inj hs
    exact .of_fades .destroy

/-! ## The result -/

/-- The handles of the events and their copies. -/
def State.others (s : State) : List CellId := s.events ++ s.copies

/-- Between operations, every handle but the views of the typed listeners tracks its bean. -/
structure Inv (s : State) : Prop where
  store : Prototype.Inv none none s.store []
  tracking : ∀ c, (s.store.cells c).alive → c ∉ s.views → ¬Untracked (s.store.cells c).handle
  apart : ∀ c ∈ s.others, c ∉ s.views
  lt : ∀ c ∈ s.others ++ s.views, c < s.store.nextCell

namespace Inv

variable {s t : State}

theorem initial : Inv {} where
  store := Prototype.Inv.initial
  tracking := nofun
  apart := nofun
  lt := nofun

theorem kept (hinv : Inv s) : Kept s where
  alive c hc halive o ho := by
    have hview : c ∉ s.views := hinv.apart c (List.mem_append_right _ hc)
    have hproto := isPrototype_of_not_untracked (hinv.tracking c halive hview) ho
    obtain ⟨o', ho', -, hactive⟩ := hinv.store.tracked halive hproto
    obtain rfl : o = o' := Option.some.inj (ho.symm.trans ho')
    exact hactive
  dropped o ho hnone := by
    have hexact := hinv.store.countsExact
    rcases ho with hactive | hdestroyed
    · obtain ⟨c, hc⟩ := Finset.card_pos.mp (hexact.kept o hactive).1
      obtain ⟨-, halive, -, hobject⟩ := Finset.mem_filter.mp hc
      exact absurd hobject (hnone c halive)
    · exact ⟨hdestroyed, (hexact.destroyed o hdestroyed).2⟩

/-- A step after which there is no further view, and the views that are gone are destroyed. -/
theorem of_noneMade (hinv : Inv s) (hstore : Prototype.Inv none none t.store [])
    (hmade : NoneMade s.store t.store)
    (hothers : ∀ c ∈ t.others,
      c ∈ s.others ∨ c = s.store.nextCell ∧ s.store.nextCell < t.store.nextCell)
    (hviews : ∀ c ∈ t.views, c ∈ s.views)
    (hgone : ∀ c ∈ s.views, c ∉ t.views → ¬(t.store.cells c).alive) : Inv t := by
  refine ⟨hstore, fun c halive hc hu => ?_, fun c hc hv => ?_, fun c hc => ?_⟩
  · obtain ⟨halive', hu'⟩ := hmade.untracked c halive hu
    exact hinv.tracking c halive' (fun hv => hgone c hv hc halive) hu'
  · rcases hothers c hc with hc | ⟨rfl, -⟩
    · exact hinv.apart c hc (hviews c hv)
    · exact Nat.lt_irrefl _ (hinv.lt _ (List.mem_append_right _ (hviews _ hv)))
  · rcases List.mem_append.mp hc with hc | hc
    · rcases hothers c hc with hc | ⟨rfl, hlt⟩
      · exact (hinv.lt c (List.mem_append_left _ hc)).trans_le hmade.nextCell
      · exact hlt
    · exact (hinv.lt c (List.mem_append_right _ (hviews c hc))).trans_le hmade.nextCell

/-- A typed listener is notified: the new handle is a view. -/
theorem beginTyped (hinv : Inv s) {h : Handle} (hh : ¬h.isPrototype) :
    Inv { s with store := s.store.newCell h none, views := s.store.nextCell :: s.views } := by
  have hstore : Prototype.Inv none none (s.store.newCell h none) [] :=
    hinv.store.construct (by simpa using hh) rfl
  refine ⟨hstore, fun c halive hc => ?_, fun c hc hv => ?_, fun c hc => ?_⟩
  · obtain ⟨hne, hc⟩ := not_or.mp (mt List.mem_cons.mpr hc)
    have hcell : (s.store.newCell h none).cells c = s.store.cells c := update_of_ne hne ..
    rw [hcell] at halive ⊢
    exact hinv.tracking c halive hc
  · rcases List.mem_cons.mp hv with rfl | hv
    · exact Nat.lt_irrefl _ (hinv.lt _ (List.mem_append_left _ hc))
    · exact hinv.apart c hc hv
  · rcases List.mem_append.mp hc with hc | hc
    · exact (hinv.lt c (List.mem_append_left _ hc)).trans (Nat.lt_succ_self _)
    · rcases List.mem_cons.mp hc with rfl | hc
      · exact Nat.lt_succ_self _
      · exact (hinv.lt c (List.mem_append_right _ hc)).trans (Nat.lt_succ_self _)

/-- A step that makes a further handle like one that tracks its bean. -/
theorem of_newCell_retain (hinv : Inv s) {h : Handle} {owner : Option ObjectId}
    {u : Prototype.State} (hstore : Prototype.Inv none none u []) (hh : ¬Untracked h)
    (hu : (s.store.newCell h owner).retainIfPrototype h = u) (ht : t.store = u)
    (hothers : ∀ c ∈ t.others, c ∈ s.others ∨ c = s.store.nextCell) (hviews : t.views = s.views) :
    Inv t := by
  have hmade : NoneMade s.store u := hu ▸ .newCell_retain hh
  have hnext : s.store.nextCell < u.nextCell := by
    have hretain := (Fades.retainIfPrototype (s := s.store.newCell h owner) (h := h)).nextCell
    rw [hu] at hretain
    exact (Nat.lt_succ_self _).trans_eq hretain.symm
  subst ht
  refine hinv.of_noneMade hstore hmade (fun c hc => ?_) (fun c hc => hviews ▸ hc)
    fun c hc hc' => absurd hc (hviews ▸ hc')
  exact (hothers c hc).imp_right fun hc => ⟨hc, hnext⟩

theorem step {a : Action} (hinv : Inv s) (hG : UncopiedViews s a) (hs : machine.step s a = some t) :
    Inv t := by
  obtain ⟨hen, hs⟩ := Option.ite_none_right_eq_some.mp hs
  obtain ⟨u, hu, rfl⟩ := Option.map_eq_some_iff.mp hs
  have hstore : Prototype.Inv none none u [] := hinv.store.step hG.1 hu
  have htracking : ∀ c, (s.store.cells c).alive → c ∈ s.events →
      ¬Untracked (s.store.cells c).handle := fun c halive hc =>
    hinv.tracking c halive (hinv.apart c (List.mem_append_left _ hc))
  -- By the event or operation of the listener; the store itself keeps its invariant.
  cases a with
  | handle a =>
    obtain ⟨hops, hnew⟩ := Bool.and_eq_true_iff.mp hen
    have hmade : NoneMade s.store u := by
      refine noneMade_step hinv.store (fun c hc halive => ?_) ?_ hu
      · have hnot := List.all_eq_true.mp hops c hc
        exact hinv.tracking c halive fun hv => by simp [hv] at hnot
      · rintro h owner rfl hh
        exact hh.1 (by simpa using hnew)
    exact hinv.of_noneMade hstore hmade (fun c hc => .inl hc) (fun c hc => hc)
      fun c hc hc' => absurd hc hc'
  -- A copy of a view would make an untracked handle; the guard excludes it.
  | beginEvent c =>
    have hview : c ∉ s.views := by
      simp only [State.enabled, List.mem_append, not_or, decide_eq_true_eq] at hen
      exact hen.1.2
    obtain ⟨⟨halive, -⟩, hu⟩ := Option.ite_none_right_eq_some.mp hu
    refine hinv.of_newCell_retain hstore (hinv.tracking c halive hview) (Option.some.inj hu) rfl
      (fun b hb => ?_) rfl
    rcases List.mem_cons.mp hb with hb | hb
    · exact .inr hb
    · exact .inl hb
  | beginTyped e =>
    simp only [State.operation, Prototype.State.step, Option.ite_none_right_eq_some,
      Option.some.injEq] at hu
    obtain ⟨⟨hproto, -⟩, rfl⟩ := hu
    exact hinv.beginTyped (by simpa using hproto)
  -- The copy for a typed view is the exception, and the guard of the step.
  | copyBean v owner => exact absurd rfl hG.2
  | copyAnyBean e owner =>
    obtain ⟨⟨halive, -⟩, hu⟩ := Option.ite_none_right_eq_some.mp hu
    refine hinv.of_newCell_retain hstore (htracking e halive (by simpa [State.enabled] using hen))
      (Option.some.inj hu) rfl (fun b hb => ?_) rfl
    simpa [State.others, State.note, or_assoc, or_comm, or_left_comm] using hb
  | castAnyBean e target owner =>
    obtain ⟨⟨halive, -⟩, hu⟩ := Option.ite_none_right_eq_some.mp hu
    have hcast : ¬Untracked (castHandle (s.store.cells e).handle target) :=
      htracking e halive (by simpa [State.enabled] using hen)
    refine hinv.of_newCell_retain hstore hcast (Option.some.inj hu) rfl (fun b hb => ?_) rfl
    simpa [State.others, State.note, or_assoc, or_comm, or_left_comm] using hb
  | endTyped v =>
    obtain ⟨-, hu⟩ := Option.ite_none_right_eq_some.mp hu
    obtain rfl := Option.some.inj hu
    refine hinv.of_noneMade hstore (.of_fades .destroy) (fun c hc => .inl hc)
      (fun c hc => (List.mem_filter.mp hc).1) fun c hc hc' => ?_
    obtain rfl : c = v := by simpa [State.note, hc] using hc'
    exact dead_destroy
  | endEvent e =>
    obtain ⟨-, hu⟩ := Option.ite_none_right_eq_some.mp hu
    obtain rfl := Option.some.inj hu
    refine hinv.of_noneMade hstore (.of_fades .destroy) (fun c hc => .inl ?_) (fun c hc => hc)
      fun c hc hc' => absurd hc hc'
    rcases List.mem_append.mp hc with hc | hc
    · exact List.mem_append_left _ (List.mem_filter.mp hc).1
    · exact List.mem_append_right _ hc

end Inv

/-- A simple way to meet the condition, as for `Careful`. -/
def BetweenVariables (s : State) (a : Action) : Prop :=
  Prototype.BetweenVariables s.store (s.operation a) ∧ ¬a.copiesView

instance (s : State) (a : Action) : Decidable (BetweenVariables s a) :=
  inferInstanceAs (Decidable (_ ∧ _))

theorem uncopiedViews_of_betweenVariables (s : State) (a : Action) (h : BetweenVariables s a) :
    UncopiedViews s a :=
  ⟨careful_of_betweenVariables _ _ h.1, h.2⟩

/-- A prototype is created, with the handle `0`, and its event `1` begins. -/
def creation : List Action :=
  [.handle (.allocate 7), .handle (.activate 0 [] true), .beginEvent 0]

/-- A global listener keeps the prototype, which goes with its copy. -/
def globalListener : List Action :=
  creation ++ [.copyAnyBean 1 none, .endEvent 1, .handle (.destroy 0), .handle (.destroy 2)]

end Ctorium.Keeping
