import Ctorium.Prototype.Invariant

/-!
# The reference counts are exact

`CountsExact` says that the count of every live slot is the number of handles that
track it, that a bean is destroyed once, when the last such handle goes, and that
no destroyed handle is used. It holds in every state reached by a sequence of
operations that all meet `Careful`:

* an assignment does not release its own operands: neither operand lies in a bean
  that goes with the destination's bean (`Doomed`);
* no hook or listener throws while a prototype is materialized;
* fewer than `2 ^ 32 - 1` handles track a slot that is retained.

The assignments release the destination before they read the source, so that
`head = head->next` reads a handle in a destroyed bean (`assign_from_own_member`).

`Cascade` follows a release through all that it leads to: what it destroys is doomed.
-/

namespace Ctorium.Prototype

open Function State

variable {s s' s₀ : State} {stale : Option CellId} {ws : List Work} {c d : CellId} {i : SlotId}
  {o : ObjectId} {h : Handle}

/-! ## The property -/

/-- The cells with a handle that tracks the bean. -/
def State.namers (s : State) (o : ObjectId) : Finset CellId :=
  {c ∈ Finset.range s.nextCell | (s.cells c).alive ∧ (s.cells c).handle.isPrototype ∧
    (s.cells c).handle.object = some o}

structure CountsExact (s : State) : Prop where
  /-- The count of a live slot is the number of its handles. -/
  refcount : ∀ i o, (s.slots i).memory = some o → (s.objects o).state = .active →
    (s.slots i).refcount = (s.handles none i).card
  /-- A bean with a handle has not been destroyed, -/
  kept : ∀ o, (s.objects o).state = .active → 0 < (s.namers o).card ∧ o ∉ s.lifecycles
  /-- and one without has been, once. -/
  destroyed : ∀ o, (s.objects o).state = .destroyed →
    (s.namers o).card = 0 ∧ s.lifecycles.count o = 1
  /-- No operation used a destroyed handle. -/
  alive : s.dangling = false

/-- The beans that go when the handle in the cell is released: every other handle
    to them is a member of such a bean. -/
inductive Doomed (s : State) (d : CellId) : ObjectId → Prop
  | intro {o : ObjectId} (hactive : (s.objects o).state = .active)
    (howned : ∀ c, (s.cells c).alive → (s.cells c).handle.isPrototype →
      (s.cells c).handle.object = some o → c ≠ d → (s.cells c).owner ≠ none)
    (hdoomed : ∀ c o', (s.cells c).alive → (s.cells c).handle.isPrototype →
      (s.cells c).handle.object = some o → c ≠ d → (s.cells c).owner = some o' → Doomed s d o') :
    Doomed s d o

/-- The cell does not go with the bean of the destination `d`. -/
def Survives (s : State) (d c : CellId) : Prop :=
  ∀ o, (s.cells c).owner = some o → ¬Doomed s d o

/-- A further handle like this one can be counted. -/
def Countable (s : State) (stale : Option CellId) (h : Handle) : Prop :=
  h.isPrototype → (s.handles stale h.slot).card < 2 ^ 32 - 1

/-- The condition on the operations. -/
def Careful (s : State) : Action → Prop
  | .activate _ _ returned => returned
  | .copy c _ | .cast c (some _) _ => Countable s none (s.cells c).handle
  | .copyAssign d c => d = c ∨
    Survives s d c ∧ Survives s d d ∧ Countable s (some d) (s.cells c).handle
  | .moveAssign d c => d = c ∨ Survives s d c ∧ Survives s d d
  | _ => True

/-! ## What a release destroys -/

/-- The state `s` in the middle of the release of the handle in the cell `d`, begun in
    the state `s₀`: what is gone, or about to go, is doomed. -/
structure Cascade (s₀ : State) (d : CellId) (s : State) (ws : List Work) : Prop where
  cell : ∀ c, (s.cells c).handle = (s₀.cells c).handle ∧ (s.cells c).owner = (s₀.cells c).owner
  dead : ∀ c, (s₀.cells c).alive → ¬(s.cells c).alive →
    ∃ o, (s₀.cells c).owner = some o ∧ Doomed s₀ d o
  work : ∀ c, .destroyCell c ∈ ws → ∃ o, (s₀.cells c).owner = some o ∧ Doomed s₀ d o
  active : ∀ o, s.stateOf o = .active → s₀.stateOf o = .active
  alive : ∀ c, (s.cells c).alive → (s₀.cells c).alive
  nextCell : s.nextCell = s₀.nextCell

namespace Cascade

theorem refl (s : State) (d : CellId) : Cascade s d s [] where
  cell _ := ⟨rfl, rfl⟩
  dead _ halive hdead := absurd halive hdead
  work := nofun
  active _ := id
  alive _ := id
  nextCell := rfl

theorem kill (hcas : Cascade s₀ d s (.destroyCell c :: ws)) : Cascade s₀ d (s.kill c) ws := by
  have hother : ∀ b, b ≠ c → (s.kill c).cells b = s.cells b := fun b hb => update_of_ne hb ..
  refine ⟨?_, ?_, fun b hw => hcas.work b (List.mem_cons_of_mem _ hw), hcas.active, ?_,
    hcas.nextCell⟩
  · intro b
    by_cases hb : b = c
    · subst hb
      simpa [State.kill] using hcas.cell b
    · rw [hother b hb]
      exact hcas.cell b
  · intro b halive hdead
    by_cases hb : b = c
    · exact hb ▸ hcas.work c List.mem_cons_self
    · rw [hother b hb] at hdead
      exact hcas.dead b halive hdead
  · intro b halive
    by_cases hb : b = c
    · subst hb
      simp [State.kill] at halive
    · rw [hother b hb] at halive
      exact hcas.alive b halive

/-- A bean whose last reference is in flight is doomed: its other handles were
    members of doomed beans. -/
theorem doomed (hcas : Cascade s₀ d s ws) (hinv : Inv (some d) (some i) s ws)
    (hmem : s.memoryAt i = some o) (hactive : s.stateOf o = .active)
    (heq : (s.slots i).refcount = 1) : Doomed s₀ d o := by
  -- The one handle that is counted is the one being destroyed.
  have hnone : s.handles (some d) i = ∅ := by
    have hrefcount := hinv.counts.refcount i o hmem hactive
    rw [if_pos rfl, heq] at hrefcount
    exact Finset.card_eq_zero.mp (by omega)
  -- Any other handle to the object was there at the beginning and has died with its bean.
  have hgone : ∀ c, (s₀.cells c).alive → (s₀.cells c).handle.isPrototype →
      (s₀.cells c).handle.object = some o → c ≠ d →
      ∃ o', (s₀.cells c).owner = some o' ∧ Doomed s₀ d o' := by
    intro c halive hproto hobj hne
    refine hcas.dead c halive fun halive' => ?_
    have hne' : some c ≠ some d := fun he => hne (Option.some.inj he)
    rw [← (hcas.cell c).1] at hproto hobj
    obtain ⟨o', hobj', hmem', -⟩ := hinv.counts.tracked c halive' hne' hproto
    obtain rfl : o = o' := Option.some.inj (hobj.symm.trans hobj')
    have : c ∈ s.handles (some d) i := mem_handles.mpr ⟨hinv.cells.lt c halive', hne', halive',
      hproto, hinv.slots.memory_inj _ _ _ hmem' hmem⟩
    rw [hnone] at this
    exact Finset.notMem_empty c this
  refine .intro (hcas.active o hactive) ?_ ?_
  · intro c halive hproto hobj hne
    obtain ⟨o', ho', -⟩ := hgone c halive hproto hobj hne
    rw [ho']
    exact nofun
  · intro c o' halive hproto hobj hne ho'
    obtain ⟨o'', ho'', hdoomed⟩ := hgone c halive hproto hobj hne
    exact Option.some.inj (ho''.symm.trans ho') ▸ hdoomed

/-- A release leaves members of doomed beans to do. -/
theorem release (hcas : Cascade s₀ d s ws) (hinv : Inv (some d) (some i) s ws)
    (hmem : s.memoryAt i = some o) (hactive : s.stateOf o = .active) :
    Cascade s₀ d (s.release i).1 ((s.release i).2 ++ ws) := by
  by_cases heq : (s.slots i).refcount = 1
  · have hdoomed := hcas.doomed hinv hmem hactive heq
    have hlast := State.release_last hmem heq
    refine ⟨by rw [hlast.cells]; exact hcas.cell, by rw [hlast.cells]; exact hcas.dead, ?_, ?_,
      by rw [hlast.cells]; exact hcas.alive, by rw [hlast.nextCell]; exact hcas.nextCell⟩
    · intro c hw
      rw [List.mem_append, hlast.more] at hw
      rcases hw with hw | hw
      · have hmember : c ∈ (s.objects o).members := by simpa using hw
        refine ⟨o, ?_, hdoomed⟩
        rw [← (hcas.cell c).2]
        exact (hinv.cells.member o hactive c hmember).2.1
      · exact hcas.work c hw
    · intro o' hact
      refine hcas.active o' ?_
      by_cases ho' : o' = o
      · exact ho' ▸ hactive
      · rw [State.stateOf, hlast.objects, update_of_ne ho'] at hact
        exact hact
  · rw [State.release_not_last heq]
    exact ⟨hcas.cell, hcas.dead, hcas.work, hcas.active, hcas.alive, hcas.nextCell⟩

end Cascade

/-- The middle of a release: with a stale destination, that of an assignment from `s₀`
    that its own release spares. -/
structure Releasing (s₀ : State) (stale : Option CellId) (s : State) (ws : List Work) : Prop where
  inv : Inv stale none s ws
  cascade : ∀ d, stale = some d → Cascade s₀ d s ws
  spared : ∀ d, stale = some d → Survives s₀ d d

/-- The reference in flight is released. -/
theorem Releasing.of_release (hinv : Inv stale (some i) s ws)
    (hcas : ∀ d, stale = some d → Cascade s₀ d s ws)
    (hspared : ∀ d, stale = some d → Survives s₀ d d)
    (hmem : s.memoryAt i = some o) (hactive : s.stateOf o = .active) :
    Releasing s₀ stale (s.release i).1 ((s.release i).2 ++ ws) := by
  refine ⟨?_, ?_, hspared⟩
  · by_cases heq : (s.slots i).refcount = 1
    · refine hinv.release_of_eq hmem hactive heq ?_
      rintro d rfl howner
      rw [((hcas d rfl).cell d).2] at howner
      exact hspared d rfl o howner ((hcas d rfl).doomed hinv hmem hactive heq)
    · exact hinv.release_of_ne hmem hactive heq
  · rintro d rfl
    exact (hcas d rfl).release hinv hmem hactive

/-- An item of work is done. -/
theorem Releasing.perform {w : Work} (hr : Releasing s₀ stale s (w :: ws)) :
    Releasing s₀ stale (s.perform w).1 ((s.perform w).2 ++ ws) := by
  cases w with
  | destroyCell c =>
    have hkill := hr.inv.kill
    obtain ⟨halive, hstale⟩ := hr.inv.cells.work c List.mem_cons_self
    rw [State.perform_destroyCell]
    split
    · rename_i hproto
      obtain ⟨o, -, hmem, hactive⟩ := hr.inv.counts.tracked c halive hstale hproto
      rw [Handle.tracking, if_pos hproto] at hkill
      exact .of_release hkill (fun d hd => (hr.cascade d hd).kill) hr.spared hmem hactive
    · rename_i hproto
      rw [Handle.tracking, if_neg hproto] at hkill
      exact ⟨hkill, fun d hd => (hr.cascade d hd).kill, hr.spared⟩
  | reclaimSlot i =>
    refine ⟨hr.inv.reclaimSlot, fun d hd => ?_, hr.spared⟩
    obtain ⟨hcell, hdead, hwork, hactive, halive, hnext⟩ := hr.cascade d hd
    exact ⟨hcell, hdead, fun c hw => hwork c (List.mem_cons_of_mem _ hw), hactive, halive, hnext⟩

/-- One term of a sum changes. -/
theorem sum_range_update {β : Type*} (w : β → ℕ) (f : ℕ → β) (b : β) {k n : ℕ}
    (hk : k ∈ Finset.range n) :
    ∑ j ∈ Finset.range n, w (f j) + w b = w (f k) + ∑ j ∈ Finset.range n, w (update f k b j) := by
  have hrest : ∑ j ∈ (Finset.range n).erase k, w (update f k b j) =
      ∑ j ∈ (Finset.range n).erase k, w (f j) :=
    Finset.sum_congr rfl fun j hj => by rw [update_of_ne (Finset.ne_of_mem_erase hj)]
  have hbefore := Finset.add_sum_erase _ (fun j => w (f j)) hk
  have hafter := Finset.add_sum_erase _ (fun j => w (update f k b j)) hk
  simp only [update_self] at hafter
  omega

/-- Every item of work brings the end of a release nearer. -/
theorem Releasing.workBound_lt {w : Work} (hr : Releasing s₀ stale s (w :: ws)) :
    (s.perform w).1.workBound ((s.perform w).2 ++ ws) < s.workBound (w :: ws) := by
  cases w with
  | destroyCell c =>
    obtain ⟨halive, hstale⟩ := hr.inv.cells.work c List.mem_cons_self
    rw [State.perform_destroyCell]
    split
    · rename_i hproto
      obtain ⟨o, -, hmem, hactive⟩ := hr.inv.counts.tracked c halive hstale hproto
      have hmem' : (s.kill c).memoryAt (s.cells c).handle.slot = some o := hmem
      by_cases heq : ((s.kill c).slots (s.cells c).handle.slot).refcount = 1
      · have hlast := State.release_last hmem' heq
        have hlt : o ∈ Finset.range s.nextObject :=
          Finset.mem_range.mpr (hr.inv.history.lt o (by rw [hactive]; exact nofun))
        -- The weight of the bean pays for its members and its slot.
        have hsum := sum_range_update Object.weight s.objects
          ⟨.destroyed, (s.objects o).members⟩ hlt
        have hgone : Object.weight ⟨.destroyed, (s.objects o).members⟩ = 0 := rfl
        have hpaid : Object.weight (s.objects o) = 2 * (s.objects o).members.length + 2 :=
          if_pos hactive
        have hcells : ((s.objects o).members.reverse.map Work.destroyCell).map Work.weight =
            List.replicate (s.objects o).members.length 2 := by
          rw [List.map_map, ← List.length_reverse, ← List.map_const]
          rfl
        have hobjects : ((s.kill c).objects) = s.objects := rfl
        have hnext : ((s.kill c).nextObject) = s.nextObject := rfl
        simp only [workBound, hlast.objects, hlast.nextObject, hlast.more, hobjects, hnext,
          List.map_append, List.map_cons, List.map_nil, List.sum_append,
            List.sum_cons, List.sum_nil,
          hcells, List.sum_replicate_nat, Work.weight]
        omega
      · rw [State.release_not_last heq]
        simp [workBound, Work.weight, State.kill, State.setSlot]
    · simp [workBound, Work.weight, State.kill]
  | reclaimSlot i =>
    simp [workBound, Work.weight, State.perform, State.reclaimSlot, State.setSlot]

/-- A release comes to its end. -/
theorem Releasing.drain (hr : Releasing s₀ stale s ws) : Releasing s₀ stale (s.drain ws) [] :=
  Worklist.drain_invariant (fun _ _ _ hr => hr.perform) (fun _ _ _ hr => hr.workBound_lt) hr
    (Nat.lt_succ_self _)

/-! ## The operations -/

namespace Inv

/-- Between operations, the handle of a living cell finds its bean. -/
theorem tracked (hinv : Inv none none s []) (halive : (s.cells c).alive) :
    Tracked s (s.cells c).handle := hinv.counts.tracked c halive nofun

/-- A reference for a further handle like one that is there. -/
theorem retainIfPrototype (hinv : Inv stale none s ws) (ht : Tracked s h)
    (hlt : Countable s stale h) : Inv stale h.tracking (s.retainIfPrototype h) ws := by
  unfold State.retainIfPrototype Handle.tracking
  split
  · rename_i hproto
    obtain ⟨o, -, hmem, hactive⟩ := ht hproto
    refine ⟨hinv.cells, ?_, hinv.counts.retain hmem hactive (hlt hproto), hinv.history, hinv.nodup,
      hinv.alive⟩
    rw [State.retain_memoryAt]
    exact hinv.slots
  · exact hinv

theorem newCell_comm {owner : Option ObjectId} {h' : Handle} :
    (s.newCell h owner).retainIfPrototype h' = (s.retainIfPrototype h').newCell h owner := by
  unfold State.retainIfPrototype
  split <;> rfl

theorem tracked_retainIfPrototype {h' : Handle} (ht : Tracked s h) :
    Tracked (s.retainIfPrototype h') h := by
  unfold State.retainIfPrototype
  split
  · intro hproto
    rw [State.retain_memoryAt]
    exact ht hproto
  · exact ht

theorem ownerOk_retainIfPrototype {owner : Option ObjectId} (howner : s.ownerOk owner) :
    (s.retainIfPrototype h).ownerOk owner := by
  unfold State.retainIfPrototype
  split
  · cases owner <;> exact howner
  · exact howner

/-- A further handle like one that is there, in a new cell. -/
theorem newCell_retain {owner : Option ObjectId} (hinv : Inv none none s [])
    (howner : s.ownerOk owner) (ht : Tracked s h) (hlt : Countable s none h) :
    Inv none none ((s.newCell h owner).retainIfPrototype h) [] := by
  rw [newCell_comm]
  exact (hinv.retainIfPrototype ht hlt).newCell nofun (ownerOk_retainIfPrototype howner)
    (tracked_retainIfPrototype ht)

theorem copy {owner : Option ObjectId} (hinv : Inv none none s []) (halive : (s.cells c).alive)
    (howner : s.ownerOk owner) (hlt : Countable s none (s.cells c).handle) :
    Inv none none (s.copy c owner) [] :=
  hinv.newCell_retain howner (hinv.tracked halive) hlt

theorem cast {owner : Option ObjectId} {target : Option DescriptorId} (hinv : Inv none none s [])
    (halive : (s.cells c).alive) (howner : s.ownerOk owner)
    (hcareful : Careful s (.cast c target owner)) : Inv none none (s.cast c target owner) [] := by
  cases target with
  | none => exact hinv
  | some d => exact hinv.newCell_retain howner (hinv.tracked halive) hcareful

theorem construct {owner : Option ObjectId} (hinv : Inv none none s [])
    (hproto : ¬h.isPrototype) (howner : s.ownerOk owner) :
    Inv none none (s.newCell h owner) [] := by
  refine Inv.newCell ?_ nofun howner fun hp => absurd hp hproto
  rw [Handle.tracking, if_neg hproto]
  exact hinv

theorem move {owner : Option ObjectId} (hinv : Inv none none s []) (halive : (s.cells c).alive)
    (howner : s.ownerOk owner) : Inv none none (s.move c owner) [] := by
  have hne : c ≠ s.nextCell := fun he => Nat.lt_irrefl _ (he ▸ hinv.cells.lt c halive)
  have hcomm : s.move c owner = (s.setHandle c {}).newCell (s.cells c).handle owner := by
    simp only [State.move, State.setHandle, State.newCell]
    rw [update_comm hne, update_of_ne hne]
  rw [hcomm]
  exact (hinv.takeHandle halive (by rintro ⟨⟩)).newCell (by rintro _ ⟨⟩)
    (by cases owner <;> exact howner)
    (hinv.tracked halive)

/-- The release of the handle of a destination that its own release spares. -/
theorem releasing (hinv : Inv none none s []) (hd : (s.cells d).alive) (hspared : Survives s d d)
    (hproto : (s.cells d).handle.isPrototype) :
    Releasing s (some d) (s.release (s.cells d).handle.slot).1
      (s.release (s.cells d).handle.slot).2 := by
  have hstale := hinv.makeStale hd List.not_mem_nil
  obtain ⟨o, -, hmem, hactive⟩ := hinv.tracked hd hproto
  rw [Handle.tracking, if_pos hproto] at hstale
  have hrel : Releasing s (some d) (s.release (s.cells d).handle.slot).1
      ((s.release (s.cells d).handle.slot).2 ++ []) :=
    .of_release hstale (fun e he => Option.some.inj he ▸ Cascade.refl s d)
      (fun e he => Option.some.inj he ▸ hspared) hmem hactive
  rwa [List.append_nil] at hrel

/-- The first half of an assignment: the handle of the destination is released, and
    the operands are still there. -/
theorem releaseIfPrototype (hinv : Inv none none s []) (hd : (s.cells d).alive)
    (hspared : Survives s d d) :
    Inv (some d) none (s.releaseIfPrototype (s.cells d).handle) [] ∧
      Cascade s d (s.releaseIfPrototype (s.cells d).handle) [] := by
  unfold State.releaseIfPrototype
  split
  · rename_i hproto
    have hrel := (hinv.releasing hd hspared hproto).drain
    exact ⟨hrel.inv, hrel.cascade d rfl⟩
  · rename_i hproto
    have hstale := hinv.makeStale hd List.not_mem_nil
    rw [Handle.tracking, if_neg hproto] at hstale
    exact ⟨hstale, Cascade.refl s d⟩

end Inv

/-- A cell that survives is there after the release. -/
theorem Cascade.alive_of_survives (hcas : Cascade s₀ d s []) (halive : (s₀.cells c).alive)
    (hsurvives : Survives s₀ d c) : (s.cells c).alive := by
  by_contra hdead
  obtain ⟨o, ho, hdoomed⟩ := hcas.dead c halive hdead
  exact hsurvives o ho hdoomed

/-- A release makes no handles. -/
theorem Cascade.countable (hcas : Cascade s₀ d s []) (hlt : Countable s₀ (some d) h) :
    Countable s (some d) h := by
  intro hproto
  refine Nat.lt_of_le_of_lt (Finset.card_le_card fun c hc => ?_) (hlt hproto)
  rw [mem_handles] at hc ⊢
  rw [hcas.nextCell, (hcas.cell c).1] at hc
  exact ⟨hc.1, hc.2.1, hcas.alive c hc.2.2.1, hc.2.2.2⟩

theorem State.setDangling_eq {b : Bool} (hb : s.dangling = b) : { s with dangling := b } = s := by
  subst hb
  rfl

theorem State.retainIfPrototype_dangling : (s.retainIfPrototype h).dangling = s.dangling := by
  unfold State.retainIfPrototype
  split <;> rfl

namespace Inv

theorem copyAssign (hinv : Inv none none s []) (hd : (s.cells d).alive) (hc : (s.cells c).alive)
    (hcareful : Careful s (.copyAssign d c)) : Inv none none (s.copyAssign d c) [] := by
  unfold State.copyAssign
  split
  · exact hinv
  · rename_i hne
    obtain ⟨hsrc, hdst, hlt⟩ := hcareful.resolve_left hne
    obtain ⟨hrel, hcas⟩ := hinv.releaseIfPrototype hd hdst
    have hc' := hcas.alive_of_survives hc hsrc
    have hd' := hcas.alive_of_survives hd hdst
    rw [← (hcas.cell c).1] at hlt
    simp only
    generalize s.releaseIfPrototype (s.cells d).handle = s' at *
    have ht := hrel.counts.tracked c hc' fun he => hne (Option.some.inj he).symm
    have hret := hrel.retainIfPrototype ht (hcas.countable hlt)
    generalize (s'.cells c).handle = h at *
    have hcomm : (s'.setHandle d h).retainIfPrototype h =
      (s'.retainIfPrototype h).setHandle d h := by
      unfold State.retainIfPrototype
      split <;> rfl
    rw [State.setDangling_eq, hcomm]
    · refine hret.assign ?_ (tracked_retainIfPrototype ht)
      unfold State.retainIfPrototype
      split <;> exact hd'
    · rw [State.retainIfPrototype_dangling, hc', hd']
      simp [State.setHandle]

theorem moveAssign (hinv : Inv none none s []) (hd : (s.cells d).alive) (hc : (s.cells c).alive)
    (hcareful : Careful s (.moveAssign d c)) : Inv none none (s.moveAssign d c) [] := by
  unfold State.moveAssign
  split
  · exact hinv
  · rename_i hne
    obtain ⟨hsrc, hdst⟩ := hcareful.resolve_left hne
    obtain ⟨hrel, hcas⟩ := hinv.releaseIfPrototype hd hdst
    have hc' := hcas.alive_of_survives hc hsrc
    have hd' := hcas.alive_of_survives hd hdst
    simp only
    generalize s.releaseIfPrototype (s.cells d).handle = s' at *
    have hstale : some c ≠ some d := fun he => hne (Option.some.inj he).symm
    have ht := hrel.counts.tracked c hc' hstale
    have htake := hrel.takeHandle hc' hstale
    have hcomm : (s'.setHandle d (s'.cells c).handle).setHandle c {} =
        (s'.setHandle c {}).setHandle d (s'.cells c).handle := by
      simp only [State.setHandle, update_of_ne hne, update_of_ne (Ne.symm hne)]
      rw [update_comm hne]
    rw [State.setDangling_eq, hcomm]
    · refine htake.assign ?_ ht
      simpa [State.setHandle, hne] using hd'
    · rw [hc', hd']
      simp [State.setHandle]

/-- A handle is taken out of its bean to be destroyed. -/
theorem unlink (hinv : Inv none none s []) (halive : (s.cells c).alive)
    {objects : ObjectId → Object} (hstate : ∀ o, (objects o).state = (s.objects o).state)
    (hmembers : ∀ o b, (s.objects o).state = .active →
      (b ∈ (objects o).members ↔ b ∈ (s.objects o).members ∧ b ≠ c))
    (hnodup : ∀ o, (s.objects o).members.Nodup → (objects o).members.Nodup) :
    Inv none none { s with objects := objects } [.destroyCell c] := by
  have hstateOf : ({ s with objects := objects } : State).stateOf = s.stateOf := funext hstate
  refine ⟨⟨hinv.cells.lt, ?_, ?_, ?_, ?_⟩, ?_, ?_, ?_, List.nodup_singleton _, hinv.alive⟩
  · intro b o hb ho
    by_cases hbc : b = c
    · exact .inr (hbc ▸ List.mem_cons_self)
    · obtain ⟨hactive, hmem⟩ := (hinv.cells.owned b o hb ho).resolve_right List.not_mem_nil
      exact .inl ⟨(hstate o).trans hactive, (hmembers o b hactive).mpr ⟨hmem, hbc⟩⟩
  · intro o hactive b hmem
    have hactive' := (hstate o).symm.trans hactive
    obtain ⟨hmem, hbc⟩ := (hmembers o b hactive').mp hmem
    obtain ⟨hb, ho, -⟩ := hinv.cells.member o hactive' b hmem
    exact ⟨hb, ho, by simpa using hbc⟩
  · exact fun o hactive => hnodup o (hinv.cells.members_nodup o ((hstate o).symm.trans hactive))
  · intro b hw
    obtain rfl : b = c := Work.destroyCell.inj (List.mem_singleton.mp hw)
    exact ⟨halive, nofun⟩
  · rw [hstateOf]
    obtain ⟨hlt, hle, hobject, hinj, hslot, hfree, hfreelist, -⟩ := hinv.slots
    exact ⟨hlt, hle, hobject, hinj, hslot, hfree, hfreelist, by simp⟩
  · exact hinv.counts.transfer rfl hstateOf hinv.counts.tracked fun _ => rfl
  · rw [hstateOf]
    exact hinv.history

/-- The destructor of a handle takes it out of the bean that it is a member of, if there is one,
    and leaves the rest to the worklist. -/
theorem exists_destroy_eq (hinv : Inv none none s []) (halive : (s.cells c).alive) :
    ∃ objects : ObjectId → Object, (∀ o, (objects o).state = (s.objects o).state) ∧
      s.destroy c = { s with objects := objects }.drain [.destroyCell c] ∧
        Inv none none { s with objects := objects } [.destroyCell c] := by
  have howner : ∀ o, (s.objects o).state = .active → c ∈ (s.objects o).members →
      (s.cells c).owner = some o := fun o hactive hmem => (hinv.cells.member o hactive c hmem).2.1
  cases ho : (s.cells c).owner with
  | none =>
    refine ⟨s.objects, fun _ => rfl, by simp only [State.destroy, ho], ?_⟩
    refine hinv.unlink halive (fun _ => rfl) (fun o b hactive => ?_) fun _ => id
    refine ⟨fun hmem => ⟨hmem, ?_⟩, And.left⟩
    rintro rfl
    exact absurd (howner o hactive hmem) (by rw [ho]; rintro ⟨⟩)
  | some o' =>
    have hstate : ∀ o, ((update s.objects o' { s.objects o' with
        members := (s.objects o').members.filter (· ≠ c) }) o).state = (s.objects o).state := by
      intro o
      by_cases he : o = o'
      · subst he
        simp
      · simp [he]
    refine ⟨_, hstate, by simp only [State.destroy, ho], ?_⟩
    refine hinv.unlink halive hstate (fun o b hactive => ?_) fun o hnodup => ?_
    · by_cases he : o = o'
      · subst he
        simp
      · simp only [update_of_ne he]
        refine ⟨fun hmem => ⟨hmem, ?_⟩, And.left⟩
        rintro rfl
        exact he (Option.some.inj ((howner o hactive hmem).symm.trans ho))
    · by_cases he : o = o'
      · subst he
        simpa using hnodup.filter _
      · simpa [he] using hnodup

theorem destroy (hinv : Inv none none s []) (halive : (s.cells c).alive) :
    Inv none none (s.destroy c) [] := by
  obtain ⟨objects, -, hdestroy, hunlink⟩ := hinv.exists_destroy_eq halive
  have hrel : Releasing s none _ _ := ⟨hunlink, (by rintro _ ⟨⟩), (by rintro _ ⟨⟩)⟩
  exact hdestroy ▸ hrel.drain.inv

/-! ### Materialization -/

/-- A slot without a bean gets one that is under construction. -/
theorem reserve {s' : State} (hinv : Inv none none s []) (hfree : s.memoryAt i = none)
    (hnot : i ∉ s'.freelist) (hlt : i < s'.slotCount) (hle : s'.slotCount ≤ kMaxSlots)
    (hcount : s.slotCount ≤ s'.slotCount) (hsub : s'.freelist.Sublist s.freelist)
    (hcells : s'.cells = s.cells) (hnextCell : s'.nextCell = s.nextCell)
    (hmemory : s'.memoryAt = update s.memoryAt i (some s.nextObject))
    (hrefcount : ∀ j, (s'.slots j).refcount = (s.slots j).refcount)
    (hobjects : s'.objects = update s.objects s.nextObject { state := .reserved })
    (hnext : s'.nextObject = s.nextObject + 1) (hlife : s'.lifecycles = s.lifecycles)
    (hdangling : s'.dangling = s.dangling) : Inv none none s' [] := by
  -- The object is reserved and not active, so no count speaks of it.
  have habsent : s.stateOf s.nextObject = .absent :=
    by_contra fun hne => Nat.lt_irrefl _ (hinv.history.lt _ hne)
  have hstate : s'.stateOf = update s.stateOf s.nextObject .reserved := by
    funext o
    by_cases ho : o = s.nextObject
    · subst ho
      simp [State.stateOf, hobjects]
    · simp [State.stateOf, hobjects, ho]
  have hactive : ∀ o, s'.stateOf o = .active ↔ s.stateOf o = .active := by
    intro o
    rw [hstate]
    by_cases ho : o = s.nextObject
    · simp [ho, habsent]
    · rw [update_of_ne ho]
  have hne : ∀ o, s.stateOf o = .active → o ≠ s.nextObject := by
    rintro o ho rfl
    rw [habsent] at ho
    cases ho
  refine ⟨?_, ?_, ?_, ?_, List.nodup_nil, hdangling.trans hinv.alive⟩
  · rw [hcells, hnextCell]
    refine hinv.cells.congr hactive fun o ho => ?_
    rw [hobjects, update_of_ne (hne o ho)]
  · rw [hmemory, hstate]
    exact hinv.slots.reserve hfree habsent hnot hlt hle hcount hsub
  · refine hinv.counts.congr hcells hnextCell hrefcount hactive fun j o ho => ?_
    rw [hmemory]
    by_cases hj : j = i
    · subst hj
      rw [update_self, hfree]
      exact ⟨fun he => absurd (Option.some.inj he).symm (hne o ho), (by rintro ⟨⟩)⟩
    · rw [update_of_ne hj]
  · rw [hstate, hnext, hlife]
    exact hinv.history.update (by rw [habsent]; rintro ⟨⟩) (by rintro ⟨⟩) (Nat.lt_succ_self _)
      (Nat.le_succ _)

theorem allocate {t : DescriptorId} (hinv : Inv none none s [])
    (hroom : s.freelist ≠ [] ∨ s.slotCount < kMaxSlots) : Inv none none (s.allocate t) [] := by
  have hset : ∀ (s₁ : State) (i : SlotId), s₁.slots = s.slots →
      (s₁.setSlot i { s₁.slots i with memory := some s.nextObject, descId := t }).memoryAt =
        update s.memoryAt i (some s.nextObject) ∧
      ∀ j, ((s₁.setSlot i { s₁.slots i with memory := some s.nextObject, descId := t }).slots
        j).refcount = (s.slots j).refcount := by
    intro s₁ i hslots
    refine ⟨funext fun j => ?_, fun j => ?_⟩
    all_goals
      by_cases hj : j = i
      · subst hj
        simp [State.memoryAt, State.setSlot, hslots]
      · simp [State.memoryAt, State.setSlot, hslots, hj]
  -- A slot of the free list, or the next one of the store; neither has memory in use.
  cases hfree : s.freelist with
  | nil =>
    have hlt : s.slotCount < kMaxSlots := hroom.resolve_left fun hne => hne hfree
    have hnone : s.memoryAt s.slotCount = none := by
      cases hmem : s.memoryAt s.slotCount with
      | none => rfl
      | some o => exact absurd (hinv.slots.lt _ o hmem) (Nat.lt_irrefl _)
    obtain ⟨hmemory, hrefcount⟩ := hset { s with slotCount := s.slotCount + 1 } s.slotCount rfl
    have hallocate : s.allocate t =
        { ({ s with slotCount := s.slotCount + 1 } : State).setSlot s.slotCount
            { s.slots s.slotCount with memory := some s.nextObject, descId := t } with
          objects := update s.objects s.nextObject { state := .reserved }
          nextObject := s.nextObject + 1 } := by
      simp [State.allocate, State.allocateSlot, hfree]
    rw [hallocate]
    exact hinv.reserve hnone (by simp [State.setSlot, hfree]) (Nat.lt_succ_self _) hlt
      (Nat.le_succ _) (List.Sublist.refl _) rfl rfl hmemory hrefcount rfl rfl rfl rfl
  | cons i rest =>
    obtain ⟨hnone, hlt⟩ := hinv.slots.free i (by rw [hfree]; exact List.mem_cons_self)
    have hnodup := hinv.slots.freelist_nodup
    rw [hfree, List.nodup_cons] at hnodup
    obtain ⟨hmemory, hrefcount⟩ := hset { s with freelist := rest } i rfl
    have hallocate : s.allocate t =
        { ({ s with freelist := rest } : State).setSlot i
            { s.slots i with memory := some s.nextObject, descId := t } with
          objects := update s.objects s.nextObject { state := .reserved }
          nextObject := s.nextObject + 1 } := by
      simp [State.allocate, State.allocateSlot, hfree]
    rw [hallocate]
    refine hinv.reserve hnone hnodup.1 hlt hinv.slots.le (Nat.le_refl _) ?_ rfl rfl hmemory
      hrefcount rfl rfl rfl rfl
    rw [hfree]
    exact List.sublist_cons_self i rest

theorem of_reservedAt (hres : s.reservedAt i = some o) :
    s.memoryAt i = some o ∧ s.stateOf o = .reserved := by
  simpa [State.reservedAt, State.memoryAt, State.stateOf, Option.filter_eq_some_iff] using hres

/-- The slot of a bean whose constructor threw is free again. -/
theorem abandon (hinv : Inv none none s []) (hres : s.reservedAt i = some o) :
    Inv none none (s.abandon i o) [] := by
  obtain ⟨hmem, hreserved⟩ := of_reservedAt hres
  have hmemory : (s.abandon i o).memoryAt = update s.memoryAt i none := by
    funext j
    by_cases hj : j = i
    · subst hj
      simp [State.memoryAt, State.abandon, State.reclaimSlot, State.setSlot]
    · simp [State.memoryAt, State.abandon, State.reclaimSlot, State.setSlot, hj]
  have hrefcount : ∀ j, ((s.abandon i o).slots j).refcount = (s.slots j).refcount := by
    intro j
    by_cases hj : j = i
    · subst hj
      simp [State.abandon, State.reclaimSlot, State.setSlot]
    · simp [State.abandon, State.reclaimSlot, State.setSlot, hj]
  have hstate : (s.abandon i o).stateOf = update s.stateOf o .absent := by
    funext o'
    by_cases ho : o' = o
    · subst ho
      simp [State.stateOf, State.abandon]
    · simp [State.stateOf, State.abandon, ho]
  have hne : ∀ o', s.stateOf o' = .active → o' ≠ o := by
    rintro o' ho rfl
    rw [hreserved] at ho
    cases ho
  -- Active objects are the same ones: the constructor of this object never ended.
  have hactive : ∀ o', (s.abandon i o).stateOf o' = .active ↔ s.stateOf o' = .active := by
    intro o'
    rw [hstate]
    by_cases ho : o' = o
    · simp [ho, hreserved]
    · rw [update_of_ne ho]
  refine ⟨?_, ?_, ?_, ?_, List.nodup_nil, hinv.alive⟩
  · exact hinv.cells.congr hactive fun o' ho => update_of_ne (hne o' ho) ..
  · rw [hmemory, hstate]
    refine Slots.reclaim (hinv.slots.clear hmem (by rintro ⟨⟩) fun j hj => ?_) List.not_mem_nil
    exact .inl (Work.reclaimSlot.inj (List.mem_singleton.mp hj))
  · refine hinv.counts.congr rfl rfl hrefcount hactive fun j o' ho => ?_
    rw [hmemory, hinv.slots.update_none_eq_some hmem]
    refine ⟨And.left, fun hj => ⟨hj, ?_, hne o' ho⟩⟩
    rintro rfl
    exact hne o' ho (Option.some.inj (hj.symm.trans hmem))
  · rw [hstate]
    exact hinv.history.update (by rw [hreserved]; rintro ⟨⟩) (by rintro ⟨⟩)
      (hinv.history.lt o (by rw [hreserved]; rintro ⟨⟩)) (Nat.le_refl _)

/-- A slot is activated with one reference, which the first handle takes over. -/
theorem activate {members : List CellId} (hinv : Inv none none s [])
    (hres : s.reservedAt i = some o) (hnodup : members.Nodup) (hvars : s.areVariables members) :
    Inv none none (s.activate i o members true) [] := by
  obtain ⟨hmem, hreserved⟩ := of_reservedAt hres
  have hvar : ∀ c ∈ members, (s.cells c).alive ∧ (s.cells c).owner = none := by
    intro c hc
    simpa [State.areVariables] using List.all_eq_true.mp hvars c hc
  let s₁ : State := { s.setSlot i { s.slots i with refcount := 1 } with
    cells := fun c => if c ∈ members then { s.cells c with owner := some o } else s.cells c
    objects := update s.objects o ⟨.active, members⟩ }
  have hmemory : s₁.memoryAt = s.memoryAt := by
    funext j
    by_cases hj : j = i
    · subst hj
      simp [s₁, State.memoryAt, State.setSlot]
    · simp [s₁, State.memoryAt, State.setSlot, hj]
  have hstate : s₁.stateOf = update s.stateOf o .active := by
    funext o'
    by_cases ho : o' = o
    · subst ho
      simp [s₁, State.stateOf]
    · simp [s₁, State.stateOf, ho]
  have hcell : ∀ c, (s₁.cells c).alive = (s.cells c).alive ∧
      (s₁.cells c).handle = (s.cells c).handle := by
    intro c
    by_cases hc : c ∈ members <;> simp [s₁, hc]
  have hnot : s.stateOf o ≠ .active := by
    rw [hreserved]
    rintro ⟨⟩
  -- The state before the first handle is made, whose count is one too high.
  have hinv₁ : Inv none (some i) s₁ [] := by
    refine ⟨hinv.cells.activate hnot hnodup hvar, ?_, ?_, ?_, List.nodup_nil, hinv.alive⟩
    · rw [hmemory, hstate]
      exact hinv.slots.activate hmem
    · exact hinv.counts.activate hinv.slots hmem hnot hmemory hstate hcell rfl
        (by simp [s₁, State.setSlot]) fun j hj => by simp [s₁, State.setSlot, hj]
    · rw [hstate]
      exact hinv.history.update (by rw [hreserved]; rintro ⟨⟩) (by rintro ⟨⟩)
        (hinv.history.lt o (by rw [hreserved]; rintro ⟨⟩)) (Nat.le_refl _)
  have hvalid : i ≠ kInvalidSlotId := by
    have hlt := Nat.lt_of_lt_of_le (hinv.slots.lt i o hmem) hinv.slots.le
    rintro rfl
    exact absurd hlt (by decide)
  have htracking : (⟨some o, i, (s.slots i).descId⟩ : Handle).tracking = some i :=
    Handle.tracking_eq_some.mpr ⟨by simp [Handle.isPrototype, hvalid], rfl⟩
  -- The handle is what was missing.
  refine Inv.newCell (s := s₁) (by rw [htracking]; exact hinv₁) (by rintro _ ⟨⟩) rfl fun _ => ?_
  exact ⟨o, rfl, by rw [hmemory]; exact hmem, by rw [hstate, update_self]⟩

theorem step {a : Action} (hinv : Inv none none s []) (hG : Careful s a)
    (hs : machine.step s a = some s') : Inv none none s' [] := by
  change s.step a = some s' at hs
  -- One case for each operation, each with the guard of its own.
  cases a with
  | allocate t =>
    simp only [State.step, Option.ite_none_right_eq_some, Option.some.injEq] at hs
    exact hs.2 ▸ hinv.allocate hs.1
  | abandon i =>
    simp only [State.step, Option.map_eq_some_iff] at hs
    obtain ⟨o, hres, rfl⟩ := hs
    exact hinv.abandon hres
  | activate i members returned =>
    simp only [State.step, Option.ite_none_right_eq_some, Option.map_eq_some_iff] at hs
    obtain ⟨⟨hnodup, hvars⟩, o, hres, rfl⟩ := hs
    have hreturned : returned = true := hG
    exact hreturned ▸ hinv.activate hres hnodup hvars
  | construct h owner =>
    simp only [State.step, Option.ite_none_right_eq_some, Option.some.injEq] at hs
    obtain ⟨⟨hproto, howner⟩, rfl⟩ := hs
    exact hinv.construct (by simpa using hproto) howner
  | copy c owner =>
    simp only [State.step, Option.ite_none_right_eq_some, Option.some.injEq] at hs
    obtain ⟨⟨halive, howner⟩, rfl⟩ := hs
    exact hinv.copy halive howner hG
  | move c owner =>
    simp only [State.step, Option.ite_none_right_eq_some, Option.some.injEq] at hs
    obtain ⟨⟨halive, howner⟩, rfl⟩ := hs
    exact hinv.move halive howner
  | copyAssign d c =>
    simp only [State.step, Option.ite_none_right_eq_some, Option.some.injEq] at hs
    obtain ⟨⟨hd, hc⟩, rfl⟩ := hs
    exact hinv.copyAssign hd hc hG
  | moveAssign d c =>
    simp only [State.step, Option.ite_none_right_eq_some, Option.some.injEq] at hs
    obtain ⟨⟨hd, hc⟩, rfl⟩ := hs
    exact hinv.moveAssign hd hc hG
  | cast c target owner =>
    simp only [State.step, Option.ite_none_right_eq_some, Option.some.injEq] at hs
    obtain ⟨⟨halive, howner⟩, rfl⟩ := hs
    exact hinv.cast halive howner hG
  | destroy c =>
    simp only [State.step, Option.ite_none_right_eq_some, Option.some.injEq] at hs
    obtain ⟨halive, rfl⟩ := hs
    exact hinv.destroy halive

/-- Between operations, the handles of a bean are the handles of its slot. -/
theorem namers_eq (hinv : Inv none none s []) (hmem : s.memoryAt i = some o) :
    s.namers o = s.handles none i := by
  ext c
  simp only [State.namers, Finset.mem_filter, Finset.mem_range]
  rw [mem_handles]
  constructor
  · rintro ⟨hlt, halive, hproto, hobj⟩
    obtain ⟨o', hobj', hm, -⟩ := hinv.tracked halive hproto
    obtain rfl : o = o' := Option.some.inj (hobj.symm.trans hobj')
    exact ⟨hlt, nofun, halive, hproto, hinv.slots.memory_inj _ _ _ hm hmem⟩
  · rintro ⟨hlt, -, halive, hproto, rfl⟩
    exact ⟨hlt, halive, hproto, ((hinv.tracked halive).of_slot hproto hmem).1⟩

end Inv

/-! ## The result -/

theorem Inv.countsExact (hinv : Inv none none s []) : CountsExact s where
  refcount i o hmem hactive := by simpa using hinv.counts.refcount i o hmem hactive
  kept o hactive := by
    obtain ⟨i, hmem⟩ := hinv.slots.slot o hactive
    have hpos := hinv.counts.pos i o hmem hactive
    have hrefcount := hinv.counts.refcount i o hmem hactive
    rw [if_neg nofun, add_zero] at hrefcount
    refine ⟨by rw [hinv.namers_eq hmem, ← hrefcount]; exact hpos, ?_⟩
    rw [hinv.history.mem]
    exact fun hdestroyed => by cases hactive.symm.trans hdestroyed
  destroyed o hdestroyed := by
    refine ⟨Finset.card_eq_zero.mpr (Finset.eq_empty_of_forall_notMem fun c hc => ?_), ?_⟩
    · simp only [State.namers, Finset.mem_filter] at hc
      obtain ⟨-, halive, hproto, hobj⟩ := hc
      obtain ⟨o', hobj', -, hactive⟩ := hinv.tracked halive hproto
      obtain rfl : o = o' := Option.some.inj (hobj.symm.trans hobj')
      cases hactive.symm.trans hdestroyed
    · exact List.count_eq_one_of_mem hinv.history.nodup ((hinv.history.mem o).mpr hdestroyed)
  alive := hinv.alive

/-- A simple way to be careful: assignments are between variables. -/
def BetweenVariables (s : State) : Action → Prop
  | .copyAssign d c => (s.cells d).owner = none ∧ (s.cells c).owner = none ∧
    Countable s (some d) (s.cells c).handle
  | .moveAssign d c => (s.cells d).owner = none ∧ (s.cells c).owner = none
  | .activate _ _ returned => returned
  | .copy c _ | .cast c (some _) _ => Countable s none (s.cells c).handle
  | _ => True

instance (s : State) (stale : Option CellId) (h : Handle) : Decidable (Countable s stale h) :=
  inferInstanceAs (Decidable (_ → _))

instance (s : State) (a : Action) : Decidable (BetweenVariables s a) := by
  unfold BetweenVariables
  split <;> infer_instance

theorem survives_of_variable (hc : (s.cells c).owner = none) : Survives s d c := by
  intro o ho
  rw [hc] at ho
  cases ho

theorem careful_of_betweenVariables (s : State) (a : Action) (h : BetweenVariables s a) :
    Careful s a := by
  cases a with
  | copyAssign d c => exact .inr ⟨survives_of_variable h.2.1, survives_of_variable h.1, h.2.2⟩
  | moveAssign d c => exact .inr ⟨survives_of_variable h.2, survives_of_variable h.1⟩
  | cast c target owner =>
    cases target with
    | none => trivial
    | some _ => exact h
  | _ => exact h

/-- A list of two prototypes: the cell `1` is its head, which has the cell `0` as its
    member. -/
def twoNodes : List Action := [.allocate 7, .activate 0 [] true, .allocate 7, .activate 1 [0] true]

end Ctorium.Prototype
