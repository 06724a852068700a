import Ctorium.Listeners.Invariant

/-!
# The removal of listeners

Once a listener has been removed, no later event should invoke its callback, and
removing it again should change nothing. `ListenerHandle::remove` looks for the
token of the handle in the store and then detaches the handle. A typed listener
that was registered before the start is not in the store yet, so it is not found,
and the start inserts it later.

* `Gone.step`: a listener that is neither stored nor deferred never comes back;
* `deferred_inserted`: a deferred listener can still reach the store;
* `removal_final_iff`: a removal is final exactly if the listener is not deferred
  and the handle is still attached, unless the listener is already gone.
-/

namespace Ctorium.Listeners

open Function (update)
open ListenerStore (LifecyclePhase)

/-- The listener with the token is removed for good in a state: whatever happens from there
    on, no event invokes it, and removing it again through any handle changes nothing but
    this handle. -/
def RemovedForGood (s : State) (token : ℕ) : Prop :=
  ∀ as t, machine.run s as = some t →
    (∀ e, ∀ x ∈ t.store.invoked e, x.token ≠ token) ∧
    ∀ i h t', t.handles[i]? = some h → h.token = token → machine.step t (.remove i) = some t' →
      t' = { t with handles := t'.handles }

/-- The removal through a handle finds its listener: it is not deferred, and the handle is
    attached, unless the listener is gone from the store already. -/
def FindsListener (s : State) (h : ListenerHandle) : Prop :=
  (∀ c, ∀ d ∈ s.deferred c, d.token ≠ h.token) ∧
    (h.attached = true ∨ ∀ p, ∀ x ∈ s.store.phases p, x.token ≠ h.token)

variable {regs : List Registration} {s s' : State} {k : ℕ}

/-! ## Listeners that are gone -/

/-- The listener with the token is neither stored nor deferred. -/
def Gone (k : ℕ) (s : State) : Prop :=
  (∀ c, ∀ d ∈ s.deferred c, d.token ≠ k) ∧ ∀ p, ∀ x ∈ s.store.phases p, x.token ≠ k

/-- A new listener has a token of its own. -/
theorem Gone.on (hgone : Gone k s) (h : Inv regs s) (hk : k < regs.length) (c : ContextId)
    (type : Option CppType) (phase : LifecyclePhase) (callback : ℕ) (priority : ℤ) :
    Gone k (s.on c type phase callback priority) := by
  rcases Inv.on_cases s c type phase callback priority with ⟨t, _, _, heq⟩ | heq
  · rw [heq]
    refine ⟨fun c' d hd => ?_, hgone.2⟩
    rcases Inv.mem_onDeferred.1 hd with hd | ⟨_, rfl⟩
    · exact hgone.1 c' d hd
    · rw [h.nextToken]
      exact hk.ne'
  · rw [heq]
    refine ⟨hgone.1, fun p x hx => ?_⟩
    rcases Store.mem_phases_insertEntry.1 hx with ⟨_, rfl⟩ | hx
    · rw [h.nextToken]
      exact hk.ne'
    · exact hgone.2 p x hx

theorem Gone.remove (hgone : Gone k s) (h : Inv regs s) (i : ℕ) (hd : ListenerHandle) :
    Gone k (s.remove i hd) := by
  unfold State.remove
  split
  · refine ⟨hgone.1, fun p x hx => ?_⟩
    rw [Store.phases_removeByToken h.valid.distinct] at hx
    exact hgone.2 p x (List.mem_of_mem_filter hx)
  · exact hgone

theorem Gone.flush (hgone : Gone k s) (c : ContextId) : Gone k (s.flushDeferredListeners c) := by
  rw [Inv.flushDeferredListeners_eq]
  split
  · exact hgone
  · refine ⟨fun c' d hd => ?_, fun p x hx => ?_⟩
    · simp only [Function.update_apply] at hd
      split at hd
      · exact absurd hd List.not_mem_nil
      · exact hgone.1 c' d hd
    · rcases Store.mem_phases_insertDeferred.1 hx with ⟨d, hd, _, rfl⟩ | hx
      · exact hgone.1 c d hd
      · exact hgone.2 p x hx

/-- A listener that is gone does not come back. -/
theorem Gone.step (hgone : Gone k s) (h : Inv regs s) (hk : k < regs.length) {a : Action}
    (hs : machine.step s a = some s') : Gone k s' := by
  -- A token that is gone is not handed out again, and nothing but a registration adds one.
  cases a with
  | resolveScope name =>
    obtain rfl := Option.some.inj hs
    split <;> exact hgone
  | on c type phase callback priority =>
    obtain ⟨_, heq⟩ := Option.ite_none_right_eq_some.1 hs
    obtain rfl := Option.some.inj heq
    exact hgone.on h hk c type phase callback priority
  | copyHandle i =>
    obtain ⟨hd, _, rfl⟩ := Option.map_eq_some_iff.1 hs
    exact hgone
  | remove i =>
    obtain ⟨hd, _, rfl⟩ := Option.map_eq_some_iff.1 hs
    exact hgone.remove h i hd
  | start order =>
    obtain ⟨_, heq⟩ := Option.ite_none_right_eq_some.1 hs
    obtain rfl := Option.some.inj heq
    exact hgone
  | flush =>
    simp only [machine, State.step] at hs
    split at hs
    · rename_i c rest _
      obtain rfl := Option.some.inj hs
      exact hgone.flush c
    · exact absurd hs.symm (Option.some_ne_none _)
  | completeStart =>
    obtain ⟨_, heq⟩ := Option.ite_none_right_eq_some.1 hs
    obtain rfl := Option.some.inj heq
    exact hgone
  | rollbackFailedStart =>
    obtain ⟨_, heq⟩ := Option.ite_none_right_eq_some.1 hs
    obtain rfl := Option.some.inj heq
    exact hgone

theorem Gone.run (hgone : Gone k s) (h : Inv regs s) (hk : k < regs.length) {as : List Action}
    (hr : machine.run s as = some s') : Gone k s' := by
  induction as generalizing s regs with
  | nil =>
    obtain rfl := Option.some.inj hr
    exact hgone
  | cons a as ih =>
    obtain ⟨s₁, hs, hr⟩ := Option.bind_eq_some_iff.mp hr
    refine ih (hgone.step h hk hs) (h.step hs) ?_ hr
    rw [List.length_append]
    exact Nat.lt_add_right _ hk

/-- A listener that is gone is removed for good. -/
theorem Gone.removedForGood (hgone : Gone k s) (h : Inv regs s) (hk : k < regs.length) :
    RemovedForGood s k := by
  intro as t hr
  have hgone' := hgone.run h hk hr
  have hinv := h.run hr
  refine ⟨fun e x hx => ?_, fun i hd t' hi hk' hs => ?_⟩
  · rw [Store.invoked_eq hinv.valid hinv.published] at hx
    obtain ⟨y, hy, rfl⟩ := List.mem_map.1 hx
    exact hgone'.2 _ y (List.mem_of_mem_filter hy)
  · simp only [machine, State.step, hi, Option.map_some, Option.some.injEq] at hs
    subst hs
    unfold State.remove
    split
    · rw [hk', Store.removeByToken_of_absent hgone'.2]
    · rfl

/-! ## Listeners that are still there -/

/-- A stored listener is invoked for some event. -/
theorem invoked_of_stored (h : Inv regs s) {p : LifecyclePhase} {x : Entry}
    (hx : x ∈ s.store.phases p) : ∃ e, x.toView ∈ s.store.invoked e := by
  refine ⟨⟨p, 0, x.listenerScope, fun _ => true⟩, ?_⟩
  rw [Store.invoked_eq h.valid h.published]
  refine List.mem_map_of_mem (List.mem_filter.2 ⟨hx, ?_⟩)
  have hforwards : x.callback.forwards ⟨p, 0, x.listenerScope, fun _ => true⟩ = true := by
    unfold Wrapper.forwards
    split <;> rfl
  simp [Entry.hears, hforwards]

/-- A flush inserts the deferred listeners of its context, and leaves those of others. -/
theorem mem_flush {c c' : ContextId} {d : DeferredListener} (hd : d ∈ s.deferred c) :
    c = c' ∧ d.toEntry ∈ (s.flushDeferredListeners c').store.phases d.phase ∨
      d ∈ (s.flushDeferredListeners c').deferred c := by
  rw [Inv.flushDeferredListeners_eq]
  split
  · exact .inr hd
  · by_cases hc : c = c'
    · subst hc
      exact .inl ⟨rfl, Store.mem_phases_insertDeferred.2 (.inl ⟨d, hd, rfl, rfl⟩)⟩
    · right
      simpa [Function.update_apply, hc] using hd

/-- A start in progress inserts the deferred listeners of the contexts that it has yet to
    flush. -/
theorem deferred_inserted_of_starting {c : ContextId} {d : DeferredListener}
    {queue : List ContextId} (hq : s.starting = some queue) (hc : c ∈ queue)
    (hd : d ∈ s.deferred c) :
    ∃ as t, machine.run s as = some t ∧ d.toEntry ∈ t.store.phases d.phase := by
  induction queue generalizing s with
  | nil => exact absurd hc List.not_mem_nil
  | cons c' rest ih =>
    have hstep : machine.step s .flush =
        some { s.flushDeferredListeners c' with starting := some rest } := by
      simp only [machine, State.step, hq]
    have hinserted (hx : d.toEntry ∈ (s.flushDeferredListeners c').store.phases d.phase) :
        ∃ as t, machine.run s as = some t ∧ d.toEntry ∈ t.store.phases d.phase :=
      ⟨[.flush], { s.flushDeferredListeners c' with starting := some rest },
        by rw [Machine.run_cons, hstep]; rfl, hx⟩
    rcases mem_flush hd with ⟨_, hx⟩ | hd'
    · exact hinserted hx
    · rcases List.mem_cons.1 hc with rfl | hc
      · rw [Inv.deferred_flushDeferredListeners] at hd'
        exact absurd hd' List.not_mem_nil
      · obtain ⟨as, t, hr, ht⟩ :=
          ih (s := { s.flushDeferredListeners c' with starting := some rest }) rfl hc hd'
        exact ⟨.flush :: as, t, by simp [hstep, hr], ht⟩

/-- A deferred listener can still reach the store. -/
theorem deferred_inserted (h : Inv regs s) {c : ContextId} {d : DeferredListener}
    (hd : d ∈ s.deferred c) :
    ∃ as t, machine.run s as = some t ∧ d.toEntry ∈ t.store.phases d.phase := by
  cases hstarted : s.started with
  | true =>
    obtain ⟨q, hq, hc⟩ := h.waiting hstarted c (List.ne_nil_of_mem hd)
    exact deferred_inserted_of_starting hq hc hd
  | false =>
    have hnone : s.starting = none := by
      by_contra hne
      rw [h.begun hne] at hstarted
      exact Bool.noConfusion hstarted
    -- A start flushes all contexts, the one of the listener among them.
    have hstep : machine.step s (.start s.scopes) =
        some { s with started := true, starting := some (none :: s.scopes.map some) } := by
      simp only [machine, State.step]
      rw [if_pos ⟨hnone, List.Perm.refl _⟩]
    have hinv := h.step hstep
    obtain ⟨q, hq, hc⟩ := hinv.waiting rfl c (List.ne_nil_of_mem hd)
    obtain ⟨as, t, hr, ht⟩ := deferred_inserted_of_starting
      (s := { s with started := true, starting := some (none :: s.scopes.map some) }) hq hc hd
    exact ⟨.start s.scopes :: as, t, by simp [hstep, hr], ht⟩

theorem inv_of_reachable (hs : machine.Reachable s) : ∃ regs, Inv regs s :=
  hs.invariant (P := fun s => ∃ regs, Inv regs s) (fun _ h => ⟨[], h ▸ Inv.initial⟩)
    fun _ _ _ ⟨_, h⟩ hs => ⟨_, h.step hs⟩

theorem deferred_remove (i : ℕ) (h : ListenerHandle) : (s.remove i h).deferred = s.deferred := by
  unfold State.remove
  split <;> rfl

theorem phases_remove (hinv : Inv regs s) {h : ListenerHandle} (hatt : h.attached = true)
    (i : ℕ) (p : LifecyclePhase) :
    (s.remove i h).store.phases p = (s.store.phases p).filter fun x => x.token ≠ h.token := by
  unfold State.remove
  rw [if_pos hatt]
  exact Store.phases_removeByToken hinv.valid.distinct _ p

theorem remove_of_detached {h : ListenerHandle} (hatt : ¬ h.attached = true) (i : ℕ) :
    s.remove i h = s := by
  unfold State.remove
  rw [if_neg hatt]

/-- A removal that finds its listener leaves it neither stored nor deferred. -/
theorem FindsListener.gone {h : ListenerHandle} (hfind : FindsListener s h) (hinv : Inv regs s)
    (i : ℕ) : Gone h.token (s.remove i h) := by
  refine ⟨fun c d hd => ?_, fun p x hx => ?_⟩
  · rw [deferred_remove] at hd
    exact hfind.1 c d hd
  · by_cases hatt : h.attached = true
    · rw [phases_remove hinv hatt] at hx
      simpa using (List.mem_filter.1 hx).2
    · rw [remove_of_detached hatt] at hx
      exact hfind.2.resolve_left hatt p x hx

/-- In every reachable state: after `remove()` of a handle, no later event invokes the
    listener and removing it again changes nothing, exactly if the listener is not deferred at
    the time and the handle is still attached, unless the listener is gone already. -/
theorem removal_final_iff {i : ℕ} {h : ListenerHandle} (hs : machine.Reachable s)
    (hi : s.handles[i]? = some h) (hr : machine.step s (.remove i) = some s') :
    RemovedForGood s' h.token ↔ FindsListener s h := by
  obtain ⟨regs, hinv⟩ := inv_of_reachable hs
  have hinv' := hinv.remove hi
  simp only [machine, State.step, hi, Option.map_some, Option.some.injEq] at hr
  subst hr
  constructor
  · intro hgood
    refine ⟨fun c d hd htok => ?_, ?_⟩
    · -- A deferred listener survives the removal, and the start inserts it.
      rw [← deferred_remove i h] at hd
      obtain ⟨as, t, hrun, hstored⟩ := deferred_inserted hinv' hd
      obtain ⟨e, hinvoked⟩ := invoked_of_stored (hinv'.run hrun) hstored
      exact (hgood as t hrun).1 e _ hinvoked htok
    · by_cases hatt : h.attached = true
      · exact .inl hatt
      · refine .inr fun p x hx htok => ?_
        rw [remove_of_detached hatt] at hgood
        obtain ⟨e, hinvoked⟩ := invoked_of_stored hinv hx
        exact (hgood [] s rfl).1 e _ hinvoked htok
  · intro hfind
    exact (hfind.gone hinv i).removedForGood hinv' (hinv.handles h (List.mem_of_getElem? hi))

/-- A global listener that is registered and removed before the start is removed for good. -/
theorem removal_of_global_final : ∃ s s', machine.Reachable s ∧
    machine.step s (.remove 0) = some s' ∧ RemovedForGood s' 0 := by
  refine ⟨State.on {} none none .created 0 0, _,
    (Machine.Reachable.init rfl).step (a := .on none none .created 0 0) rfl, rfl, ?_⟩
  refine (removal_final_iff (i := 0) (h := ⟨true, 0⟩)
    ((Machine.Reachable.init rfl).step (a := .on none none .created 0 0) rfl) rfl rfl).2
    ⟨fun c d hd => absurd hd List.not_mem_nil, .inl rfl⟩

/-- A typed listener, registered and removed before the start, and the start. -/
def removalBeforeStart : List Action :=
  [.on none (some ⟨"Worker", 0⟩) .created 0 0, .remove 0, .start [], .flush]

/-- A typed listener that is removed before the start is invoked after it. -/
theorem removed_listener_invoked : ∃ t, machine.run {} removalBeforeStart = some t ∧
    ∃ x ∈ t.store.invoked ⟨.created, 0, none, fun _ => true⟩, x.token = 0 := by
  have hr : machine.run {} removalBeforeStart =
      some ((machine.run {} removalBeforeStart).get rfl) := rfl
  have hinv := Inv.initial.run hr
  refine ⟨_, hr, ⟨⟨some ⟨"Worker", 0⟩, 0⟩, none, 0, 0⟩, ?_, rfl⟩
  rw [Store.invoked_eq hinv.valid hinv.published]
  decide

end Ctorium.Listeners
