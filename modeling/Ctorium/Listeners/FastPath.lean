import Ctorium.Lib.Attempt
import Ctorium.Listeners.Dispatch
import Ctorium.Listeners.Removal

/-!
# The fast path without listeners

Two phases of the life of a bean enclose its hook: `onInitialized` and `onCreated` the
`postConstruct` of a new prototype, `onPreDestroy` and `onDestroyed` the `preDestroy` of a
bean that is destroyed. Before the first of them, four pieces of code ask once whether
each phase has listeners, and leave out the event of a phase that has none.

User code is any function with the calls that it makes to the listeners. What it does
otherwise is any change of a state of the user's; beans that it creates or destroys have
events of their own, which do not belong to the events of this bean.

* `State.Inserts` and `State.Removes`: the calls that put a listener into the store and take
  it out; `Leaves`: calls of which one does the first, and none after it the second.
* `exists_hears_iff`: where a phase had no listeners, it has one that hears an event exactly
  if the calls made since leave one.
* `fastPath_eq`: the fast path does what the plain one does if nothing is missed.
* `callbacks_eq_iff`: the callbacks are the same exactly if the second phase has listeners at
  the check, or user code leaves none that hears its event.
* `registered_in_hook`: a hook that registers the first listener of the phase.
-/

namespace Ctorium.Listeners

open ListenerStore (LifecyclePhase)

/-! ## User code -/

/-- The listeners, and all else that user code works on. -/
structure World (U : Type*) where
  listeners : State
  user : U

/-- A function of the user, which may throw. -/
structure UserFunction (U : Type*) where
  run : World U → Attempt Failure (World U)
  /-- The calls that it makes to the listeners. -/
  calls : World U → List Action
  run_calls : ∀ w, machine.run w.listeners (calls w) = some (run w).state.listeners

/-- The callbacks of the user, by their number. -/
abbrev Callbacks (U : Type*) := ℕ → Event → UserFunction U

/-- The world, and so far the callbacks that have been invoked for the bean and the calls that
    user code has made to the listeners. -/
structure Life (U : Type*) where
  world : World U
  invoked : List (Event × ViewEntry) := []
  calls : List Action := []

/-- A function of the user is called. -/
def UserFunction.call {U : Type*} (f : UserFunction U) (l : Life U) : Attempt Failure (Life U) :=
  ⟨{ l with world := (f.run l.world).state, calls := l.calls ++ f.calls l.world },
    (f.run l.world).failure⟩

/-- A thunk of a descriptor, which may be null. -/
def callOptional {U : Type*} (f : Option (UserFunction U)) (l : Life U) :
    Attempt Failure (Life U) :=
  match f with
  | none => .ok l
  | some f => f.call l

section Code

variable {U : Type*} (C : Callbacks U)

/-- A callback is invoked. -/
def invoke (e : Event) (l : Life U) (ve : ViewEntry) : Attempt Failure (Life U) :=
  (C ve.callback.callback e).call { l with invoked := l.invoked ++ [(e, ve)] }

/-- `dispatch`: the callbacks are those of the view that is published now. -/
def dispatch (e : Event) (l : Life U) : Attempt Failure (Life U) :=
  Attempt.forEach (invoke C e) (l.world.listeners.store.invoked e) l

/-! ## The two phases -/

/-- Two events, the hook between them, and what follows. -/
structure Phases (U : Type*) where
  first : Event
  hook : Option (UserFunction U)
  second : Event
  finish : Option (UserFunction U)

/-- The code with the two checks. -/
def fastPath (p : Phases U) (l : Life U) : Attempt Failure (Life U) :=
  let dispatchFirst := l.world.listeners.store.hasListeners p.first.phase
  let dispatchSecond := l.world.listeners.store.hasListeners p.second.phase
  if dispatchFirst || dispatchSecond then
    (((if dispatchFirst then dispatch C p.first l else .ok l).andThen fun l =>
      callOptional p.hook l).andThen fun l =>
        if dispatchSecond then dispatch C p.second l else .ok l).andThen fun l =>
          callOptional p.finish l
  else (callOptional p.hook l).andThen fun l => callOptional p.finish l

/-- The first event and the hook. -/
def untilSecond (p : Phases U) (l : Life U) : Attempt Failure (Life U) :=
  (dispatch C p.first l).andThen fun l => callOptional p.hook l

/-- The code that dispatches each phase at its own point. -/
def plainPath (p : Phases U) (l : Life U) : Attempt Failure (Life U) :=
  ((untilSecond C p l).andThen fun l => dispatch C p.second l).andThen fun l =>
    callOptional p.finish l

end Code

/-! ## The four pieces of code -/

/-- What a descriptor says about its beans. -/
structure Cold (U : Type*) extends EventSource where
  postConstruct : Option (UserFunction U)
  preDestroy : Option (UserFunction U)
  destroy : UserFunction U

/-- A lifecycle that takes the fast path. -/
inductive Site (U : Type*)
  /-- `materializeOneImpl`: a prototype, in the scope of the resolution context. -/
  | prototype (cold : Cold U) (ctxScope : Option NameId)
  /-- `materializeOneImpl`: a prototype under an alias. Its hook is that of the primary. -/
  | aliasedPrototype (cold primaryCold : Cold U) (ctxScope : Option NameId)
  /-- `executeDestructionLifecycle`. -/
  | destruction (cold : Cold U) (emitterScope : Option NameId)
  /-- `destroyWithoutDeallocation` of a restart. -/
  | restart (cold : Cold U) (scopeNameId : NameId)

def Site.phases {U : Type*} : Site U → Phases U
  | .prototype cold ctxScope =>
    ⟨cold.event .initialized ctxScope, cold.postConstruct, cold.event .created ctxScope, none⟩
  | .aliasedPrototype cold primaryCold ctxScope =>
    ⟨cold.event .initialized ctxScope, primaryCold.postConstruct, cold.event .created ctxScope,
      none⟩
  | .destruction cold emitterScope =>
    ⟨cold.event .preDestroy emitterScope, cold.preDestroy, cold.event .destroyed emitterScope,
      some cold.destroy⟩
  | .restart cold scopeNameId =>
    ⟨cold.event .preDestroy (some scopeNameId), cold.preDestroy,
      cold.event .destroyed (some scopeNameId), some cold.destroy⟩

/-! ## Listeners that calls leave -/

/-- The call puts the listener into the store: `on`, unless it defers the listener, or the flush
    of the context for which it was deferred. -/
def State.Inserts (s : State) (x : Entry) : Action → Prop
  | .on c type phase callback priority => (s.started = true ∨ type = none) ∧
      x = ⟨none, c, ⟨type, callback⟩, priority, s.store.nextToken, phase⟩
  | .flush => ∃ c rest, s.starting = some (c :: rest) ∧ ∃ d ∈ s.deferred c, x = d.toEntry
  | _ => False

/-- The call takes the listener out of the store: `remove` of an attached handle of it. -/
def State.Removes (s : State) (x : Entry) (a : Action) : Prop :=
  ∃ i h, a = .remove i ∧ s.handles[i]? = some h ∧ h.attached = true ∧ h.token = x.token

/-- One of the calls inserts the listener, and none of the later ones removes it. -/
def Leaves (s : State) (as : List Action) (x : Entry) : Prop :=
  ∃ as₁ a as₂ t t', as = as₁ ++ a :: as₂ ∧ machine.run s as₁ = some t ∧
    machine.step t a = some t' ∧ t.Inserts x a ∧ machine.Along (fun u b => ¬u.Removes x b) t' as₂

section Calls

variable {regs : List Registration} {s s' : State} {x : Entry}

theorem not_removes_of_ne {a : Action} (ha : ∀ i, a ≠ .remove i) : ¬s.Removes x a := by
  rintro ⟨i, -, rfl, -⟩
  exact ha i rfl

theorem mem_phases_on (c : ContextId) (type : Option CppType) (phase : LifecyclePhase)
    (callback : ℕ) (priority : ℤ) :
    x ∈ (s.on c type phase callback priority).store.phases x.phase ↔
      x ∈ s.store.phases x.phase ∨ s.Inserts x (.on c type phase callback priority) := by
  have hdirect : x ∈ (s.onDirect c type phase callback priority).store.phases x.phase ↔
      x ∈ s.store.phases x.phase ∨
        x = ⟨none, c, ⟨type, callback⟩, priority, s.store.nextToken, phase⟩ := by
    refine Store.mem_phases_insertEntry.trans ?_
    rw [or_comm]
    refine or_congr_right ⟨And.right, ?_⟩
    rintro rfl
    exact ⟨rfl, rfl⟩
  have hinserts : s.Inserts x (.on c type phase callback priority) ↔
      (s.started = true ∨ type = none) ∧
        x = ⟨none, c, ⟨type, callback⟩, priority, s.store.nextToken, phase⟩ := Iff.rfl
  rw [hinserts]
  cases hstarted : s.started with
  | true => simpa only [State.on, hstarted, true_or, true_and] using hdirect
  | false =>
    cases type with
    | none => simpa only [State.on, hstarted, or_true, true_and] using hdirect
    | some t => simp [State.on, hstarted, State.onDeferred]

theorem mem_phases_flush (c : ContextId) :
    x ∈ (s.flushDeferredListeners c).store.phases x.phase ↔
      x ∈ s.store.phases x.phase ∨ ∃ d ∈ s.deferred c, x = d.toEntry := by
  rw [Inv.flushDeferredListeners_eq]
  split
  · next hnil => simp [hnil]
  · rw [or_comm]
    refine Store.mem_phases_insertDeferred.trans (or_congr_left (exists_congr fun d => ?_))
    refine and_congr_right fun _ => ⟨And.right, ?_⟩
    rintro rfl
    exact ⟨rfl, rfl⟩

/-- A call changes the listeners of the store as it inserts and removes them. -/
theorem Inv.mem_phases_step (h : Inv regs s) {a : Action} (hs : machine.step s a = some s') :
    x ∈ s'.store.phases x.phase ↔
      x ∈ s.store.phases x.phase ∧ ¬s.Removes x a ∨ s.Inserts x a := by
  -- Most actions neither insert nor remove an entry.
  have hstay (hstore : s'.store = s.store) (hremove : ∀ i, a ≠ .remove i)
      (hinsert : ¬s.Inserts x a) : x ∈ s'.store.phases x.phase ↔
        x ∈ s.store.phases x.phase ∧ ¬s.Removes x a ∨ s.Inserts x a := by
    rw [hstore, and_iff_left (not_removes_of_ne hremove), or_iff_left hinsert]
  cases a with
  | on c type phase callback priority =>
    obtain ⟨-, heq⟩ := Option.ite_none_right_eq_some.1 hs
    obtain rfl := Option.some.inj heq
    rw [mem_phases_on, and_iff_left (not_removes_of_ne (by simp))]
  | remove i =>
    obtain ⟨hd, hi, rfl⟩ := Option.map_eq_some_iff.1 hs
    have hremoves : s.Removes x (.remove i) ↔ hd.attached = true ∧ hd.token = x.token := by
      -- An index has one handle, so the removal names one token.
      constructor
      · rintro ⟨j, h', heq, hj, hatt, htoken⟩
        obtain rfl := Action.remove.inj heq
        obtain rfl := Option.some.inj (hi.symm.trans hj)
        exact ⟨hatt, htoken⟩
      · exact fun ⟨hatt, htoken⟩ => ⟨i, hd, rfl, hi, hatt, htoken⟩
    rw [hremoves, or_iff_left (show ¬s.Inserts x (.remove i) from id)]
    by_cases hatt : hd.attached = true
    · rw [phases_remove h hatt, List.mem_filter, decide_eq_true_eq, and_iff_right hatt, ne_comm]
    · rw [remove_of_detached hatt]
      simp [hatt]
  | flush =>
    simp only [machine, State.step] at hs
    split at hs
    · next c rest hstarting =>
      obtain rfl := Option.some.inj hs
      rw [and_iff_left (not_removes_of_ne (by simp))]
      -- The entries of the context whose turn it is come in.
      refine (mem_phases_flush c).trans (or_congr_right ⟨fun hd => ⟨c, rest, hstarting, hd⟩, ?_⟩)
      rintro ⟨c', rest', hstarting', hd⟩
      obtain ⟨rfl, -⟩ := List.cons.inj (Option.some.inj (hstarting.symm.trans hstarting'))
      exact hd
    · cases hs
  | resolveScope name =>
    obtain rfl := Option.some.inj hs
    exact hstay (by split <;> rfl) (by simp) id
  | copyHandle i =>
    obtain ⟨hd, -, rfl⟩ := Option.map_eq_some_iff.1 hs
    exact hstay rfl (by simp) id
  | start order | completeStart | rollbackFailedStart =>
    obtain ⟨-, heq⟩ := Option.ite_none_right_eq_some.1 hs
    obtain rfl := Option.some.inj heq
    exact hstay rfl (by simp) id

/-- Where a phase had no listeners, those that it has after some calls are those that the calls
    leave. -/
theorem Inv.mem_phases_iff_leaves (h : Inv regs s) {as : List Action}
    (hr : machine.run s as = some s') (hempty : s.store.phases x.phase = []) :
    x ∈ s'.store.phases x.phase ↔ Leaves s as x := by
  refine (machine.run_fact_iff (I := fun s => ∃ regs, Inv regs s)
    (F := fun s => x ∈ s.store.phases x.phase) (fun s a s' ⟨_, h⟩ hs => ⟨_, h.step hs⟩)
    (fun s a s' ⟨_, h⟩ hs => h.mem_phases_step hs) ⟨regs, h⟩ hr).trans (or_iff_right ?_)
  rw [hempty]
  exact fun hmem => List.not_mem_nil hmem.1

end Calls

/-! ## User code makes its calls -/

section Lemmas

variable {U : Type*} {C : Callbacks U} {p : Phases U} {s : State} {w : World U} {l : Life U}
  {e : Event}

/-- The calls that user code has made lead from a state to the listeners. -/
def Life.Follows (s : State) (l : Life U) : Prop := machine.run s l.calls = some l.world.listeners

theorem Life.Follows.new (w : World U) : Life.Follows w.listeners { world := w } := rfl

theorem UserFunction.call_follows (f : UserFunction U) (h : l.Follows s) :
    (f.call l).state.Follows s :=
  (Machine.run_append h).trans (f.run_calls l.world)

theorem callOptional_follows (f : Option (UserFunction U)) (h : l.Follows s) :
    (callOptional f l).state.Follows s := by
  cases f with
  | none => exact h
  | some f => exact f.call_follows h

theorem dispatch_follows (h : l.Follows s) : (dispatch C e l).state.Follows s :=
  Attempt.forEach_invariant (P := Life.Follows s)
    (fun _ ve _ hl => (C ve.callback.callback e).call_follows hl) h

theorem untilSecond_follows (h : l.Follows s) : (untilSecond C p l).state.Follows s :=
  Attempt.andThen_invariant (P := Life.Follows s) (dispatch_follows h) fun _ hl =>
    callOptional_follows p.hook hl

theorem callOptional_invoked (f : Option (UserFunction U)) (l : Life U) :
    (callOptional f l).state.invoked = l.invoked := by
  cases f <;> rfl

/-! ## Phases without listeners -/

/-- An event that no listener hears. -/
theorem dispatch_of_nil (h : l.world.listeners.store.invoked e = []) : dispatch C e l = .ok l := by
  rw [dispatch, h]
  rfl

/-- A phase without listeners has no event that one hears. -/
theorem dispatch_of_not_hasListeners
    (h : l.world.listeners.store.hasListeners e.phase = false) : dispatch C e l = .ok l := by
  have hsize : l.world.listeners.store.phaseSizes e.phase = 0 := by
    simpa [Store.hasListeners] using h
  refine dispatch_of_nil ?_
  rw [Store.invoked, Store.dispatch, if_pos hsize]
  rfl

/-- The callbacks that are invoked are those of an event, and more. -/
theorem invoked_dispatch (ve : ViewEntry) (ves : List ViewEntry)
    (h : l.world.listeners.store.invoked e = ve :: ves) :
    ∃ more, (dispatch C e l).state.invoked = l.invoked ++ (e, ve) :: more := by
  have hgrow : ∀ (ves : List ViewEntry) (l : Life U),
      l.invoked <+: (Attempt.forEach (invoke C e) ves l).state.invoked := fun ves l =>
    Attempt.forEach_invariant (P := fun l' : Life U => l.invoked <+: l'.invoked)
      (fun l' ve _ hl => hl.trans (List.prefix_append l'.invoked [(e, ve)])) List.prefix_rfl
  have hfirst : (invoke C e l ve).state.invoked = l.invoked ++ [(e, ve)] := rfl
  have hprefix : l.invoked ++ [(e, ve)] <+: (dispatch C e l).state.invoked := by
    rw [dispatch, h]
    refine Attempt.andThen_invariant
      (P := fun l' : Life U => l.invoked ++ [(e, ve)] <+: l'.invoked) ?_ ?_
    · exact hfirst ▸ List.prefix_rfl
    · exact fun l' hl => hl.trans (hgrow ves l')
  obtain ⟨more, hmore⟩ := hprefix
  exact ⟨more, by rw [← hmore, List.append_assoc]; rfl⟩

/-- What the fast path does, whatever the first check says. -/
theorem fastPath_eq_ite (C : Callbacks U) (p : Phases U) (l : Life U) : fastPath C p l =
    ((untilSecond C p l).andThen fun l' =>
      if l.world.listeners.store.hasListeners p.second.phase then dispatch C p.second l'
      else .ok l').andThen fun l => callOptional p.finish l := by
  have hfirst : (if l.world.listeners.store.hasListeners p.first.phase then dispatch C p.first l
      else .ok l) = dispatch C p.first l := by
    split_ifs with h
    · rfl
    · exact (dispatch_of_not_hasListeners (Bool.eq_false_of_not_eq_true h)).symm
  unfold fastPath untilSecond
  simp only [hfirst]
  cases hsecond : l.world.listeners.store.hasListeners p.second.phase with
  | true => simp only [Bool.or_true, if_true]
  | false =>
    cases h : l.world.listeners.store.hasListeners p.first.phase with
    | true => simp only [Bool.or_false, if_true, Bool.false_eq_true, if_false]
    | false =>
      rw [dispatch_of_not_hasListeners h]
      simp only [Bool.or_self, Bool.false_eq_true, if_false, Attempt.ok_andThen,
        Attempt.andThen_ok]

/-! ## The comparison -/

/-- When the lifecycle begins, no listener is registered for the second phase; the first phase
    returns, and the calls that user code makes in it leave a listener that hears the second
    event. -/
def Missed (C : Callbacks U) (p : Phases U) (w : World U) : Prop :=
  w.listeners.store.phases p.second.phase = [] ∧
    (untilSecond C p { world := w }).failure = none ∧
    ∃ x, Leaves w.listeners (untilSecond C p { world := w }).state.calls x ∧
      x.phase = p.second.phase ∧ x.hears p.second = true

theorem invoked_ne_nil_iff (h : machine.Reachable l.world.listeners) :
    l.world.listeners.store.invoked e ≠ [] ↔
      ∃ x ∈ l.world.listeners.store.phases e.phase, x.hears e = true := by
  obtain ⟨regs, hinv⟩ := inv_of_reachable h
  rw [Store.invoked_eq hinv.valid hinv.published, Ne, List.map_eq_nil_iff,
    List.filter_eq_nil_iff]
  simp

/-- Where a phase had no listeners, a callback is due for its event exactly if the calls made
    since leave a listener that hears it. -/
theorem exists_hears_iff (hs : machine.Reachable s) (hempty : s.store.phases e.phase = [])
    (hl : l.Follows s) : l.world.listeners.store.invoked e ≠ [] ↔
      ∃ x, Leaves s l.calls x ∧ x.phase = e.phase ∧ x.hears e = true := by
  obtain ⟨regs, hinv⟩ := inv_of_reachable hs
  obtain ⟨regs', hinv'⟩ := inv_of_reachable (hs.run hl)
  rw [invoked_ne_nil_iff (hs.run hl)]
  constructor
  · rintro ⟨x, hx, hhears⟩
    have hphase := hinv'.valid.phase e.phase x hx
    rw [← hphase] at hx hempty
    exact ⟨x, (hinv.mem_phases_iff_leaves hl hempty).mp hx, hphase, hhears⟩
  · rintro ⟨x, hleaves, hphase, hhears⟩
    rw [← hphase] at hempty ⊢
    exact ⟨x, (hinv.mem_phases_iff_leaves hl hempty).mpr hleaves, hhears⟩

theorem hasListeners_eq_false_iff (h : machine.Reachable s) (phase : LifecyclePhase) :
    s.store.hasListeners phase = false ↔ s.store.phases phase = [] := by
  obtain ⟨regs, hinv⟩ := inv_of_reachable h
  rw [Store.hasListeners, hinv.valid.sizes, bne_eq_false_iff_eq, List.length_eq_zero_iff]

/-- If nothing is missed, the fast path does what the plain one does. -/
theorem fastPath_eq (h : machine.Reachable w.listeners) (hmissed : ¬Missed C p w) :
    fastPath C p { world := w } = plainPath C p { world := w } := by
  rw [fastPath_eq_ite, plainPath]
  cases hsecond : w.listeners.store.hasListeners p.second.phase with
  | true => simp only [if_true]
  | false =>
    have hempty := (hasListeners_eq_false_iff h _).mp hsecond
    simp only [Bool.false_eq_true, if_false, Attempt.andThen_ok]
    congr 1
    cases hfailure : (untilSecond C p { world := w }).failure with
    | some e => exact (Attempt.andThen_of_fail hfailure).symm
    | none =>
      -- No callback is due in the second phase.
      have hnone :
          (untilSecond C p { world := w }).state.world.listeners.store.invoked p.second = [] := by
        by_contra hne
        exact hmissed ⟨hempty, hfailure,
          (exists_hears_iff h hempty (untilSecond_follows (.new w))).mp hne⟩
      have hdispatch := (Attempt.andThen_of_ok (f := dispatch C p.second) hfailure).trans
        (dispatch_of_nil hnone)
      exact (hdispatch.trans (congrArg (Attempt.mk _) hfailure.symm)).symm

theorem invoked_finish (a : Attempt Failure (Life U)) (f : Option (UserFunction U)) :
    (a.andThen fun l => callOptional f l).state.invoked = a.state.invoked := by
  cases hfailure : a.failure with
  | none => rw [Attempt.andThen_of_ok hfailure, callOptional_invoked]
  | some e => rw [Attempt.andThen_of_fail hfailure]

theorem callbacks_eq_iff_not_missed (h : machine.Reachable w.listeners) :
    (fastPath C p { world := w }).state.invoked = (plainPath C p { world := w }).state.invoked ↔
      ¬Missed C p w := by
  refine ⟨fun heq hmissed => ?_, fun hmissed => by rw [fastPath_eq h hmissed]⟩
  obtain ⟨hempty, hok, hleaves⟩ := hmissed
  have hsecond := (hasListeners_eq_false_iff h _).mpr hempty
  have hne := (exists_hears_iff h hempty (untilSecond_follows (.new w))).mpr hleaves
  obtain ⟨ve, ves, hves⟩ := List.exists_cons_of_ne_nil hne
  -- The plain path invokes a callback for the second event, and the fast one does not.
  obtain ⟨more, hmore⟩ := invoked_dispatch (C := C) ve ves hves
  rw [fastPath_eq_ite, plainPath, invoked_finish, invoked_finish, hsecond] at heq
  simp only [Bool.false_eq_true, if_false, Attempt.andThen_ok] at heq
  rw [Attempt.andThen_of_ok (f := dispatch C p.second) hok, hmore] at heq
  exact absurd (congrArg List.length heq) (by simp)

end Lemmas

/-! ## All sites -/

/-- At each of the four sites, from any state and with any user code, the callbacks are those of
    the plain path exactly if none is missed. -/
theorem callbacks_eq_iff {U : Type*} (C : Callbacks U) (x : Site U) (w : World U)
    (hw : machine.Reachable w.listeners) :
    (fastPath C x.phases { world := w }).state.invoked =
        (plainPath C x.phases { world := w }).state.invoked ↔
      ¬Missed C x.phases w :=
  callbacks_eq_iff_not_missed hw

/-- User code that registers a listener for all beans. -/
def registering (phase : LifecyclePhase) : UserFunction Unit where
  run w := .ok { w with listeners := w.listeners.on none none phase 7 0 }
  calls _ := [.on none none phase 7 0]
  run_calls w := by simp [machine, State.step, State.HasContext, Attempt.ok]

/-- User code that leaves the listeners as they are. -/
def idle : UserFunction Unit where
  run w := .ok w
  calls _ := []
  run_calls _ := rfl

/-- A prototype whose hook registers a listener for the phase. -/
def parcel (phase : LifecyclePhase) : Site Unit :=
  .prototype ⟨⟨0, fun _ => true⟩, some (registering phase), none, idle⟩ none

/-- Before anything is registered. -/
def newWorld : World Unit := ⟨{}, ()⟩

/-- A listener has been registered for `onInitialized`. -/
def announcing : World Unit := ⟨State.on {} none none .initialized 5 0, ()⟩

theorem announcing_reachable : machine.Reachable announcing.listeners :=
  (Machine.Reachable.init rfl).step (a := .on none none .initialized 5 0) rfl

/-- The callback for `onInitialized` and then the hook. -/
theorem untilSecond_announcing : untilSecond (fun _ _ => idle) (parcel .destroyed).phases
      { world := announcing } =
    .ok ⟨⟨announcing.listeners.on none none .destroyed 7 0, ()⟩,
      [((parcel .destroyed).phases.first, ⟨⟨none, 5⟩, none, 0, 0⟩)],
      [.on none none .destroyed 7 0]⟩ := by
  obtain ⟨regs, hinv⟩ := inv_of_reachable announcing_reachable
  have hheard : announcing.listeners.store.invoked (parcel .destroyed).phases.first =
      [⟨⟨none, 5⟩, none, 0, 0⟩] := by
    rw [Store.invoked_eq hinv.valid hinv.published]
    rfl
  rw [untilSecond, dispatch, hheard]
  rfl

/-- The listener for `onInitialized` is invoked; the hook registers one for `onDestroyed`. -/
theorem registered_for_other_phase :
    (fastPath (fun _ _ => idle) (parcel .destroyed).phases { world := announcing }).state.invoked =
        (plainPath (fun _ _ => idle) (parcel .destroyed).phases
          { world := announcing }).state.invoked ∧
      (fastPath (fun _ _ => idle) (parcel .destroyed).phases
        { world := announcing }).state.invoked ≠ [] := by
  refine ⟨(callbacks_eq_iff _ _ _ announcing_reachable).mpr ?_, ?_⟩
  · rintro ⟨-, -, x, ⟨as₁, a, as₂, t, t', heq, -, -, hinserts, -⟩, hphase, -⟩
    -- The only call is that of the hook.
    rw [untilSecond_announcing] at heq
    have hmem : a ∈ [Action.on none none .destroyed 7 0] := by
      rw [show [Action.on none none .destroyed 7 0] = as₁ ++ a :: as₂ from heq]
      exact List.mem_append_right _ List.mem_cons_self
    obtain rfl := List.mem_singleton.mp hmem
    rw [hinserts.2] at hphase
    cases hphase
  · rw [fastPath_eq_ite, untilSecond_announcing]
    exact List.cons_ne_nil _ _

/-- The hook registers the first listener for `onCreated`, which does not hear of the prototype. -/
theorem registered_in_hook :
    (fastPath (fun _ _ => idle) (parcel .created).phases { world := newWorld }).state.invoked =
        [] ∧
      (plainPath (fun _ _ => idle) (parcel .created).phases
        { world := newWorld }).state.invoked ≠ [] := by
  have hfast : (fastPath (fun _ _ => idle) (parcel .created).phases
      { world := newWorld }).state.invoked = [] := rfl
  refine ⟨hfast, fun hplain => ?_⟩
  have hmissed := (callbacks_eq_iff_not_missed (w := newWorld) (.init rfl)).mp
    (hfast.trans hplain.symm)
  refine hmissed ⟨rfl, rfl, _, ⟨[], _, [], _, _, rfl, rfl, rfl, ⟨.inr rfl, rfl⟩, trivial⟩, rfl, rfl⟩

end Ctorium.Listeners
