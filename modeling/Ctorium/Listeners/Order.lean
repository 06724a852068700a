import Ctorium.Listeners.Invariant

/-!
# The order of the callbacks of an event

The callbacks of an event should run by descending priority and, at equal
priority, in the order in which their listeners were registered. Within the store
an entry comes behind those of the same priority that were inserted before it; a
typed listener registered before the start is inserted late, behind listeners that
were registered after it.

* `ordered_flush`: the flush of a context keeps the entries in order exactly if no
  listener in the store that shares an event with one of the context at the same
  priority was registered after it;
* `callbacks_in_order_iff`: the callbacks of all events of a run come in order
  exactly if all flushes of the run are of this kind.
-/

namespace Ctorium.Listeners

open Function (update)
open ListenerStore (LifecyclePhase)

/-- Some event passes both scope filters. -/
def SameEvents (a b : Option NameId) : Prop := a = none ∨ b = none ∨ a = b

instance (a b : Option NameId) : Decidable (SameEvents a b) := by
  unfold SameEvents
  infer_instance

/-- The callbacks of every event come by descending priority and then by registration, where
    an entry with token `k` is of the `k`-th call of `on` in the run. -/
def InOrder (as : List Action) (s : State) : Prop :=
  ∀ e, ((s.store.invoked e).Pairwise fun a b =>
      b.priority < a.priority ∨ a.priority = b.priority ∧ a.token < b.token) ∧
    ∀ x ∈ s.store.invoked e, (registrations as)[x.token]? = some (x.registration e.phase)

/-- A flush only inserts listeners that were registered after those in the store with the
    same phase and priority whose events they share. -/
def InsertsLatest (s : State) : Action → Prop
  | .flush =>
    match s.starting with
    | some (c :: _) => ∀ d ∈ s.deferred c, ∀ x ∈ s.store.phases d.phase,
        x.priority = d.priority → SameEvents x.listenerScope d.listenerScope → x.token < d.token
    | _ => True
  | _ => True

instance (s : State) (a : Action) : Decidable (InsertsLatest s a) := by
  unfold InsertsLatest
  split
  · split <;> infer_instance
  · infer_instance

/-! ## The entries of the store -/

/-- The entry comes rightly before the other one: if they share an event and have the same
    priority, then it was registered first. -/
def Precedes (a b : Entry) : Prop :=
  SameEvents a.listenerScope b.listenerScope → a.priority = b.priority → a.token < b.token

instance (a b : Entry) : Decidable (Precedes a b) := by
  unfold Precedes
  infer_instance

/-- The entries of every phase are in order. -/
def Ordered (st : Store) : Prop := ∀ p, (st.phases p).Pairwise Precedes

variable {regs : List Registration} {s s' : State}

theorem precedes_of_lt {a b : Entry} (h : b.priority < a.priority) : Precedes a b :=
  fun _ heq => absurd heq h.ne'

/-- The event of a phase that passes two scope filters, for a bean compatible with all types. -/
def commonEvent (p : LifecyclePhase) (a b : Option NameId) : Event where
  phase := p
  beanTypeId := 0
  emitterScope := a.or b
  compatible _ := true

theorem hears_commonEvent {a b : Entry} (p : LifecyclePhase)
    (h : SameEvents a.listenerScope b.listenerScope) :
    a.hears (commonEvent p a.listenerScope b.listenerScope) ∧
      b.hears (commonEvent p a.listenerScope b.listenerScope) := by
  have hforwards (w : Wrapper) (x y : Option NameId) : w.forwards (commonEvent p x y) = true := by
    unfold Wrapper.forwards
    split <;> rfl
  simp only [Entry.hears, hforwards, Bool.and_true]
  simp only [commonEvent]
  rcases h with ha | hb | hab
  · simp [ha]
  · simp [hb]
  · cases hb : b.listenerScope <;> simp [hab, hb]

/-- The callbacks of all events come in order exactly if the entries are in order. -/
theorem invoked_pairwise_iff {st : Store} (h : st.Valid regs) (hp : st.Published) :
    (∀ e, (st.invoked e).Pairwise fun a b =>
      b.priority < a.priority ∨ a.priority = b.priority ∧ a.token < b.token) ↔ Ordered st := by
  constructor
  · -- Two entries that share an event are both invoked for one.
    intro hord p
    refine List.pairwise_iff_forall_sublist.2 fun {a b} hab hshare hprio => ?_
    obtain ⟨ha, hb⟩ := hears_commonEvent p hshare
    have hpair := hord (commonEvent p a.listenerScope b.listenerScope)
    rw [Store.invoked_eq h hp, List.pairwise_map] at hpair
    have hsub : [a, b].Sublist ((st.phases p).filter
        (·.hears (commonEvent p a.listenerScope b.listenerScope))) := by
      have := hab.filter (·.hears (commonEvent p a.listenerScope b.listenerScope))
      simpa only [List.filter, ha, hb] using this
    rcases List.pairwise_iff_forall_sublist.1 hpair hsub with hlt | ⟨_, hlt⟩
    · exact absurd hprio hlt.ne'
    · exact hlt
  · intro hord e
    rw [Store.invoked_eq h hp, List.pairwise_map]
    refine List.pairwise_iff_forall_sublist.2 fun {a b} hab => ?_
    have hmem (x : Entry) (hx : x ∈ [a, b]) : x.hears e = true :=
      (List.mem_filter.1 (hab.subset hx)).2
    have hsub := hab.trans List.filter_sublist
    have hle : b.priority ≤ a.priority :=
      List.pairwise_iff_forall_sublist.1 (h.sorted e.phase) hsub
    rcases lt_or_eq_of_le hle with hlt | heq
    · exact .inl hlt
    refine .inr ⟨heq.symm, List.pairwise_iff_forall_sublist.1 (hord e.phase) hsub ?_ heq.symm⟩
    have ha := hmem a List.mem_cons_self
    have hb := hmem b (List.mem_cons_of_mem _ List.mem_cons_self)
    simp only [Entry.hears, Bool.and_eq_true, Bool.or_eq_true, decide_eq_true_eq] at ha hb
    rcases ha.1 with ha | ha
    · exact .inl ha
    · rcases hb.1 with hb | hb
      · exact .inr (.inl hb)
      · exact .inr (.inr (ha.trans hb.symm))

theorem inOrder_iff (h : Inv (registrations as) s) : InOrder as s ↔ Ordered s.store := by
  rw [← invoked_pairwise_iff h.valid h.published]
  refine ⟨fun hord e => (hord e).1, fun hord e => ⟨hord e, fun x hx => ?_⟩⟩
  rw [Store.invoked_eq h.valid h.published] at hx
  obtain ⟨y, hy, rfl⟩ := List.mem_map.1 hx
  have hy := (List.mem_filter.1 hy).1
  have hreg := h.valid.registered _ y hy
  rw [Entry.registration, h.valid.phase _ y hy] at hreg
  exact hreg

/-! ## The steps -/

/-- A listener that goes to the store at once comes behind all others of its priority. -/
theorem ordered_onDirect (h : Inv regs s) (hord : Ordered s.store) (c : ContextId)
    (type : Option CppType) (phase : LifecyclePhase) (callback : ℕ) (priority : ℤ) :
    Ordered (s.onDirect c type phase callback priority).store := by
  intro p
  simp only [State.onDirect, Store.addListener, Store.phases_rebuildView,
    Store.phases_insertEntry, Store.phases_reserveToken]
  split
  · refine (List.pairwise_stableInsert (h.valid.sorted p) _).2 ⟨hord p, ?_, ?_⟩
    · intro b hb _ _ _
      show b.token < s.store.nextToken
      rw [h.nextToken]
      exact h.token_lt hb
    · exact fun b _ hlt => precedes_of_lt hlt
  · exact hord p

/-- The flush of a context keeps the entries in order exactly if its listeners were
    registered after those that they come behind. -/
theorem ordered_flush (h : Inv regs s) (c : ContextId) :
    Ordered (s.flushDeferredListeners c).store ↔ Ordered s.store ∧
      ∀ d ∈ s.deferred c, ∀ x ∈ s.store.phases d.phase, x.priority = d.priority →
        SameEvents x.listenerScope d.listenerScope → x.token < d.token := by
  rw [Inv.flushDeferredListeners_eq]
  split
  · rename_i hnil
    rw [hnil]
    simp
  · have hphase (p : LifecyclePhase) :
        ((s.store.insertDeferred (s.deferred c)).phases p).Pairwise Precedes ↔
          (s.store.phases p).Pairwise Precedes ∧ ∀ d ∈ s.deferred c, d.phase = p →
            ∀ x ∈ s.store.phases p, x.priority = d.priority →
              SameEvents x.listenerScope d.listenerScope → x.token < d.token := by
      rw [Store.phases_insertDeferred, List.pairwise_foldl_stableInsert
        (fun a b => precedes_of_lt) (h.valid.sorted p)]
      -- Among themselves, the listeners of a context come by registration.
      have hself : (((s.deferred c).filter (·.phase = p)).map DeferredListener.toEntry).Pairwise
          fun a b => b.priority ≤ a.priority → Precedes a b := by
        rw [List.pairwise_map]
        exact ((h.ascending c).filter _).imp fun hlt _ _ _ => hlt
      refine and_congr_right fun _ => ⟨fun ⟨_, hx⟩ d hd hp x hxp heq hshare => ?_, fun hx =>
        ⟨hself, fun a ha b hb _ hshare heq => ?_⟩⟩
      · exact hx d.toEntry (List.mem_map_of_mem (List.mem_filter.2 ⟨hd, by simpa using hp⟩)) x hxp
          heq.ge hshare heq
      · obtain ⟨d, hd, rfl⟩ := List.mem_map.1 ha
        obtain ⟨hd, hp⟩ := List.mem_filter.1 hd
        exact hx d hd (by simpa using hp) b hb heq hshare
    constructor
    · intro hord
      exact ⟨fun p => ((hphase p).1 (hord p)).1,
        fun d hd => ((hphase d.phase).1 (hord d.phase)).2 d hd rfl⟩
    · rintro ⟨hord, hlatest⟩ p
      exact (hphase p).2 ⟨hord p, fun d hd hp => hp ▸ hlatest d hd⟩

/-- Every other step keeps the entries in order. -/
theorem ordered_step (h : Inv regs s) (hord : Ordered s.store) {a : Action}
    (hG : InsertsLatest s a) (hs : machine.step s a = some s') : Ordered s'.store := by
  cases a with
  | resolveScope name =>
    obtain rfl := Option.some.inj hs
    split <;> exact hord
  | on c type phase callback priority =>
    obtain ⟨_, heq⟩ := Option.ite_none_right_eq_some.1 hs
    obtain rfl := Option.some.inj heq
    -- A typed listener before the start is deferred and touches no phase; any other one is inserted
    -- at once, with the latest token.
    rcases Inv.on_cases s c type phase callback priority with ⟨t, _, _, heq⟩ | heq
    · rw [heq]
      exact hord
    · rw [heq]
      exact ordered_onDirect h hord c type phase callback priority
  | copyHandle i =>
    obtain ⟨hd, _, rfl⟩ := Option.map_eq_some_iff.1 hs
    exact hord
  | remove i =>
    obtain ⟨hd, _, rfl⟩ := Option.map_eq_some_iff.1 hs
    -- A removal leaves a sublist.
    unfold State.remove
    split
    · intro p
      rw [Store.phases_removeByToken h.valid.distinct]
      exact (hord p).filter _
    · exact hord
  | start order =>
    obtain ⟨_, heq⟩ := Option.ite_none_right_eq_some.1 hs
    obtain rfl := Option.some.inj heq
    exact hord
  | flush =>
    simp only [machine, State.step] at hs
    simp only [InsertsLatest] at hG
    split at hs
    · rename_i c rest hst
      -- The guard says that what comes in is later than what is there.
      obtain rfl := Option.some.inj hs
      rw [hst] at hG
      exact (ordered_flush h c).2 ⟨hord, hG⟩
    · exact absurd hs.symm (Option.some_ne_none _)
  | completeStart =>
    obtain ⟨_, heq⟩ := Option.ite_none_right_eq_some.1 hs
    obtain rfl := Option.some.inj heq
    exact hord
  | rollbackFailedStart =>
    obtain ⟨_, heq⟩ := Option.ite_none_right_eq_some.1 hs
    obtain rfl := Option.some.inj heq
    exact hord

/-! ## Runs -/

/-- Along a run whose flushes insert the latest listeners only, the entries stay in order. -/
theorem ordered_run (h : Inv regs s) (hord : Ordered s.store) {as : List Action}
    (hG : machine.Along InsertsLatest s as) {k : ℕ} (hr : machine.run s (as.take k) = some s') :
    Ordered s'.store := by
  induction as generalizing s regs k with
  | nil =>
    rw [List.take_nil] at hr
    obtain rfl := Option.some.inj hr
    exact hord
  | cons a as ih =>
    cases k with
    | zero =>
      obtain rfl := Option.some.inj hr
      exact hord
    | succ k =>
      obtain ⟨s₁, hs, hr⟩ := Option.bind_eq_some_iff.mp hr
      have hrest := hG.2
      rw [hs] at hrest
      exact ih (h.step hs) (ordered_step h hord hG.1 hs) hrest hr

/-- For every run: the callbacks of every event dispatched on a started registry come by
    descending priority and then in the order of the calls of `on`, exactly if every flush of
    `start()` only inserts listeners that were registered after those in the store with the
    same phase and priority whose events they share. -/
theorem callbacks_in_order_iff (as : List Action) :
    (∀ k s, machine.run {} (as.take k) = some s → s.started = true → InOrder (as.take k) s) ↔
      machine.Along InsertsLatest {} as := by
  constructor
  · intro h
    refine Machine.along_iff.2 fun k s a hr ha => ?_
    cases a with
    | flush =>
      simp only [InsertsLatest]
      split
      · rename_i c rest hst
        have hinv : Inv (registrations (as.take k)) s := Inv.initial.run hr
        have hflush : machine.step s .flush =
            some { s.flushDeferredListeners c with starting := some rest } := by
          simp only [machine, State.step, hst]
        -- The state right after the flush is one of the run, on a started registry.
        have hr' : machine.run {} (as.take (k + 1)) =
            some { s.flushDeferredListeners c with starting := some rest } := by
          rw [List.take_add_one, ha, Machine.run_append hr]
          simp [hflush]
        have hinv' := Inv.initial.run hr'
        have hord := h (k + 1) _ hr' (hinv'.begun (Option.some_ne_none _))
        exact ((ordered_flush hinv c).1 ((inOrder_iff hinv').1 hord)).2
      · trivial
    | _ => trivial
  · intro hG k s hr _
    exact (inOrder_iff (Inv.initial.run hr)).2
      (ordered_run Inv.initial (fun _ => .nil) hG hr)

/-- A typed listener and, after it, a global one, both before the start, and the start. -/
def lateInsertion : List Action :=
  [.on none (some ⟨"Worker", 0⟩) .created 0 0, .on none none .created 1 0, .start [], .flush]

/-- The global listener runs first, though it was registered last. -/
theorem deferred_listener_overtaken : ∃ s, machine.run {} lateInsertion = some s ∧
    s.started = true ∧ ¬ InOrder lateInsertion s := by
  refine ⟨_, rfl, rfl, fun hord => ?_⟩
  have hordered := (inOrder_iff (Inv.initial.run rfl)).1 hord
  exact absurd (hordered .created) (by decide)

end Ctorium.Listeners
