import Ctorium.Materialization.AtMostOnce

/-!
# When an instance is handed out

The lifecycle of a new instance is a listener phase, a hook and another listener
phase: `onInitialized`, `postConstruct`, `onCreated`. It runs after the instance
has been stored and the waiters have been notified, so another thread may find the
instance before its `postConstruct` hook has run; and the instance stays stored if
the lifecycle throws.

The machine here takes the lifecycle step of the materialization machine apart. Its
steps are those of that machine (`reachable_base`), with a trace of what happened.

* `published`, `handed_out`: every bean that can be materialized is stored before
  its lifecycle begins, and whoever looks it up then gets it;
* `hands_out_initialised_iff`: a bean is only handed out initialised, in all
  interleavings, exactly if it cannot be materialized or has nothing to
  initialise it.
-/

namespace Ctorium.Materialization

open Function

/-! ## The stages of the lifecycle -/

/-- The user code that initialises the beans of a registry. -/
structure Hooks where
  /-- The descriptors with a `postConstruct` hook. -/
  postConstruct : DescriptorId → Bool
  /-- The beans that some `onInitialized` listener is called for. -/
  onInitialized : MaterializationKey → Bool

/-- The part of the lifecycle that comes next. -/
inductive Stage
  | onInitialized
  | postConstruct
  | onCreated
  deriving DecidableEq, Repr

/-- What happens to the instance of a key. -/
inductive Event
  /-- The thread has stored the instance it has constructed. -/
  | stored (thread : ThreadToken) (key : MaterializationKey) (mem : Addr)
  /-- A resolve of the thread has returned the instance. -/
  | returned (thread : ThreadToken) (key : MaterializationKey) (mem : Addr)
  /-- The `postConstruct` hooks have completed. -/
  | initialised (key : MaterializationKey)
  /-- A `postConstruct` hook or an `onInitialized` listener has thrown. -/
  | threw (key : MaterializationKey)
  deriving DecidableEq, Repr

/-- The state of the materialization, and how far the lifecycle of each key has come. -/
structure HookedState where
  base : State
  stage : MaterializationKey → Stage := fun _ => .onInitialized
  trace : List Event := []

/-- The events of a step of a thread, read off the histories. -/
def newEvents (t : ThreadToken) (s s' : State) : List Event :=
  (s'.stored.drop s.stored.length).map (fun p => .stored t p.1 p.2) ++
    (s'.outcomes.drop s.outcomes.length).filterMap fun o =>
      match o.key, o.result with
      | some k, .ok a => some (.returned o.thread k a)
      | _, _ => none

/-- What a thread can do: a step of the materialization, or a part of a lifecycle, which
    completes or throws. -/
inductive HookedAct
  | base (act : Act)
  | onInitialized (completed : Bool)
  | postConstruct (completed : Bool)
  | onCreated (completed : Bool)
  deriving DecidableEq, Repr

/-- The thread that moves, and what it does. -/
structure HookedAction where
  thread : ThreadToken
  act : HookedAct
  deriving DecidableEq, Repr

/-- The key whose lifecycle a thread runs. -/
def lifecycleKey (s : State) (t : ThreadToken) : Option MaterializationKey :=
  match (s.threads t).frames with
  | ⟨.materialize k (.lifecycle _), _⟩ :: _ => some k
  | _ => none

namespace HookedState

/-- A step of the materialization. -/
def advance (D : Descriptors) (s : HookedState) (t : ThreadToken) (act : Act) :
    Option HookedState :=
  (Materialization.step D s.base ⟨t, act⟩).map fun b =>
    { s with base := b, trace := s.trace ++ newEvents t s.base b }

/-- The lifecycle of a key goes on to its next stage. -/
def setStage (s : HookedState) (k : MaterializationKey) (stage : Stage) : HookedState :=
  { s with stage := update s.stage k stage }

/-- An event is recorded. -/
def log (s : HookedState) (e : Event) : HookedState := { s with trace := s.trace ++ [e] }

end HookedState

/-- The step function. Only what exists can throw; what throws ends the lifecycle. -/
def hookedStep (D : Descriptors) (H : Hooks) (s : HookedState) (a : HookedAction) :
    Option HookedState :=
  match a.act, lifecycleKey s.base a.thread with
  | .base (.lifecycle _), _ => none
  | .base act, _ => s.advance D a.thread act
  | .onInitialized completed, some k =>
    if s.stage k = .onInitialized then
      if completed then some (s.setStage k .postConstruct)
      else if H.onInitialized k then (s.log (.threw k)).advance D a.thread (.lifecycle false)
      else none
    else none
  | .postConstruct completed, some k =>
    if s.stage k = .postConstruct then
      if completed then some ((s.setStage k .onCreated).log (.initialised k))
      else if H.postConstruct k.descId then
        (s.log (.threw k)).advance D a.thread (.lifecycle false)
      else none
    else none
  | .onCreated completed, some k =>
    if s.stage k = .onCreated then s.advance D a.thread (.lifecycle completed) else none
  | _, none => none

/-- The machine with the lifecycle taken apart. -/
def hooked (D : Descriptors) (H : Hooks) : Machine HookedState HookedAction where
  Init s := Init s.base ∧ (∀ k, s.stage k = .onInitialized) ∧ s.trace = []
  step := hookedStep D H

/-- The bean of a key is only handed out initialised. -/
structure HandsOutInitialised (H : Hooks) (k : MaterializationKey) (s : HookedState) : Prop where
  /-- A resolve on another thread than the one that materialized the bean only returns after
      the `postConstruct` hooks have completed. -/
  others : ∀ before after t u a, s.trace = before ++ .returned t k a :: after →
    .stored u k a ∈ before → t ≠ u → H.postConstruct k.descId = true → .initialised k ∈ before
  /-- No resolve returns after the initialisation has thrown. -/
  failed : ∀ before after t a, s.trace = before ++ .returned t k a :: after → .threw k ∉ before

/-- A resolve can materialize the bean of the key. -/
structure Descriptors.Materializable (D : Descriptors) (k : MaterializationKey) : Prop where
  valid : D.Valid k
  constructible : D.Constructible k
  discovered : D.origin k.descId ≠ .runtimeBinding

variable {D : Descriptors} {H : Hooks} {s s' : HookedState} {t : ThreadToken}
  {k : MaterializationKey}

/-! ## The steps of the materialization -/

/-- What a step does: a step of the materialization, with an event before it if the lifecycle
    throws, or nothing but a new stage, with an event if the hooks have completed. -/
theorem hookedStep_cases {a : HookedAction} (h : (hooked D H).step s a = some s') :
    (∃ act, s.advance D a.thread act = some s') ∨
    (∃ k, lifecycleKey s.base a.thread = some k ∧
      (H.postConstruct k.descId = true ∨ H.onInitialized k = true) ∧
      (s.log (.threw k)).advance D a.thread (.lifecycle false) = some s') ∨
    s'.base = s.base ∧ (s'.trace = s.trace ∨ ∃ k, s'.trace = s.trace ++ [.initialised k]) := by
  simp only [hooked, hookedStep] at h
  -- A hook that throws is logged before the construction goes on as failed; one that returns moves
  -- the stage only.
  split at h
  · cases h
  · exact .inl ⟨_, h⟩
  · rename_i completed k hact hk
    split at h
    · split at h
      · obtain rfl := Option.some.inj h
        exact .inr (.inr ⟨rfl, .inl rfl⟩)
      · split at h
        · rename_i hl
          exact .inr (.inl ⟨k, hk, .inr hl, h⟩)
        · cases h
    · cases h
  · rename_i completed k hact hk
    split at h
    · split at h
      · obtain rfl := Option.some.inj h
        exact .inr (.inr ⟨rfl, .inr ⟨k, rfl⟩⟩)
      · split at h
        · rename_i hl
          exact .inr (.inl ⟨k, hk, .inl hl, h⟩)
        · cases h
    · cases h
  · split at h
    · exact .inl ⟨_, h⟩
    · cases h
  · cases h

/-- The steps are those of the materialization machine. -/
theorem reachable_base (h : (hooked D H).Reachable s) : (machine D).Reachable s.base := by
  refine h.invariant (P := fun s => (machine D).Reachable s.base)
    (fun s hs => Machine.Reachable.init (show (machine D).Init s.base from hs.1)) 
    fun s a s' hs hstep => ?_
  rcases hookedStep_cases hstep with ⟨act, hadv⟩ | ⟨k, _, _, hadv⟩ | ⟨hbase, _⟩
  · obtain ⟨b, hb, rfl⟩ := Option.map_eq_some_iff.1 hadv
    exact hs.step hb
  · obtain ⟨b, hb, rfl⟩ := Option.map_eq_some_iff.1 hadv
    exact hs.step hb
  · rw [hbase]
    exact hs

/-! ## Only discovered beans are constructed -/

/-- The phases of a resolve that has constructed its bean. -/
def Phase.built : Phase → Bool
  | .store _ | .notify (some _) | .lifecycle _ => true
  | _ => false

/-- A resolve in progress that has constructed its bean is not one of a bound bean. -/
def Frame.Discovered (D : Descriptors) (f : Frame) : Prop :=
  ∀ k p, f.call = .materialize k p → p.built = true → D.origin k.descId ≠ .runtimeBinding

/-- All resolves in progress are of this kind. -/
def State.Discovered (D : Descriptors) (s : State) : Prop :=
  ∀ u, ∀ f ∈ (s.threads u).frames, f.Discovered D

theorem discovered_guarded (d : DescriptorId) (e : List DescriptorId) :
    Frame.Discovered D ⟨.guarded d, e⟩ := by
  intro k p h
  cases h

theorem discovered_of_not_built {p : Phase} (hp : p.built = false) (k : MaterializationKey)
    (e : List DescriptorId) : Frame.Discovered D ⟨.materialize k p, e⟩ := by
  intro k' p' h hb
  cases h
  rw [hp] at hb
  cases hb

theorem discovered_materialize {p : Phase} (h : D.origin k.descId ≠ .runtimeBinding)
    (e : List DescriptorId) : Frame.Discovered D ⟨.materialize k p, e⟩ := by
  intro k' p' hcall _
  cases hcall
  exact h

/-- Replacing the resolves of one thread by such ones. -/
theorem State.Discovered.update {b b' : State} (h : b.Discovered D) {th : Thread}
    (hth : b'.threads = update b.threads t th) (hnew : ∀ f ∈ th.frames, f.Discovered D) :
    b'.Discovered D := by
  intro u f hf
  rw [hth] at hf
  by_cases hu : u = t
  · subst hu
    rw [update_self] at hf
    exact hnew f hf
  · rw [update_of_ne hu] at hf
    exact h u f hf

theorem State.Discovered.notifyAll {b : State} (h : b.Discovered D) :
    b.notifyAll.Discovered D := by
  intro u f hf
  simp only [State.notifyAll] at hf
  split at hf
  · rename_i k n e rest hfs
    rcases List.mem_cons.1 hf with rfl | hf
    · exact discovered_of_not_built rfl k e
    · exact h u f (hfs ▸ List.mem_cons_of_mem _ hf)
  · exact h u f hf

section Steps

variable {b b' : State} {e : List DescriptorId} {rest : List Frame}

theorem discovered_resolve (h : b.Discovered D) (d : DescriptorId) (scope : Option ScopeId) :
    (resolve D b t d scope).Discovered D := by
  have henter (f : Frame) (stack : List DescriptorId) (hf : f.Discovered D) :
      ∀ f' ∈ (⟨stack, f :: (b.threads t).frames⟩ : Thread).frames, f'.Discovered D := by
    intro f' hf'
    rcases List.mem_cons.1 hf' with rfl | hf'
    · exact hf
    · exact h t f' hf'
  unfold resolve
  cases D.lifetime d with
  | singleton => exact h.update rfl (henter _ _ (discovered_of_not_built rfl _ _))
  | session =>
    cases scope with
    | none => exact h
    | some sc =>
      dsimp only
      split
      · exact h
      · exact h.update rfl (henter _ _ (discovered_of_not_built rfl _ _))
  | prototype | threadLocal =>
    dsimp only
    split
    · exact h
    · exact h.update rfl (henter _ _ (discovered_guarded _ _))

/-- The innermost resolve of a thread moves on. -/
theorem discovered_setFrames (h : b.Discovered D) {f : Frame}
    (hf : (b.threads t).frames = f :: rest) {f' : Frame} (hf' : f'.Discovered D) :
    (b.setFrames t (f' :: rest)).Discovered D := by
  refine h.update rfl fun g hg => ?_
  rcases List.mem_cons.1 hg with rfl | hg
  · exact hf'
  · exact h t g (hf ▸ List.mem_cons_of_mem _ hg)

/-- The innermost resolve of a thread ends. -/
theorem discovered_finish (h : b.Discovered D) {f : Frame}
    (hf : (b.threads t).frames = f :: rest) (g : Frame) (key : Option MaterializationKey)
    (r : Except Failure Addr) : (b.finish t g rest key r).Discovered D :=
  h.update rfl fun f' hf' => h t f' (hf ▸ List.mem_cons_of_mem _ hf')

theorem discovered_findFast (h : b.Discovered D)
    (hf : (b.threads t).frames = ⟨.materialize k .find, e⟩ :: rest) :
    (findFast D b t k e rest).Discovered D := by
  have hnext := discovered_setFrames h hf (discovered_of_not_built (p := .ensureSlot) rfl k e)
  unfold findFast
  dsimp only
  split
  · exact discovered_finish h hf _ _ _
  · split
    · exact hnext
    · split
      · exact discovered_finish h hf _ _ _
      · split
        · exact discovered_finish h hf _ _ _
        · exact hnext

theorem discovered_claimIteration (h : b.Discovered D) {f : Frame}
    (hf : (b.threads t).frames = f :: rest) :
    (claimIteration D b t k e rest).Discovered D := by
  unfold claimIteration
  dsimp only
  split
  · exact discovered_setFrames h hf (discovered_of_not_built rfl k e)
  · refine h.update rfl fun g hg => ?_
    rcases List.mem_cons.1 hg with rfl | hg
    · exact discovered_of_not_built rfl k e
    · exact h t g (hf ▸ List.mem_cons_of_mem _ hg)
  · exact discovered_finish h hf _ _ _
  · exact discovered_finish h hf _ _ _
  · exact discovered_setFrames (b := b.setWait t ⟨k, true⟩) h hf (discovered_of_not_built rfl k e)

theorem discovered_release (h : b.Discovered D) {f : Frame}
    (hf : (b.threads t).frames = f :: rest) {result : Option Addr}
    (hnew : Frame.Discovered D ⟨.materialize k (.notify result), e⟩) :
    (release D b t k result e rest).Discovered D := by
  rw [release_eq]
  refine h.update rfl fun g hg => ?_
  rcases List.mem_cons.1 hg with rfl | hg
  · exact hnew
  · exact h t g (hf ▸ List.mem_cons_of_mem _ hg)

/-- Every step keeps it: only the construction of a discovered bean has a step. -/
theorem discovered_step (h : b.Discovered D) {a : Action}
    (hs : Materialization.step D b a = some b') : b'.Discovered D := by
  obtain ⟨t, act⟩ := a
  unfold Materialization.step at hs
  dsimp only at hs
  -- Only what has been built is stored; a frame that has built nothing says nothing about
  -- descriptors.
  split at hs
  case h_1 fs d scope =>
    split at hs
    · cases hs
      exact discovered_resolve h d scope
    · cases hs
  case h_2 k e rest hf =>
    cases hs
    exact discovered_findFast h hf
  case h_3 k e rest hf =>
    cases hs
    rw [b.ensureMaterializationWaitSlot_eq t]
    exact discovered_setFrames (b := { b with waitingByThreadCapacity := _ }) h hf
      (discovered_of_not_built rfl k e)
  case h_4 k e rest hf =>
    cases hs
    unfold claimMaterializationOrWait
    dsimp only
    split
    · exact discovered_finish (b := b.setWait t {}) h hf _ _ _
    · exact discovered_claimIteration (b := b.setWait t {}) h hf
  case h_5 k n e rest hf =>
    cases hs
    have hclaim := discovered_setFrames (b := b.setWait t { b.waitingByThread t with
      active := false }) h hf (discovered_of_not_built (p := .claim) rfl k e)
    exact discovered_claimIteration (f := ⟨.materialize k .claim, e⟩) hclaim (by simp)
  case h_6 k e rest hf =>
    obtain ⟨a, _, rfl⟩ := Option.map_eq_some_iff.mp hs
    exact discovered_finish h hf _ _ _
  case h_7 result k e rest hf =>
    split at hs
    · cases hs
    · rename_i horigin
      cases hs
      exact discovered_setFrames h hf (discovered_materialize horigin e)
  case h_8 k mem e rest hf =>
    cases hs
    -- The frame holds what was built for the key.
    have hbuilt := h t _ (hf ▸ List.mem_cons_self) k (.store mem) rfl rfl
    exact discovered_release h hf (discovered_materialize hbuilt e)
  case h_9 k e rest hf =>
    cases hs
    exact discovered_release h hf (discovered_of_not_built rfl k e)
  case h_10 k result e rest hf =>
    cases hs
    have hf' : (b.notifyAll.threads t).frames = ⟨.materialize k (.notify result), e⟩ :: rest := by
      rw [b.notifyAll_threads_of_not_blocked t hf rfl, hf]
    unfold notify
    cases result with
    | some mem =>
      have hbuilt := h t _ (hf ▸ List.mem_cons_self) k (.notify (some mem)) rfl rfl
      exact discovered_setFrames h.notifyAll hf' (discovered_materialize hbuilt e)
    | none => exact discovered_finish h.notifyAll hf' _ _ _
  case h_11 completed k mem e rest hf =>
    cases hs
    exact discovered_finish h hf _ _ _
  case h_12 result d e rest hf =>
    cases hs
    have hpop : (b.setThread t { b.threads t with
        materializationStack := (b.threads t).materializationStack.tail }).Discovered D :=
      h.update rfl fun g hg => h t g hg
    exact discovered_finish (f := ⟨.guarded d, e⟩) hpop (by simp [hf]) _ _ _
  case h_13 => cases hs

theorem reachable_discovered (h : (machine D).Reachable b) : b.Discovered D := by
  refine h.invariant (P := State.Discovered D) (fun b hb u f hf => ?_)
    fun b a b' hb hs => discovered_step hb hs
  rw [hb.2.2.1 u] at hf
  exact absurd hf List.not_mem_nil

theorem stored_resolve (d : DescriptorId) (scope : Option ScopeId) :
    (resolve D b t d scope).stored = b.stored := by
  unfold resolve
  dsimp only
  split
  · rfl
  · split
    · rfl
    · split <;> rfl
  · split <;> rfl
  · split <;> rfl

theorem stored_findFast : (findFast D b t k e rest).stored = b.stored := by
  unfold findFast
  dsimp only
  split
  · rfl
  · split
    · rfl
    · split
      · rfl
      · split <;> rfl

theorem stored_claimIteration : (claimIteration D b t k e rest).stored = b.stored := by
  unfold claimIteration
  dsimp only
  split <;> rfl

/-- A step stores nothing, or the instance of a bean that can be materialized. -/
theorem stored_step (hinv : Inv D b) (hd : b.Discovered D) {a : Action}
    (hs : Materialization.step D b a = some b') :
    b'.stored = b.stored ∨ ∃ k m, D.Materializable k ∧ b'.stored = b.stored ++ [(k, m)] := by
  obtain ⟨t, act⟩ := a
  unfold Materialization.step at hs
  dsimp only at hs
  -- One step stores: the release of a key with an instance.
  split at hs
  case h_1 fs d scope =>
    split at hs
    · cases hs
      exact .inl (stored_resolve d scope)
    · cases hs
  case h_2 k e rest hf =>
    cases hs
    exact .inl stored_findFast
  case h_3 k e rest hf =>
    cases hs
    rw [b.ensureMaterializationWaitSlot_eq t]
    exact .inl rfl
  case h_4 k e rest hf =>
    cases hs
    unfold claimMaterializationOrWait
    dsimp only
    split
    · exact .inl rfl
    · exact .inl stored_claimIteration
  case h_5 k n e rest hf =>
    cases hs
    exact .inl stored_claimIteration
  case h_6 k e rest hf =>
    obtain ⟨a, _, rfl⟩ := Option.map_eq_some_iff.mp hs
    exact .inl rfl
  case h_7 result k e rest hf =>
    split at hs
    · cases hs
    · cases hs
      exact .inl rfl
  case h_8 k mem e rest hf =>
    cases hs
    have hmem : (⟨.materialize k (.store mem), e⟩ : Frame) ∈ (b.threads t).frames :=
      hf ▸ List.mem_cons_self
    obtain ⟨hv, hknows⟩ := (hinv.thread t).ok _ hmem k (.store mem) rfl
    refine .inr ⟨k, mem, ⟨hv, hknows.1 (by simp), hd t _ hmem k (.store mem) rfl rfl⟩, ?_⟩
    rw [release_eq]
    rfl
  case h_9 k e rest hf =>
    cases hs
    rw [release_eq]
    exact .inl (List.append_nil _)
  case h_10 k result e rest hf =>
    cases hs
    unfold notify
    cases result <;> exact .inl rfl
  case h_11 completed k mem e rest hf =>
    cases hs
    exact .inl rfl
  case h_12 result d e rest hf =>
    cases hs
    exact .inl rfl
  case h_13 => cases hs

end Steps

/-! ## The trace -/

/-- What the trace says of a bean that was stored or whose initialisation threw. -/
structure TraceInv (D : Descriptors) (H : Hooks) (s : HookedState) : Prop where
  stored : ∀ u k a, .stored u k a ∈ s.trace → D.Materializable k
  threw : ∀ k, .threw k ∈ s.trace → D.Materializable k ∧
    (H.postConstruct k.descId = true ∨ H.onInitialized k = true)

/-- The events of a step of the materialization. -/
theorem traceInv_advance (h : TraceInv D H s) (hinv : Inv D s.base)
    (hd : s.base.Discovered D) {act : Act} (hs : s.advance D t act = some s') :
    TraceInv D H s' := by
  obtain ⟨b, hb, rfl⟩ := Option.map_eq_some_iff.1 hs
  -- What the step adds to the trace: what the thread returned, and at most one instance that it
  -- stored.
  have hnew : ∀ e ∈ newEvents t s.base b,
      (∃ u k a, e = .returned u k a) ∨ ∃ u k a, e = .stored u k a ∧ D.Materializable k := by
    intro e he
    rcases List.mem_append.1 he with he | he
    · obtain ⟨q, hq, rfl⟩ := List.mem_map.1 he
      refine .inr ⟨t, q.1, q.2, rfl, ?_⟩
      rcases stored_step hinv hd hb with heq | ⟨k, m, hk, heq⟩
      · rw [heq, List.drop_length] at hq
        exact absurd hq List.not_mem_nil
      · rw [heq, List.drop_left] at hq
        rw [List.mem_singleton.1 hq]
        exact hk
    · obtain ⟨o, _, ho⟩ := List.mem_filterMap.1 he
      split at ho
      · exact .inl ⟨_, _, _, (Option.some.inj ho).symm⟩
      · cases ho
  refine ⟨fun u k a he => ?_, fun k he => ?_⟩
  · rcases List.mem_append.1 he with he | he
    · exact h.stored u k a he
    · rcases hnew _ he with ⟨_, _, _, heq⟩ | ⟨_, _, _, heq, hk⟩
      · cases heq
      · cases heq
        exact hk
  · rcases List.mem_append.1 he with he | he
    · exact h.threw k he
    · rcases hnew _ he with ⟨_, _, _, heq⟩ | ⟨_, _, _, heq, _⟩ <;> cases heq

/-- A bean whose lifecycle runs can be materialized. -/
theorem materializable_of_lifecycleKey {b : State} (hinv : Inv D b) (hd : b.Discovered D)
    (hk : lifecycleKey b t = some k) : D.Materializable k := by
  unfold lifecycleKey at hk
  split at hk
  · rename_i k' mem e rest hf
    obtain rfl := Option.some.inj hk
    have hmem : (⟨.materialize k' (.lifecycle mem), e⟩ : Frame) ∈ (b.threads t).frames :=
      hf ▸ List.mem_cons_self
    obtain ⟨hv, hknows⟩ := (hinv.thread t).ok _ hmem k' (.lifecycle mem) rfl
    exact ⟨hv, hknows.1 (by simp), hd t _ hmem k' (.lifecycle mem) rfl rfl⟩
  · cases hk

theorem traceInv_step (h : TraceInv D H s) (hinv : Inv D s.base) (hd : s.base.Discovered D)
    {a : HookedAction} (hs : (hooked D H).step s a = some s') : TraceInv D H s' := by
  rcases hookedStep_cases hs with ⟨act, hadv⟩ | ⟨k, hk, hhook, hadv⟩ | ⟨_, htrace⟩
  · exact traceInv_advance h hinv hd hadv
  -- The hook has thrown, and the construction goes on as a failed one.
  · have hlog : TraceInv D H (s.log (.threw k)) := by
      refine ⟨fun u k' a he => ?_, fun k' he => ?_⟩
      · rcases List.mem_append.1 he with he | he
        · exact h.stored u k' a he
        · cases List.mem_singleton.1 he
      · rcases List.mem_append.1 he with he | he
        · exact h.threw k' he
        · cases List.mem_singleton.1 he
          exact ⟨materializable_of_lifecycleKey hinv hd hk, hhook⟩
    exact traceInv_advance hlog hinv hd hadv
  -- The stage of the construction advances, and nothing is stored.
  · have hsub : ∀ e ∈ s'.trace, e ∈ s.trace ∨ ∃ k, e = .initialised k := by
      intro e he
      rcases htrace with htrace | ⟨k, htrace⟩
      · exact .inl (htrace ▸ he)
      · rw [htrace] at he
        rcases List.mem_append.1 he with he | he
        · exact .inl he
        · exact .inr ⟨k, List.mem_singleton.1 he⟩
    refine ⟨fun u k a he => ?_, fun k he => ?_⟩
    · rcases hsub _ he with he | ⟨_, heq⟩
      · exact h.stored u k a he
      · cases heq
    · rcases hsub _ he with he | ⟨_, heq⟩
      · exact h.threw k he
      · cases heq

theorem reachable_traceInv (h : (hooked D H).Reachable s) : TraceInv D H s := by
  induction h with
  | init hinit =>
    obtain ⟨_, _, htrace⟩ := hinit
    refine ⟨fun u k a he => ?_, fun k he => ?_⟩
    · rw [htrace] at he
      exact absurd he List.not_mem_nil
    · rw [htrace] at he
      exact absurd he List.not_mem_nil
  | step hr _ hs ih =>
    have hbase := reachable_base hr
    exact traceInv_step ih (reachable_inv hbase) (reachable_discovered hbase) hs

/-! ## A run that hands out an instance too early -/

/-- The first thread materializes the bean of a key up to the store of the instance. -/
def publishActions (k : MaterializationKey) : List HookedAction :=
  [⟨1, .base (.resolve k.descId k.scope)⟩, ⟨1, .base .find⟩, ⟨1, .base .ensureSlot⟩,
    ⟨1, .base .claim⟩, ⟨1, .base (.construct (some 0))⟩, ⟨1, .base .release⟩]

/-- The claim of a key that is neither stored nor owned. -/
theorem claimMaterializationOrWait_claimed {b : State} (hfind : b.findInstance D k = none)
    (hown : b.ownerOf k = none) (hd : k.descId ∉ (b.threads t).materializationStack)
    (e : List DescriptorId) (rest : List Frame) :
    claimMaterializationOrWait D b t k e rest =
      { (b.setWait t {}).setThread t ⟨k.descId :: (b.threads t).materializationStack,
          ⟨.materialize k .construct, e⟩ :: rest⟩ with
        materializing := b.materializing ++ [⟨k, t⟩] } := by
  have hdec : claimDecision D (b.setWait t {}) t k = .claimed := by
    have hown' : (b.setWait t {}).ownerOf k = none := hown
    simp [claimDecision, hfind, hown', hd]
  simp only [claimMaterializationOrWait, State.setWait_threads, hd, if_false, claimIteration, hdec]
  rfl

/-- A step of the materialization other than the end of a lifecycle is one here. -/
theorem hooked_step_base {act : Act} {b : State}
    (hb : Materialization.step D s.base ⟨t, act⟩ = some b) (hact : ∀ c, act ≠ .lifecycle c) :
    (hooked D H).step s ⟨t, .base act⟩ =
      some { s with base := b, trace := s.trace ++ newEvents t s.base b } := by
  simp only [hooked, hookedStep, HookedState.advance, hb, Option.map_some]

/-- The instance of a bean that can be materialized is stored before its lifecycle begins. -/
theorem published (hk : D.Materializable k) : ∃ s,
    (hooked D H).run { base := emptyState } (publishActions k) = some s ∧
    s.base.findInstance D k = some 0 ∧ s.trace = [.stored 1 k 0] ∧
    (s.base.threads 1).frames = [⟨.materialize k (.notify (some 0)), []⟩] ∧
    (s.base.threads 2).frames = [] ∧ s.stage k = .onInitialized := by
  have hfind : emptyState.findInstance D k = none := by
    obtain ⟨d, _ | sc⟩ := k <;> rfl
  let b₁ := emptyState.setFrames 1 [⟨.materialize k .find, []⟩]
  let b₂ := b₁.setFrames 1 [⟨.materialize k .ensureSlot, []⟩]
  let b₃ := (b₂.ensureMaterializationWaitSlot 1).setFrames 1 [⟨.materialize k .claim, []⟩]
  let b₄ := { (b₃.setWait 1 {}).setThread 1 ⟨[k.descId], [⟨.materialize k .construct, []⟩]⟩ with
    materializing := [⟨k, 1⟩] }
  let b₅ := b₄.setFrames 1 [⟨.materialize k (.store 0), []⟩]
  let b₆ := release D b₅ 1 k (some 0) [] []
  have h₁ : Materialization.step D emptyState ⟨1, .resolve k.descId k.scope⟩ = some b₁ := by
    simp only [Materialization.step]
    rw [if_pos ⟨by decide, rfl⟩, resolve_of_valid hk.valid]
    rfl
  have h₂ : Materialization.step D b₁ ⟨1, .find⟩ = some b₂ := by
    have := findFast_of_constructible (s := b₁) (t := 1) hk.constructible hfind [] []
    simp only [Materialization.step, b₁, State.setFrames_threads, update_self]
    exact congrArg some this
  have h₃ : Materialization.step D b₂ ⟨1, .ensureSlot⟩ = some b₃ := by
    simp only [Materialization.step, b₂, State.setFrames_threads, update_self]
    rfl
  have h₄ : Materialization.step D b₃ ⟨1, .claim⟩ = some b₄ := by
    have hfind₃ : b₃.findInstance D k = none := hfind
    have := claimMaterializationOrWait_claimed (t := 1) hfind₃ rfl List.not_mem_nil [] []
    simp only [Materialization.step, b₃, State.setFrames_threads, update_self]
    exact congrArg some this
  have h₅ : Materialization.step D b₄ ⟨1, .construct (some 0)⟩ = some b₅ := by
    have hframes : (b₄.threads 1).frames = [⟨.materialize k .construct, []⟩] := rfl
    simp only [Materialization.step, hframes, hk.discovered, if_false]
    rfl
  have h₆ : Materialization.step D b₅ ⟨1, .release⟩ = some b₆ := by
    have hframes : (b₅.threads 1).frames = [⟨.materialize k (.store 0), []⟩] := rfl
    simp only [Materialization.step, hframes]
    rfl
  have hstored : b₆.stored = [(k, 0)] := by
    simp only [b₆, release_eq]
    rfl
  have houtcomes : b₆.outcomes = [] := by
    simp only [b₆, release_eq]
    rfl
  have hlast : newEvents 1 b₅ b₆ = [.stored 1 k 0] := by
    simp only [newEvents, hstored, houtcomes]
    rfl
  -- Nothing is recorded before the store.
  have k₁ : (hooked D H).step { base := emptyState } ⟨1, .base (.resolve k.descId k.scope)⟩ =
      some { base := b₁ } := hooked_step_base (s := { base := emptyState }) h₁ (by simp)
  have k₂ : (hooked D H).step { base := b₁ } ⟨1, .base .find⟩ = some { base := b₂ } :=
    hooked_step_base (s := { base := b₁ }) h₂ (by simp)
  have k₃ : (hooked D H).step { base := b₂ } ⟨1, .base .ensureSlot⟩ = some { base := b₃ } :=
    hooked_step_base (s := { base := b₂ }) h₃ (by simp)
  have k₄ : (hooked D H).step { base := b₃ } ⟨1, .base .claim⟩ = some { base := b₄ } :=
    hooked_step_base (s := { base := b₃ }) h₄ (by simp)
  have k₅ : (hooked D H).step { base := b₄ } ⟨1, .base (.construct (some 0))⟩ =
      some { base := b₅ } := hooked_step_base (s := { base := b₄ }) h₅ (by simp)
  have k₆ : (hooked D H).step { base := b₅ } ⟨1, .base .release⟩ =
      some { base := b₆, trace := [.stored 1 k 0] } := by
    rw [← hlast]
    exact hooked_step_base (s := { base := b₅ }) h₆ (by simp)
  refine ⟨{ base := b₆, trace := [.stored 1 k 0] }, ?_, ?_, rfl, ?_, ?_, rfl⟩
  · simp only [publishActions, Machine.run_cons, Machine.run_nil, k₁, k₂, k₃, k₄, k₅, k₆,
      Option.bind_some]
  · simp only [b₆, findInstance_release, State.storeResult]
    exact findInstance_storeInstance_self
  · simp only [b₆, release_eq, update_self]
  · simp only [b₆, release_eq]
    rfl

/-- A resolve in user code returns the instance that is stored, whatever its stage. -/
theorem handed_out (hk : D.Valid k) (ht : t ≠ kNoMaterializationThreadToken)
    (hu : userCode (s.base.threads t).frames = true) {a : Addr}
    (hfind : s.base.findInstance D k = some a) : ∃ s',
    (hooked D H).run s [⟨t, .base (.resolve k.descId k.scope)⟩, ⟨t, .base .find⟩] = some s' ∧
      s'.trace = s.trace ++ [.returned t k a] := by
  let f : Frame := ⟨.materialize k .find, (s.base.threads t).materializationStack⟩
  let b₁ := s.base.setFrames t (f :: (s.base.threads t).frames)
  let b₂ := b₁.finish t f (s.base.threads t).frames k (.ok a)
  -- A fast lookup is all that happens.
  have h₁ : Materialization.step D s.base ⟨t, .resolve k.descId k.scope⟩ = some b₁ := by
    simp only [Materialization.step]
    rw [if_pos ⟨ht, hu⟩, resolve_of_valid hk]
  have h₂ : Materialization.step D b₁ ⟨t, .find⟩ = some b₂ := by
    have hfind₁ : b₁.findInstance D k = some a := hfind
    have hframes : (b₁.threads t).frames = f :: (s.base.threads t).frames := by
      simp only [b₁, State.setFrames_threads, update_self]
    simp only [Materialization.step, hframes, f, findFast, hfind₁]
    rfl
  have hnone : newEvents t s.base b₁ = [] := by
    simp [newEvents, b₁, State.setFrames, State.setThread]
  have hreturned : newEvents t b₁ b₂ = [.returned t k a] := by
    simp [newEvents, b₂, State.finish, State.setFrames, State.setThread]
  refine ⟨{ s with base := b₂, trace := s.trace ++ [.returned t k a] }, ?_, rfl⟩
  have k₁ : (hooked D H).step s ⟨t, .base (.resolve k.descId k.scope)⟩ =
      some { s with base := b₁ } := by
    rw [hooked_step_base h₁ (by simp), hnone, List.append_nil]
  have k₂ : (hooked D H).step { s with base := b₁ } ⟨t, .base .find⟩ =
      some { s with base := b₂, trace := s.trace ++ [.returned t k a] } := by
    rw [hooked_step_base (s := { s with base := b₁ }) h₂ (by simp), hreturned]
  simp only [Machine.run_cons, Machine.run_nil, k₁, k₂, Option.bind_some]

/-- An `onInitialized` listener throws, and the instance stays stored. -/
theorem initialisation_throws {a : Addr} (hfind : s.base.findInstance D k = some a)
    (hf : (s.base.threads 1).frames = [⟨.materialize k (.notify (some a)), []⟩])
    (hidle : (s.base.threads 2).frames = []) (hstage : s.stage k = .onInitialized)
    (hl : H.onInitialized k = true) : ∃ s',
    (hooked D H).run s [⟨1, .base .notify⟩, ⟨1, .onInitialized false⟩] = some s' ∧
      s'.trace = s.trace ++ [.threw k] ∧ s'.base.findInstance D k = some a ∧
      (s'.base.threads 2).frames = [] := by
  let b₁ := s.base.notifyAll.setFrames 1 [⟨.materialize k (.lifecycle a), []⟩]
  let b₂ := b₁.finish 1 ⟨.materialize k (.lifecycle a), []⟩ [] k (.error .userException)
  have hframes : (b₁.threads 1).frames = [⟨.materialize k (.lifecycle a), []⟩] := by
    simp only [b₁, State.setFrames_threads, update_self]
  have h₁ : Materialization.step D s.base ⟨1, .notify⟩ = some b₁ := by
    simp only [Materialization.step, hf, notify]
    rfl
  have h₂ : Materialization.step D b₁ ⟨1, .lifecycle false⟩ = some b₂ := by
    simp only [Materialization.step, hframes]
    rfl
  -- Neither step stores or returns anything.
  have hnone₁ : newEvents 1 s.base b₁ = [] := by
    simp [newEvents, b₁, State.setFrames, State.setThread, State.notifyAll]
  have hnone₂ : newEvents 1 b₁ b₂ = [] := by
    simp [newEvents, b₂, State.finish, State.setFrames, State.setThread]
  have k₁ : (hooked D H).step s ⟨1, .base .notify⟩ = some { s with base := b₁ } := by
    rw [hooked_step_base h₁ (by simp), hnone₁, List.append_nil]
  have k₂ : (hooked D H).step { s with base := b₁ } ⟨1, .onInitialized false⟩ =
      some { s with base := b₂, trace := s.trace ++ [.threw k] } := by
    have hkey : lifecycleKey b₁ 1 = some k := by
      simp only [lifecycleKey, hframes]
    simp only [hooked, hookedStep, hkey, hstage, hl, HookedState.log, HookedState.advance, h₂,
      hnone₂, Option.map_some, if_true, List.append_nil]
    rfl
  refine ⟨{ s with base := b₂, trace := s.trace ++ [.threw k] }, ?_, rfl, hfind, ?_⟩
  · simp only [Machine.run_cons, Machine.run_nil, k₁, k₂, Option.bind_some]
  · have hother : ((s.base.notifyAll).threads 2).frames = [] := by
      simp only [State.notifyAll, hidle]
    simpa [b₂, b₁, State.finish, State.setFrames, State.setThread] using hother

theorem empty_reachable : (hooked D H).Reachable { base := emptyState } :=
  Machine.Reachable.init ⟨emptyState_init, fun _ => rfl, rfl⟩

/-- For every registry, its hooks and listeners, and every bean: in all interleavings the bean
    is handed out to other threads only after its `postConstruct` hooks have completed, and
    never after its initialisation has thrown, exactly if it cannot be materialized or has
    neither a `postConstruct` hook nor an `onInitialized` listener. -/
theorem hands_out_initialised_iff (D : Descriptors) (H : Hooks) (k : MaterializationKey) :
    (∀ s, (hooked D H).Reachable s → HandsOutInitialised H k s) ↔
      ¬ (D.Materializable k ∧ (H.postConstruct k.descId = true ∨ H.onInitialized k = true)) := by
  constructor
  · rintro h ⟨hk, hhooks⟩
    obtain ⟨s₁, hr₁, hfind, htrace, hf, hidle, hstage⟩ := published (H := H) hk
    have hs₁ := empty_reachable.run hr₁
    have hu : userCode (s₁.base.threads 2).frames = true := by
      rw [hidle]
      rfl
    rcases hhooks with hp | hl
    · -- The second thread finds the instance before the hook runs.
      obtain ⟨s₂, hr₂, htrace₂⟩ := handed_out (H := H) (t := 2) hk.valid (by decide) hu hfind
      rw [htrace] at htrace₂
      have := (h s₂ (hs₁.run hr₂)).others [.stored 1 k 0] [] 2 1 0 htrace₂ List.mem_cons_self
        (by decide) hp
      simp at this
    · -- The second thread finds the instance after a listener has thrown.
      obtain ⟨s₂, hr₂, htrace₂, hfind₂, hidle₂⟩ :=
        initialisation_throws hfind hf hidle hstage hl
      have hu₂ : userCode (s₂.base.threads 2).frames = true := by
        rw [hidle₂]
        rfl
      obtain ⟨s₃, hr₃, htrace₃⟩ := handed_out (H := H) (t := 2) hk.valid (by decide) hu₂ hfind₂
      rw [htrace₂, htrace] at htrace₃
      exact (h s₃ ((hs₁.run hr₂).run hr₃)).failed [.stored 1 k 0, .threw k] [] 2 0 htrace₃
        (by simp)
  · intro hno s hs
    have hinv := reachable_traceInv hs
    refine ⟨fun before after t u a htrace hstored _ hp => ?_, fun before after t a htrace hthrew =>
      ?_⟩
    · have hmem : .stored u k a ∈ s.trace := htrace ▸ List.mem_append_left _ hstored
      exact absurd ⟨hinv.stored u k a hmem, .inl hp⟩ hno
    · have hmem : .threw k ∈ s.trace := htrace ▸ List.mem_append_left _ hthrew
      exact absurd (hinv.threw k hmem) hno

/-- A singleton with a `postConstruct` hook: the second thread gets it before the hook has
    completed. -/
theorem uninitialised_singleton_handed_out : ∃ s,
    (hooked allSingletons ⟨fun _ => true, fun _ => false⟩).Reachable s ∧
      ¬ HandsOutInitialised ⟨fun _ => true, fun _ => false⟩ ⟨7, none⟩ s := by
  have hk : allSingletons.Materializable ⟨7, none⟩ :=
    ⟨⟨rfl, rfl, nofun⟩, nofun, by decide⟩
  obtain ⟨s₁, hr₁, hfind, htrace, _, hidle, _⟩ :=
    published (H := ⟨fun _ => true, fun _ => false⟩) hk
  have hu : userCode (s₁.base.threads 2).frames = true := by
    rw [hidle]
    rfl
  obtain ⟨s₂, hr₂, htrace₂⟩ := handed_out (H := ⟨fun _ => true, fun _ => false⟩) (t := 2)
    hk.valid (by decide) hu hfind
  refine ⟨s₂, (empty_reachable.run hr₁).run hr₂, fun h => ?_⟩
  rw [htrace] at htrace₂
  have := h.others [.stored 1 ⟨7, none⟩ 0] [] 2 1 0 htrace₂ List.mem_cons_self (by decide) rfl
  simp at this

end Ctorium.Materialization
