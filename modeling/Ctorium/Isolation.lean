import Ctorium.Materialization

/-!
# Cycle errors across registries and scopes

A resolve that would materialize a bean first looks for its descriptor on the
`materializationStack` of the thread and reports a dependency cycle if it is
there. The stack is one per thread, for all registries and scopes, and holds bare
descriptor identifiers, while identifiers only number the descriptors of one
registry. So a bean that is being materialized may be mistaken for another one.

The machine here is the one of the materializations of several registries, as far
as this check goes: the claims and the `CycleGuard`s, with the stack of each
thread. Whether a thread that finds its key owned by another one waits or reports
a cycle across threads is left open; the wait graph of a registry decides this
(`Ctorium.Materialization.WaitGraph`), and it does not concern the stack.

* `Inv.step`: the stack is read off the materializations in progress, whose
  descriptors are distinct;
* `cycle_errors_real_iff`: along a run all cycle errors are real exactly if no
  resolve that reaches the check has a materialization in progress on its thread
  with the same descriptor identifier in another registry or scope.
-/

namespace Ctorium.Isolation

open Function
open Materialization (ThreadToken MaterializationKey MaterializingEntry Descriptors)

/-- A registry of the program. -/
abbrev RegistryId := ℕ

/-- What is materialized: a key of a registry. The scope of beans with a root lifetime is
    `none`. -/
structure Place where
  registry : RegistryId
  key : MaterializationKey
  deriving DecidableEq, Repr

/-- A materialization in progress: a key that was claimed, or the construction of a prototype
    or thread-local bean under its `CycleGuard`. -/
inductive Frame
  | claimed (place : Place)
  | guarded (place : Place)
  deriving DecidableEq, Repr

def Frame.place : Frame → Place
  | .claimed p | .guarded p => p

/-- A thread: its `materializationStack` (top first), its materializations in progress
    (innermost first), the place it waits for, and its thread-local beans. -/
structure Thread where
  materializationStack : List DescriptorId := []
  frames : List Frame := []
  waiting : Option Place := none
  threadLocals : RegistryId → DescriptorId → Option Addr := fun _ _ => none

/-- An error of a dependency cycle on one thread, with the materializations in progress. -/
structure CycleError where
  thread : ThreadToken
  place : Place
  frames : List Frame
  deriving DecidableEq, Repr

/-- The registries and the threads. -/
structure State where
  /-- The stored singletons and session beans. -/
  instances : Place → Option Addr
  materializing : RegistryId → List MaterializingEntry := fun _ => []
  threads : ThreadToken → Thread := fun _ => {}
  /-- The cycle errors raised so far (history). -/
  raised : List CycleError := []

namespace State

def setThread (s : State) (t : ThreadToken) (th : Thread) : State :=
  { s with threads := update s.threads t th }

/-- A cycle on the own thread is reported. -/
def raise (s : State) (t : ThreadToken) (p : Place) : State :=
  { s with raised := s.raised ++ [⟨t, p, (s.threads t).frames⟩] }

/-- A materialization begins. -/
def push (s : State) (t : ThreadToken) (f : Frame) : State :=
  s.setThread t { s.threads t with
    materializationStack := f.place.key.descId :: (s.threads t).materializationStack
    frames := f :: (s.threads t).frames }

/-- The innermost materialization ends. -/
def pop (s : State) (t : ThreadToken) : State :=
  s.setThread t { s.threads t with
    materializationStack := (s.threads t).materializationStack.tail
    frames := (s.threads t).frames.tail }

def setWaiting (s : State) (t : ThreadToken) (w : Option Place) : State :=
  s.setThread t { s.threads t with waiting := w }

/-- The descriptor is on the stack of the thread. -/
def hasIntraThreadCycle (s : State) (t : ThreadToken) (p : Place) : Bool :=
  p.key.descId ∈ (s.threads t).materializationStack

/-- The thread that owns the key. -/
def ownerOf (s : State) (p : Place) : Option ThreadToken :=
  ((s.materializing p.registry).find? fun entry => entry.key = p.key).map (·.threadToken)

/-- Add the entry of the key to `materializing_`. -/
def addEntry (s : State) (t : ThreadToken) (p : Place) : State :=
  { s with
    materializing := update s.materializing p.registry
      (s.materializing p.registry ++ [⟨p.key, t⟩]) }

/-- Remove the entry of the key from `materializing_`. -/
def eraseEntry (s : State) (p : Place) : State :=
  { s with
    materializing := update s.materializing p.registry
      (swapRemove (fun entry => entry.key = p.key) (s.materializing p.registry)) }

end State

/-- One iteration of the loop of `claimMaterializationOrWait`; `crossThreadCycle` is what the
    wait graph says if another thread owns the key. -/
def claimIteration (s : State) (t : ThreadToken) (p : Place) (crossThreadCycle : Bool) : State :=
  if (s.instances p).isSome then s
  else match s.ownerOf p with
    | none =>
      if s.hasIntraThreadCycle t p then s.raise t p else (s.addEntry t p).push t (.claimed p)
    | some owner =>
      if owner = t then s.raise t p
      else if crossThreadCycle then s
      else s.setWaiting t (some p)

/-- `claimMaterializationOrWait`, from taking the lock. -/
def claimMaterializationOrWait (s : State) (t : ThreadToken) (p : Place)
    (crossThreadCycle : Bool) : State :=
  if s.hasIntraThreadCycle t p then s.raise t p else claimIteration s t p crossThreadCycle

/-- The constructor of `CycleGuard`. -/
def cycleGuard (s : State) (t : ThreadToken) (p : Place) : State :=
  if s.hasIntraThreadCycle t p then s.raise t p else s.push t (.guarded p)

/-- The materialization that a resolve attempts: none if it finds the bean or throws before. -/
def request (P : RegistryId → Descriptors) (s : State) (t : ThreadToken) (r : RegistryId)
    (d : DescriptorId) (scope : Option ScopeId) : Option Frame :=
  let D := P r
  match D.lifetime d with
  | .singleton =>
    let p : Place := ⟨r, ⟨D.primaryOf d, none⟩⟩
    if (s.instances p).isSome then none else some (.claimed p)
  | .session =>
    match scope with
    | none => none
    | some sc =>
      let p : Place := ⟨r, ⟨D.primaryOf d, some sc⟩⟩
      if D.scopeState sc = .stopped then none
      else if (s.instances p).isSome then none
      else if D.scopeState sc = .stopping then none
      else if D.origin (D.primaryOf d) = .runtimeBinding then none
      else some (.claimed p)
  | .prototype => some (.guarded ⟨r, ⟨D.primaryOf d, none⟩⟩)
  | .threadLocal =>
    if ((s.threads t).threadLocals r (D.primaryOf d)).isSome then none
    else some (.guarded ⟨r, ⟨D.primaryOf d, none⟩⟩)

/-- The materialization that a resolve attempts. -/
def attempt (s : State) (t : ThreadToken) (crossThreadCycle : Bool) : Frame → State
  | .claimed p => claimMaterializationOrWait s t p crossThreadCycle
  | .guarded p => cycleGuard s t p

/-- What a thread can do; the outcomes of user code are part of the action. -/
inductive Act
  /-- A resolve of a descriptor of a registry, from its root context or from a scope. -/
  | resolve (r : RegistryId) (d : DescriptorId) (scope : Option ScopeId)
      (crossThreadCycle : Bool)
  /-- Return from `cv_.wait`. -/
  | wake (crossThreadCycle : Bool)
  /-- A thread-local bean is stored; its `CycleGuard` stays. -/
  | storeThreadLocal (mem : Addr)
  /-- The innermost materialization ends, with an instance or by an exception. -/
  | leave (result : Option Addr)
  deriving DecidableEq, Repr

/-- The thread that moves, and what it does. -/
structure Action where
  thread : ThreadToken
  act : Act
  deriving DecidableEq, Repr

/-- The end of the innermost materialization: a claimed key is released, with its instance
    if there is one. -/
def leave (s : State) (t : ThreadToken) (f : Frame) (result : Option Addr) : State :=
  match f with
  | .claimed p =>
    let s := match result with
      | some mem => { s with instances := update s.instances p (some mem) }
      | none => s
    (s.eraseEntry p).pop t
  | .guarded _ => s.pop t

/-- Store a thread-local bean of the thread. -/
def storeThreadLocal (s : State) (t : ThreadToken) (p : Place) (mem : Addr) : State :=
  s.setThread t { s.threads t with
    threadLocals := update (s.threads t).threadLocals p.registry
      (update ((s.threads t).threadLocals p.registry) p.key.descId (some mem)) }

/-- The step function. A thread that waits can only wake up. -/
def step (P : RegistryId → Descriptors) (s : State) (a : Action) : Option State :=
  let t := a.thread
  match a.act, (s.threads t).waiting, (s.threads t).frames with
  | .resolve r d scope cross, none, _ =>
    some (match request P s t r d scope with
      | none => s
      | some f => attempt s t cross f)
  | .wake cross, some p, _ => some (claimIteration (s.setWaiting t none) t p cross)
  | .storeThreadLocal mem, none, .guarded p :: _ =>
    if (P p.registry).lifetime p.key.descId = .threadLocal then
      some (storeThreadLocal s t p mem)
    else none
  | .leave result, none, f :: _ => some (leave s t f result)
  | _, _, _ => none

/-- The machine of the materializations of all registries, from the instances bound before. -/
def machine (P : RegistryId → Descriptors) (bound : Place → Option Addr) :
    Machine State Action where
  Init s := s = { instances := bound }
  step := step P

/-- Every cycle error was raised while the same bean was being materialized on the thread: the
    same descriptor, of the same registry and, for a session bean, in the same scope. -/
def CyclesReal (s : State) : Prop := ∀ e ∈ s.raised, ∃ f ∈ e.frames, f.place = e.place

/-- A resolve that attempts a materialization does so while no other bean with the same
    descriptor identifier is being materialized on its thread. -/
def Unambiguous (P : RegistryId → Descriptors) (s : State) (a : Action) : Prop :=
  match a.act with
  | .resolve r d scope _ => (s.threads a.thread).waiting = none →
      ∀ f ∈ request P s a.thread r d scope, ∀ g ∈ (s.threads a.thread).frames,
        g.place.key.descId = f.place.key.descId → g.place = f.place
  | _ => True

/-! ## The stacks of the threads -/

/-- The invariant of one thread: the stack is read off the materializations in progress, their
    descriptors are distinct, the thread does not wait for one of them, and it owns the keys it
    has claimed. -/
structure ThreadInv (s : State) (t : ThreadToken) : Prop where
  stack : (s.threads t).materializationStack =
    (s.threads t).frames.map fun f => f.place.key.descId
  nodup : (s.threads t).materializationStack.Nodup
  waiting : ∀ p, (s.threads t).waiting = some p →
    p.key.descId ∉ (s.threads t).materializationStack
  owner : ∀ r k, (⟨k, t⟩ : MaterializingEntry) ∈ s.materializing r →
    .claimed ⟨r, k⟩ ∈ (s.threads t).frames

/-- The invariant of all threads. -/
structure Inv (s : State) : Prop where
  thread : ∀ t, ThreadInv s t
  keys : ∀ r, ((s.materializing r).map (·.key)).Nodup

section Invariant

variable {P : RegistryId → Descriptors} {s s' : State} {t : ThreadToken} {p : Place}

theorem inv_initial (bound : Place → Option Addr) : Inv { instances := bound } where
  thread _ := ⟨rfl, List.nodup_nil, nofun, fun _ _ h => absurd h List.not_mem_nil⟩
  keys _ := List.nodup_nil

/-- The invariant after a step of one thread. -/
theorem Inv.of_thread (h : Inv s) (ht : ThreadInv s' t)
    (hother : ∀ u, u ≠ t → s'.threads u = s.threads u)
    (hentry : ∀ u, u ≠ t → ∀ r k, (⟨k, u⟩ : MaterializingEntry) ∈ s'.materializing r →
      (⟨k, u⟩ : MaterializingEntry) ∈ s.materializing r)
    (hkeys : ∀ r, ((s'.materializing r).map (·.key)).Nodup) : Inv s' where
  thread u := by
    by_cases hu : u = t
    · rw [hu]
      exact ht
    · have hth := h.thread u
      have hsame := hother u hu
      refine ⟨?_, ?_, ?_, fun r k hk => ?_⟩
      · rw [hsame]
        exact hth.stack
      · rw [hsame]
        exact hth.nodup
      · rw [hsame]
        exact hth.waiting
      · rw [hsame]
        exact hth.owner r k (hentry u hu r k hk)
  keys := hkeys

theorem threads_setThread_of_ne {th : Thread} {u : ThreadToken} (hu : u ≠ t) :
    (s.setThread t th).threads u = s.threads u := update_of_ne hu _ _

theorem threads_setThread_self {th : Thread} : (s.setThread t th).threads t = th :=
  update_self _ _ _

theorem hasIntraThreadCycle_iff :
    s.hasIntraThreadCycle t p = true ↔ p.key.descId ∈ (s.threads t).materializationStack := by
  simp [State.hasIntraThreadCycle]

theorem hasIntraThreadCycle_eq_false :
    s.hasIntraThreadCycle t p = false ↔ p.key.descId ∉ (s.threads t).materializationStack := by
  simp [State.hasIntraThreadCycle]

/-- The descriptor of a bean being materialized is on the stack. -/
theorem ThreadInv.mem_stack (h : ThreadInv s t) {f : Frame} (hf : f ∈ (s.threads t).frames) :
    f.place.key.descId ∈ (s.threads t).materializationStack := by
  rw [h.stack]
  exact List.mem_map_of_mem hf

/-- One materialization in progress has the descriptor. -/
theorem ThreadInv.frame_unique (h : ThreadInv s t) {f g : Frame}
    (hf : f ∈ (s.threads t).frames) (hg : g ∈ (s.threads t).frames)
    (hfg : f.place.key.descId = g.place.key.descId) : f = g := by
  have hnodup := h.nodup
  rw [h.stack] at hnodup
  exact List.inj_on_of_nodup_map hnodup hf hg hfg

theorem Inv.raise (h : Inv s) (t : ThreadToken) (p : Place) : Inv (s.raise t p) :=
  ⟨fun u => ⟨(h.thread u).stack, (h.thread u).nodup, (h.thread u).waiting, (h.thread u).owner⟩,
    h.keys⟩

theorem Inv.setWaiting (h : Inv s) {w : Option Place}
    (hw : ∀ p, w = some p → p.key.descId ∉ (s.threads t).materializationStack) :
    Inv (s.setWaiting t w) := by
  refine h.of_thread ?_ (fun u hu => threads_setThread_of_ne hu) (fun _ _ _ _ hk => hk) h.keys
  have hth := h.thread t
  refine ⟨?_, ?_, ?_, fun r k hk => ?_⟩ <;> rw [State.setWaiting, threads_setThread_self]
  · exact hth.stack
  · exact hth.nodup
  · exact hw
  · exact hth.owner r k hk

/-- A guard whose descriptor is not on the stack. -/
theorem Inv.push_guarded (h : Inv s) (hw : (s.threads t).waiting = none)
    (hd : p.key.descId ∉ (s.threads t).materializationStack) : Inv (s.push t (.guarded p)) := by
  refine h.of_thread ?_ (fun u hu => threads_setThread_of_ne hu) (fun _ _ _ _ hk => hk) h.keys
  have hth := h.thread t
  refine ⟨?_, ?_, ?_, fun r k hk => ?_⟩ <;> rw [State.push, threads_setThread_self]
  · simp only [List.map_cons, hth.stack]
  · exact List.nodup_cons.2 ⟨hd, hth.nodup⟩
  · intro q hq
    rw [hw] at hq
    cases hq
  · exact List.mem_cons_of_mem _ (hth.owner r k hk)

theorem ownerOf_eq_none (hown : s.ownerOf p = none) :
    p.key ∉ (s.materializing p.registry).map (·.key) := by
  simp only [State.ownerOf, Option.map_eq_none_iff, List.find?_eq_none, decide_eq_true_eq] at hown
  rintro hmem
  obtain ⟨m, hm, heq⟩ := List.mem_map.1 hmem
  exact hown m hm heq

theorem mem_of_ownerOf {u : ThreadToken} (hown : s.ownerOf p = some u) :
    (⟨p.key, u⟩ : MaterializingEntry) ∈ s.materializing p.registry := by
  obtain ⟨⟨k, v⟩, hfind, hv⟩ := Option.map_eq_some_iff.1 hown
  obtain rfl : v = u := hv
  have hk : k = p.key := by simpa using List.find?_some hfind
  rw [← hk]
  exact List.mem_of_find?_eq_some hfind

/-- The entries after a claim. -/
theorem mem_addEntry {r : RegistryId} {m : MaterializingEntry} :
    m ∈ (s.addEntry t p).materializing r ↔
      m ∈ s.materializing r ∨ r = p.registry ∧ m = ⟨p.key, t⟩ := by
  simp only [State.addEntry, update_apply]
  split
  · rename_i hr
    subst hr
    simp
  · rename_i hr
    simp [hr]

/-- A claim of a key that has no owner, whose descriptor is not on the stack. -/
theorem Inv.claim (h : Inv s) (hown : s.ownerOf p = none) (hw : (s.threads t).waiting = none)
    (hd : p.key.descId ∉ (s.threads t).materializationStack) :
    Inv ((s.addEntry t p).push t (.claimed p)) := by
  refine h.of_thread (t := t) ?_ (fun u hu => threads_setThread_of_ne hu) ?_ fun r => ?_
  · have hth := h.thread t
    refine ⟨?_, ?_, ?_, fun r k hk => ?_⟩ <;> rw [State.push, threads_setThread_self]
    · simp only [List.map_cons]
      exact congrArg _ hth.stack
    · exact List.nodup_cons.2 ⟨hd, hth.nodup⟩
    · intro q hq
      exact absurd (hw.symm.trans hq) (by simp)
    -- The new entry belongs to `t`, whose stack has the descriptor on top.
    · rcases mem_addEntry.1 hk with hold | ⟨rfl, hnew⟩
      · exact List.mem_cons_of_mem _ (hth.owner r k hold)
      · cases hnew
        exact List.mem_cons_self
  · intro u hu r k hk
    rcases mem_addEntry.1 hk with hold | ⟨_, hnew⟩
    · exact hold
    · cases hnew
      exact absurd rfl hu
  -- The key had no owner, so it is not among the keys of the registry yet.
  · simp only [State.push, State.setThread, State.addEntry, update_apply]
    split
    · rw [List.map_append, List.nodup_append]
      refine ⟨h.keys _, List.nodup_singleton _, fun k hk k' hk' heq => ?_⟩
      rw [List.map_singleton, List.mem_singleton] at hk'
      rw [heq, hk'] at hk
      exact ownerOf_eq_none hown hk
    · exact h.keys r

/-- The entries after a key is released. -/
theorem mem_eraseEntry (h : Inv s) {r : RegistryId} {m : MaterializingEntry} :
    m ∈ (s.eraseEntry p).materializing r ↔
      m ∈ s.materializing r ∧ (r = p.registry → m.key ≠ p.key) := by
  simp only [State.eraseEntry, update_apply]
  split
  · rename_i hr
    subst hr
    rw [mem_swapRemove_key (h.keys _)]
    simp
  · rename_i hr
    simp [hr]

theorem keys_eraseEntry (h : Inv s) (r : RegistryId) :
    (((s.eraseEntry p).materializing r).map (·.key)).Nodup := by
  simp only [State.eraseEntry, update_apply]
  split
  · exact nodup_swapRemove_key _ (h.keys _)
  · exact h.keys r

/-- The innermost materialization ends, and its key has no entry any more. -/
theorem Inv.pop (h : Inv s) {f : Frame} {rest : List Frame}
    (hf : (s.threads t).frames = f :: rest) (hw : (s.threads t).waiting = none)
    (hfree : ∀ r k, (⟨k, t⟩ : MaterializingEntry) ∈ s.materializing r → f ≠ .claimed ⟨r, k⟩) :
    Inv (s.pop t) := by
  refine h.of_thread ?_ (fun u hu => threads_setThread_of_ne hu) (fun _ _ _ _ hk => hk) h.keys
  have hth := h.thread t
  have hstack := hth.stack
  rw [hf, List.map_cons] at hstack
  refine ⟨?_, ?_, ?_, fun r k hk => ?_⟩ <;> rw [State.pop, threads_setThread_self]
  · simp only [hstack, hf, List.tail_cons]
  · exact hth.nodup.sublist (List.tail_sublist _)
  · intro q hq
    rw [hw] at hq
    cases hq
  · have howned := hth.owner r k hk
    rw [hf] at howned
    simp only [hf, List.tail_cons]
    exact (List.mem_cons.1 howned).resolve_left fun heq => hfree r k hk heq.symm

/-- The release of a key leaves the threads as they are. -/
theorem Inv.eraseEntry (h : Inv s) (p : Place) : Inv (s.eraseEntry p) where
  thread u := ⟨(h.thread u).stack, (h.thread u).nodup, (h.thread u).waiting,
    fun r k hk => (h.thread u).owner r k ((mem_eraseEntry h).1 hk).1⟩
  keys := keys_eraseEntry h

theorem Inv.leave (h : Inv s) {f : Frame} {rest : List Frame}
    (hf : (s.threads t).frames = f :: rest) (hw : (s.threads t).waiting = none)
    (result : Option Addr) : Inv (leave s t f result) := by
  cases f with
  | claimed p =>
    have hclaimed (s₁ : State) (h₁ : Inv s₁) (hth : s₁.threads = s.threads) :
        Inv ((s₁.eraseEntry p).pop t) := by
      have hframes : (s₁.threads t).frames = .claimed p :: rest :=
        (congrArg (fun th => (th t).frames) hth).trans hf
      refine (h₁.eraseEntry p).pop hframes ?_ ?_
      · exact (congrArg (fun th => (th t).waiting) hth).trans hw
      · rintro r k hk heq
        cases heq
        exact ((mem_eraseEntry h₁).1 hk).2 rfl rfl
    unfold Isolation.leave
    cases result with
    | none => exact hclaimed s h rfl
    | some mem => exact hclaimed _ ⟨fun u => ⟨(h.thread u).stack, (h.thread u).nodup,
        (h.thread u).waiting, (h.thread u).owner⟩, h.keys⟩ rfl
  | guarded p => exact h.pop hf hw nofun

theorem Inv.storeThreadLocal (h : Inv s) (p : Place) (mem : Addr) :
    Inv (storeThreadLocal s t p mem) := by
  refine h.of_thread (t := t) ?_ (fun u hu => threads_setThread_of_ne hu) (fun _ _ _ _ hk => hk)
    h.keys
  have hth := h.thread t
  refine ⟨?_, ?_, ?_, fun r k hk => ?_⟩ <;>
    rw [Isolation.storeThreadLocal, threads_setThread_self]
  · exact hth.stack
  · exact hth.nodup
  · exact hth.waiting
  · exact hth.owner r k hk

/-- An iteration of the claim loop of a thread whose stack does not hold the descriptor: it
    keeps the invariant and raises no cycle error. -/
theorem claimIteration_spec (h : Inv s) (hw : (s.threads t).waiting = none)
    (hd : p.key.descId ∉ (s.threads t).materializationStack) (cross : Bool) :
    Inv (claimIteration s t p cross) ∧ (claimIteration s t p cross).raised = s.raised := by
  unfold claimIteration
  split
  · exact ⟨h, rfl⟩
  · split
    · rename_i hown
      rw [hasIntraThreadCycle_eq_false.2 hd]
      exact ⟨h.claim hown hw hd, rfl⟩
    · rename_i owner hown
      split
      · rename_i howner
        subst howner
        -- The thread would be materializing the bean, and its descriptor on the stack.
        have hframe := (h.thread owner).owner _ _ (mem_of_ownerOf hown)
        exact absurd ((h.thread owner).mem_stack hframe) hd
      · split
        · exact ⟨h, rfl⟩
        · refine ⟨h.setWaiting fun q hq => ?_, rfl⟩
          cases hq
          exact hd

/-- The error that the check of a resolve raises if the descriptor is on the stack. -/
def checkErrors (s : State) (t : ThreadToken) (p : Place) : List CycleError :=
  if p.key.descId ∈ (s.threads t).materializationStack then [⟨t, p, (s.threads t).frames⟩] else []

theorem claimMaterializationOrWait_spec (h : Inv s) (hw : (s.threads t).waiting = none)
    (p : Place) (cross : Bool) :
    Inv (claimMaterializationOrWait s t p cross) ∧
      (claimMaterializationOrWait s t p cross).raised = s.raised ++ checkErrors s t p := by
  unfold claimMaterializationOrWait checkErrors
  by_cases hd : p.key.descId ∈ (s.threads t).materializationStack
  · rw [if_pos (hasIntraThreadCycle_iff.2 hd), if_pos hd]
    exact ⟨h.raise t p, rfl⟩
  · rw [hasIntraThreadCycle_eq_false.2 hd, if_neg hd, List.append_nil]
    exact claimIteration_spec h hw hd cross

theorem cycleGuard_spec (h : Inv s) (hw : (s.threads t).waiting = none) (p : Place) :
    Inv (cycleGuard s t p) ∧ (cycleGuard s t p).raised = s.raised ++ checkErrors s t p := by
  unfold cycleGuard checkErrors
  by_cases hd : p.key.descId ∈ (s.threads t).materializationStack
  · rw [if_pos (hasIntraThreadCycle_iff.2 hd), if_pos hd]
    exact ⟨h.raise t p, rfl⟩
  · rw [hasIntraThreadCycle_eq_false.2 hd, if_neg hd, List.append_nil]
    exact ⟨h.push_guarded hw hd, rfl⟩

/-- The errors that a step raises: those of the check of a resolve. -/
def newErrors (P : RegistryId → Descriptors) (s : State) (a : Action) : List CycleError :=
  match a.act with
  | .resolve r d scope _ =>
    match request P s a.thread r d scope with
    | some f => checkErrors s a.thread f.place
    | none => []
  | _ => []

/-- Every step keeps the invariant and raises what its check says. -/
theorem step_spec (h : Inv s) {a : Action} (hs : step P s a = some s') :
    Inv s' ∧ s'.raised = s.raised ++ newErrors P s a := by
  obtain ⟨t, act⟩ := a
  simp only [step] at hs
  -- The thread asks for a bean.
  split at hs
  · rename_i r d scope cross hw
    obtain rfl := Option.some.inj hs
    simp only [newErrors]
    cases request P s t r d scope with
    | none => exact ⟨h, (List.append_nil _).symm⟩
    | some f =>
      cases f with
      | claimed p => exact claimMaterializationOrWait_spec h hw p cross
      | guarded p => exact cycleGuard_spec h hw p
  -- The thread wakes up from a wait and tries to claim again.
  · rename_i cross p hw
    obtain rfl := Option.some.inj hs
    have hd := (h.thread t).waiting p hw
    have hidle : Inv (s.setWaiting t none) := h.setWaiting nofun
    have hstate : (s.setWaiting t none).threads t = { s.threads t with waiting := none } :=
      threads_setThread_self
    have hspec := claimIteration_spec (t := t) (p := p) hidle (by rw [hstate])
      (by rw [hstate]; exact hd) cross
    exact ⟨hspec.1, hspec.2.trans (List.append_nil _).symm⟩
  -- A construction has ended with a bean.
  · rename_i mem p rest hw hf
    obtain ⟨_, heq⟩ := Option.ite_none_right_eq_some.1 hs
    obtain rfl := Option.some.inj heq
    exact ⟨h.storeThreadLocal p mem, (List.append_nil _).symm⟩
  -- A construction has ended, with a bean or an exception, and the guard is left.
  · rename_i result f rest hw hf
    obtain rfl := Option.some.inj hs
    refine ⟨h.leave hf hw result, ?_⟩
    cases f <;> cases result <;> exact (List.append_nil _).symm
  · cases hs

end Invariant

/-! ## The cycle errors of a run -/

section Runs

variable {P : RegistryId → Descriptors} {s s' : State}

/-- The error of a check is real exactly if no other bean with the descriptor identifier is
    being materialized on the thread. -/
theorem checkErrors_real_iff {t : ThreadToken} (h : ThreadInv s t) (p : Place) :
    (∀ e ∈ checkErrors s t p, ∃ f ∈ e.frames, f.place = e.place) ↔
      ∀ g ∈ (s.threads t).frames, g.place.key.descId = p.key.descId → g.place = p := by
  unfold checkErrors
  split
  · rename_i hd
    simp only [List.mem_singleton, forall_eq]
    constructor
    · -- The frame with this descriptor is unique, so it is the one of the same bean.
      rintro ⟨f, hf, rfl⟩ g hg heq
      rw [h.frame_unique hg hf heq]
    · intro hamb
      rw [h.stack] at hd
      obtain ⟨g, hg, heq⟩ := List.mem_map.1 hd
      exact ⟨g, hg, hamb g hg heq⟩
  · rename_i hd
    refine ⟨fun _ g hg heq => ?_, fun _ e he => absurd he List.not_mem_nil⟩
    exact absurd (heq ▸ h.mem_stack hg) hd

/-- A resolve is only made by a thread that does not wait. -/
theorem waiting_eq_none_of_step {t : ThreadToken} {r : RegistryId} {d : DescriptorId}
    {scope : Option ScopeId} {cross : Bool}
    (hs : step P s ⟨t, .resolve r d scope cross⟩ = some s') : (s.threads t).waiting = none := by
  cases hw : (s.threads t).waiting with
  | none => rfl
  | some p => simp [step, hw] at hs

/-- The errors of a step are real exactly if its resolve is unambiguous. -/
theorem newErrors_real_iff (h : Inv s) {a : Action} (hs : step P s a = some s') :
    (∀ e ∈ newErrors P s a, ∃ f ∈ e.frames, f.place = e.place) ↔ Unambiguous P s a := by
  obtain ⟨t, act⟩ := a
  cases act with
  | resolve r d scope cross =>
    have hw := waiting_eq_none_of_step hs
    simp only [newErrors, Unambiguous, hw, forall_const]
    cases request P s t r d scope with
    | none => simp
    | some f =>
      rw [checkErrors_real_iff (h.thread t)]
      simp
  | _ => simp [newErrors, Unambiguous]

/-- A step keeps all cycle errors real exactly if its resolve is unambiguous. -/
theorem cyclesReal_step (h : Inv s) {a : Action} (hs : step P s a = some s') :
    CyclesReal s' ↔ CyclesReal s ∧ Unambiguous P s a := by
  unfold CyclesReal
  rw [(step_spec h hs).2, ← newErrors_real_iff h hs]
  constructor
  · intro hall
    exact ⟨fun e he => hall e (List.mem_append_left _ he),
      fun e he => hall e (List.mem_append_right _ he)⟩
  · rintro ⟨hold, hnew⟩ e he
    rcases List.mem_append.1 he with he | he
    · exact hold e he
    · exact hnew e he

/-- A resolve that is not enabled is that of a waiting thread. -/
theorem unambiguous_of_disabled {a : Action} (hs : step P s a = none) : Unambiguous P s a := by
  obtain ⟨t, act⟩ := a
  cases act with
  | resolve r d scope cross =>
    intro hw
    simp [step, hw] at hs
  | _ => trivial

/-- For every program of registries, scopes and threads, and every run: all cycle errors are
    raised while a materialization of the same descriptor in the same registry and scope is in
    progress on the thread, exactly if every resolve that attempts a materialization does so
    while no other bean with the same descriptor identifier is being materialized there. -/
theorem cycle_errors_real_iff (P : RegistryId → Descriptors) (bound : Place → Option Addr)
    (as : List Action) :
    (∀ k s, (machine P bound).run { instances := bound } (as.take k) = some s → CyclesReal s) ↔
      (machine P bound).Along (Unambiguous P) { instances := bound } as := by
  refine Machine.along_iff_forall (I := Inv) (P := CyclesReal) ?_ ?_ ?_ (inv_initial bound) ?_ as
  · intro s a s' h hs
    exact (step_spec h hs).1
  · intro s a s' h hs
    exact cyclesReal_step h hs
  · intro s a _ hs
    exact unambiguous_of_disabled hs
  · exact fun e he => absurd he List.not_mem_nil

end Runs

/-- The constructor of the first bean of one context resolves the first bean of another. -/
def crossContextActions : List Action :=
  [⟨1, .resolve 0 0 none false⟩, ⟨1, .resolve 1 0 none false⟩]

/-- Constructing a bean of one context inside a constructor of another one is reported as a
    cycle, though the beans are unrelated. -/
theorem cross_context_reported : ∃ s,
    (machine (fun _ => Materialization.allSingletons) fun _ => none).run
      { instances := fun _ => none } crossContextActions = some s ∧
    s.raised = [⟨1, ⟨1, ⟨0, none⟩⟩, [.claimed ⟨0, ⟨0, none⟩⟩]⟩] ∧ ¬ CyclesReal s := by
  refine ⟨_, rfl, rfl, fun h => ?_⟩
  obtain ⟨f, hf, hplace⟩ := h _ List.mem_cons_self
  rw [List.mem_singleton.1 hf] at hplace
  exact absurd hplace (by decide)

end Ctorium.Isolation
