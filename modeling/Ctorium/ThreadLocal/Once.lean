import Ctorium.ThreadLocal
import Mathlib.Data.List.Nodup
import Mathlib.Data.List.Perm.Basic

/-!
# Thread-local instances are destroyed exactly once

The property `ExactlyOnce` holds in every state that a run reaches whose steps
all meet `FirstTouch`:

* the first thread-local resolution of a thread comes before its first claim of a
  singleton or session bean, and the same for each registry separately;
* when `~TLCleanup` begins, the thread has an instance for each active registry
  that it touched (not all of its constructors threw);
* from then on the thread resolves thread-local beans only in hooks, and of
  registries that `~TLCleanup` has still to visit, and other beans only of
  registries that it is registered for.

Without the first condition the `TLData` of the thread is not in
`tlThreadStores_`, and `stop` misses its instances (`claim_first_leaks`).

The invariant has three parts: what holds of each thread alone, how the threads
and the lists `tlThreadStores_` fit together, and the accounting of the
instances that were stored, are held and have been destroyed.
-/

namespace Ctorium.ThreadLocal

open Function

variable {s s' : State} {t : ThreadId} {r : RegistryId}

/-! ## The property -/

/-- The entries of all threads. -/
def State.held (s : State) (t : ThreadId) (r : RegistryId) : List (DescriptorId × InstanceId) :=
  (s.threads t).entries r

/-- Who ran the instance through its destruction lifecycle, one entry a run. -/
def State.destroyersOf (s : State) (i : InstanceId) : List Destroyer :=
  (s.destroyed.filter (·.1 = i)).map Prod.snd

/-- The thread holds the instance, `stop` and the exit of the thread are still to
    come, and nobody has destroyed the instance. -/
def State.Pending (s : State) (c : Instance) : Prop :=
  c.id ∈ (s.held c.thread c.registry).map Prod.snd ∧ (s.threads c.thread).status ≠ .exited ∧
    (s.registries c.registry).phase.active ∧ s.destroyersOf c.id = []

/-- The instance went through its destruction lifecycle once, on the exit of its
    thread or on the stop of its registry. -/
def State.DestroyedOnce (s : State) (c : Instance) : Prop :=
  s.destroyersOf c.id = [.exit c.thread] ∨ s.destroyersOf c.id = [.stop c.registry]

/-- Every live thread with an instance for a started registry is listed there
    exactly once; every instance ever stored is either still due to be destroyed,
    or destroyed once; and no destroyed `TLData` or `TLCleanup` was used, nor the iterator of
    `~TLCleanup` invalidated. -/
structure ExactlyOnce (s : State) : Prop where
  listed : ∀ t r, (s.threads t).status = .live → (s.registries r).phase = .started →
    (s.threads t).hasEntriesFor r → (s.registries r).tlThreadStores.count t = 1
  once : ∀ c ∈ s.created, s.Pending c ∨ s.DestroyedOnce c
  alive : s.dangling = false

namespace Thread

/-- A claim finds its way: the thread lives, its `TLCleanup` is not destroyed, or a hook claims on
    a registry that the thread is registered for. -/
def MayClaim (th : Thread) (r : RegistryId) : Prop :=
  match th.status with
  | .tearing objects => .cleanup ∈ th.constructed → .cleanup ∈ objects
  | .hooks .. => r ∈ th.registered
  | _ => True

/-- The same for a thread-local resolution, which a hook makes on a registry that `~TLCleanup` has
    still to visit. -/
def MayTouch (th : Thread) (r : RegistryId) : Prop :=
  match th.status with
  | .tearing objects => .cleanup ∈ th.constructed → .cleanup ∈ objects
  | .hooks todo _ => r ∈ todo
  | _ => True

/-- `~TLCleanup` is to begin. -/
def CleansUp (th : Thread) : Prop :=
  match th.status with
  | .tearing (.cleanup :: _) => True
  | _ => False

instance (th : Thread) (r : RegistryId) : Decidable (th.MayClaim r) := by
  unfold MayClaim
  split <;> infer_instance

instance (th : Thread) (r : RegistryId) : Decidable (th.MayTouch r) := by
  unfold MayTouch
  split <;> infer_instance

instance (th : Thread) : Decidable th.CleansUp := by
  unfold CleansUp
  split <;> infer_instance

end Thread

/-- The condition on the steps of a run. -/
def FirstTouch (s : State) : Action → Prop
  | .claimMaterialization t r => (s.threads t).MayClaim r
  | .materializeThreadLocal t r _ =>
    (.cleanup ∈ (s.threads t).constructed → .data ∈ (s.threads t).constructed) ∧
      (r ∈ (s.threads t).registered → r ∈ (s.threads t).touched) ∧ (s.threads t).MayTouch r
  | .teardown t => (s.threads t).CleansUp → ∀ r ∈ (s.threads t).touched,
    (s.registries r).phase.active → (s.threads t).hasEntriesFor r
  | _ => True

instance (s : State) (a : Action) : Decidable (FirstTouch s a) := by
  unfold FirstTouch
  split <;> infer_instance

/-! ## The invariant -/

namespace Thread

/-- `~TLCleanup` has not begun. -/
def Running (th : Thread) : Prop :=
  match th.status with
  | .live => True
  | .tearing objects => objects = th.constructed.reverse
  | _ => False

/-- The registries that `~TLCleanup` has still to visit. -/
def todo (th : Thread) : List RegistryId :=
  match th.status with
  | .cleaning todo _ | .hooks todo _ => todo
  | .collecting r todo _ => r :: todo
  | _ => []

/-- What an exiting thread still has, at every stage of its exit. -/
def ExitOk (th : Thread) : Prop :=
  match th.status with
  | .live => True
  | .tearing objects => objects = th.constructed.reverse ∨
    (.cleanup ∉ objects ∧ .cleanup ∈ th.constructed ∧ ∀ r, th.entries r = [])
  | .cleaning _ objects | .collecting _ _ objects | .hooks _ objects =>
    objects = [.data] ∧ .cleanup ∈ th.constructed ∧ ∀ r, th.entries r ≠ [] → r ∈ th.todo
  | .exited => ∀ r, th.entries r = []

/-- What holds of every thread, whatever the others do. -/
structure Ok (th : Thread) : Prop where
  constructed : th.constructed = [] ∨ th.constructed = [.cleanup] ∨
    th.constructed = [.data, .cleanup] ∨ (¬th.Running ∧ th.constructed = [.cleanup, .data])
  registered : th.registered.Nodup
  todo : th.todo.Nodup ∧ ∀ r ∈ th.todo, r ∈ th.registered
  touched : ∀ r ∈ th.touched, r ∈ th.registered ∧ th.constructed = [.data, .cleanup]
  entries : ∀ r, th.entries r ≠ [] → r ∈ th.touched
  storing : ∀ f ∈ th.stack, ∀ r, f.storing = some r →
    r ∈ th.touched ∧ th.findInstance r f.descId = none ∧ (th.Running ∨ r ∈ th.todo)
  stack_nodup : (th.stack.map Frame.descId).Nodup
  stack_runs : th.stack ≠ [] → th.status.runsUserCode
  exit : th.ExitOk

end Thread

/-- How the lists `tlThreadStores_` fit the threads. -/
structure Listing (s : State) : Prop where
  touched : ∀ t r, t ∈ (s.registries r).tlThreadStores →
    r ∈ (s.threads t).touched ∧ (s.registries r).phase.active
  started : ∀ t r, r ∈ (s.threads t).touched → (s.registries r).phase ≠ .fresh
  running : ∀ t r, (s.threads t).Running → r ∈ (s.threads t).touched →
    (s.registries r).phase.active → t ∈ (s.registries r).tlThreadStores
  held : ∀ t r, (s.threads t).entries r ≠ [] → t ∈ (s.registries r).tlThreadStores
  exiting : ∀ t r, ¬(s.threads t).Running → t ∈ (s.registries r).tlThreadStores →
    (s.threads t).entries r ≠ []
  todo : ∀ t, ∀ r ∈ (s.threads t).todo, r ∈ (s.threads t).touched →
    (s.registries r).phase.active → (s.threads t).entries r ≠ []
  nodup : ∀ r, (s.registries r).tlThreadStores.Nodup

/-- The books of the instances: who holds them, which ones were stored, and
    which ones were destroyed. -/
structure Accounting (held : ThreadId → RegistryId → List (DescriptorId × InstanceId))
    (created : List Instance) (destroyed : List (InstanceId × Destroyer))
    (nextId : InstanceId) : Prop where
  created_nodup : (created.map Instance.id).Nodup
  created_lt : ∀ c ∈ created, c.id < nextId
  held_created : ∀ t r, ∀ e ∈ held t r, ⟨e.2, t, r⟩ ∈ created
  held_nodup : ∀ t r, ((held t r).map Prod.snd).Nodup
  held_alive : ∀ t r, ∀ e ∈ held t r, e.2 ∉ destroyed.map Prod.fst
  destroyed_nodup : (destroyed.map Prod.fst).Nodup
  destroyed_by : ∀ x ∈ destroyed, ∃ c ∈ created,
    c.id = x.1 ∧ (x.2 = .exit c.thread ∨ x.2 = .stop c.registry)
  kept : ∀ c ∈ created, c.id ∈ (held c.thread c.registry).map Prod.snd ∨
    c.id ∈ destroyed.map Prod.fst

structure Inv (s : State) : Prop where
  threads : ∀ t, (s.threads t).Ok
  listing : Listing s
  accounting : Accounting s.held s.created s.destroyed s.nextId
  alive : s.dangling = false

theorem Inv.initial : Inv {} where
  threads t := by constructor <;> simp [Thread.ExitOk, Thread.todo]
  listing := by constructor <;> simp [Thread.Running, Thread.todo]
  accounting := by constructor <;> simp [State.held]
  alive := rfl

/-! ## Small facts on the operations -/

namespace Thread

variable {th : Thread} {o : TLObject}

@[simp] theorem use_registered : (th.use o).registered = th.registered := by
  unfold use; split <;> rfl
@[simp] theorem use_touched : (th.use o).touched = th.touched := by unfold use; split <;> rfl
@[simp] theorem use_entries : (th.use o).entries = th.entries := by unfold use; split <;> rfl
@[simp] theorem use_stack : (th.use o).stack = th.stack := by unfold use; split <;> rfl

theorem use_of_mem (h : o ∈ th.constructed) : th.use o = th := if_pos h

@[simp] theorem use_todo : (th.use o).todo = th.todo := by
  unfold use
  split
  · rfl
  · cases hst : th.status <;> simp [todo, hst, Status.construct]

@[simp] theorem use_runsUserCode :
    (th.use o).status.runsUserCode = th.status.runsUserCode := by
  unfold use
  split
  · rfl
  · cases th.status <;> simp [Status.construct, Status.runsUserCode]

/-- An object that a thread constructs before `~TLCleanup` begins is destroyed in its turn. -/
theorem Running.use (h : th.Running) (o : TLObject) : (th.use o).Running := by
  unfold Thread.use
  split
  · exact h
  · cases hst : th.status <;> simp_all [Running, Status.construct]

theorem Running.todo_eq_nil (h : th.Running) : th.todo = [] := by
  cases hst : th.status <;> simp_all [Running, todo]

theorem Running.not_destroyed (h : th.Running) (o : TLObject) : th.destroyed o = false := by
  cases hst : th.status <;> simp_all [Running, destroyed]

theorem Running.not_invalidates (h : th.Running) (r : RegistryId) : th.invalidates r = false := by
  cases hst : th.status <;> simp_all [Running, invalidates]

theorem Running.runsUserCode (h : th.Running) : th.status.runsUserCode := by
  cases hst : th.status <;> simp_all [Running, Status.runsUserCode]

theorem Running.exitOk (h : th.Running) : th.ExitOk := by
  cases hst : th.status <;> simp_all [Running, ExitOk]

@[simp] theorem register_status : (th.register r).status = th.status := by
  unfold register; split <;> rfl
@[simp] theorem register_constructed : (th.register r).constructed = th.constructed := by
  unfold register; split <;> rfl
@[simp] theorem register_touched : (th.register r).touched = th.touched := by
  unfold register; split <;> rfl
@[simp] theorem register_entries : (th.register r).entries = th.entries := by
  unfold register; split <;> rfl
@[simp] theorem register_stack : (th.register r).stack = th.stack := by
  unfold register; split <;> rfl

theorem mem_register {r' : RegistryId} :
    r' ∈ (th.register r).registered ↔ r' ∈ th.registered ∨ r' = r := by
  unfold register
  split
  · exact ⟨.inl, fun h => h.elim id fun he => he ▸ ‹_›⟩
  · simp

theorem register_of_mem (h : r ∈ th.registered) : th.register r = th := if_pos h

theorem nodup_register (h : th.registered.Nodup) : (th.register r).registered.Nodup := by
  unfold register
  split
  · exact h
  · rename_i hr
    rw [List.nodup_append_comm]
    exact List.nodup_cons.mpr ⟨hr, h⟩

@[simp] theorem register_todo : (th.register r).todo = th.todo := by
  unfold register; split <;> rfl
@[simp] theorem register_running : (th.register r).Running ↔ th.Running := by
  unfold register; split <;> rfl

@[simp] theorem cycleGuard_status {f : Frame} : (th.cycleGuard f).status = th.status := by
  unfold cycleGuard; split <;> rfl
@[simp] theorem cycleGuard_todo {f : Frame} : (th.cycleGuard f).todo = th.todo := by
  unfold cycleGuard; split <;> rfl
@[simp] theorem cycleGuard_running {f : Frame} : (th.cycleGuard f).Running ↔ th.Running := by
  unfold cycleGuard; split <;> rfl
@[simp] theorem cycleGuard_touched {f : Frame} : (th.cycleGuard f).touched = th.touched := by
  unfold cycleGuard; split <;> rfl
@[simp] theorem cycleGuard_entries {f : Frame} : (th.cycleGuard f).entries = th.entries := by
  unfold cycleGuard; split <;> rfl

/-- Without an instance of the descriptor, a store appends. -/
theorem storeInstance_entries {d : DescriptorId} {i : InstanceId}
    (h : th.findInstance r d = none) :
    (th.storeInstance r d i).entries = update th.entries r (th.entries r ++ [(d, i)]) := by
  simp [storeInstance, h]

/-- An exit goes on if the entries are those of before, or of registries that are still to be
    visited. -/
theorem ExitOk.mono {th' : Thread} (h : th.ExitOk) (hstatus : th'.status = th.status)
    (hconstructed : th'.constructed = th.constructed)
    (hentries : ∀ r, th'.entries r ≠ [] → r ∈ th.todo ∨ th.entries r ≠ []) : th'.ExitOk := by
  have htodo : th'.todo = th.todo := by rw [todo, hstatus, ← todo]
  unfold ExitOk at h ⊢
  rw [hstatus, hconstructed]
  split at h
  · trivial
  · rename_i hst
    refine h.imp_right fun ⟨hnot, hmem, hnil⟩ => ⟨hnot, hmem, fun r => by_contra fun hne => ?_⟩
    rcases hentries r hne with hr | hr
    · simp [todo, hst] at hr
    · exact hr (hnil r)
  · exact ⟨h.1, h.2.1, fun r hne => htodo ▸ (hentries r hne).elim id (h.2.2 r)⟩
  · exact ⟨h.1, h.2.1, fun r hne => htodo ▸ (hentries r hne).elim id (h.2.2 r)⟩
  · exact ⟨h.1, h.2.1, fun r hne => htodo ▸ (hentries r hne).elim id (h.2.2 r)⟩
  · rename_i hst
    refine fun r => by_contra fun hne => ?_
    rcases hentries r hne with hr | hr
    · simp [todo, hst] at hr
    · exact hr (h r)

theorem hasEntriesFor_iff : th.hasEntriesFor r = true ↔ th.entries r ≠ [] := by
  simp [hasEntriesFor]

end Thread

theorem Phase.active_of_usable {p : Phase} (h : p.usable) : p.active := by
  cases p <;> simp_all [Phase.usable, Phase.active]

/-! ## Steps of one thread -/

namespace Thread.Ok

variable {th : Thread}

/-- User code that may claim runs before `~TLCleanup` begins, or in a hook. -/
theorem mayClaim (h : th.Ok) (hruns : th.status.runsUserCode) (hmay : th.MayClaim r) :
    th.Running ∨ ∃ todo, th.status = .hooks todo [.data] ∧ .cleanup ∈ th.constructed ∧
      r ∈ th.registered := by
  have hexit := h.exit
  cases hst : th.status with
  | live => exact .inl (by simp [Running, hst])
  | tearing objects =>
    simp only [MayClaim, ExitOk, hst] at hmay hexit
    rcases hexit with hobjects | ⟨hnot, hmem, -⟩
    · exact .inl (by simpa [Running, hst] using hobjects)
    · exact absurd (hmay hmem) hnot
  | hooks todo objects =>
    simp only [MayClaim, ExitOk, hst] at hmay hexit
    exact .inr ⟨todo, by rw [hexit.1], hexit.2.1, hmay⟩
  | cleaning todo objects => simp [hst, Status.runsUserCode] at hruns
  | collecting r todo objects => simp [hst, Status.runsUserCode] at hruns
  | exited => simp [hst, Status.runsUserCode] at hruns

theorem mayTouch (h : th.Ok) (hruns : th.status.runsUserCode) (hmay : th.MayTouch r) :
    th.Running ∨ ∃ todo, th.status = .hooks todo [.data] ∧ r ∈ th.todo := by
  have hexit := h.exit
  cases hst : th.status with
  | live => exact .inl (by simp [Running, hst])
  | tearing objects =>
    simp only [MayTouch, ExitOk, hst] at hmay hexit
    rcases hexit with hobjects | ⟨hnot, hmem, -⟩
    · exact .inl (by simpa [Running, hst] using hobjects)
    · exact absurd (hmay hmem) hnot
  | hooks todo objects =>
    simp only [MayTouch, ExitOk, hst] at hmay hexit
    exact .inr ⟨todo, by rw [hexit.1], by rwa [Thread.todo, hst]⟩
  | cleaning todo objects => simp [hst, Status.runsUserCode] at hruns
  | collecting r todo objects => simp [hst, Status.runsUserCode] at hruns
  | exited => simp [hst, Status.runsUserCode] at hruns

/-- Before `~TLCleanup` begins, `TLCleanup` is constructed last. -/
theorem constructed_of_running (h : th.Ok) (hrunning : th.Running) : th.constructed = [] ∨
    th.constructed = [.cleanup] ∨ th.constructed = [.data, .cleanup] := by
  rcases h.constructed with hc | hc | hc | ⟨hnot, -⟩
  · exact .inl hc
  · exact .inr (.inl hc)
  · exact .inr (.inr hc)
  · exact absurd hrunning hnot

/-- A claim uses `TLCleanup` and registers the registry. -/
theorem claim (h : th.Ok) (hrunning : th.Running) (r : RegistryId) :
    ((th.use .cleanup).register r).Ok where
  constructed := by
    rw [Thread.register_constructed]
    rcases h.constructed_of_running hrunning with hc | hc | hc <;> simp [Thread.use, hc]
  registered := Thread.nodup_register (by simpa using h.registered)
  todo := by simp [hrunning.todo_eq_nil]
  touched r' hr' := by
    rw [Thread.register_touched, Thread.use_touched] at hr'
    obtain ⟨hreg, hconstructed⟩ := h.touched r' hr'
    refine ⟨Thread.mem_register.mpr (.inl (by simpa using hreg)), ?_⟩
    rw [Thread.register_constructed, Thread.use_of_mem (by simp [hconstructed]), hconstructed]
  entries r' := by simpa using h.entries r'
  storing f hf r' hr' := by
    obtain ⟨htouched, hfind, -⟩ := h.storing f (by simpa using hf) r' hr'
    exact ⟨by simpa using htouched, by simpa [Thread.findInstance] using hfind,
      .inl (by simpa using hrunning.use _)⟩
  stack_nodup := by simpa using h.stack_nodup
  stack_runs := by simp [hrunning.runsUserCode]
  exit := (Thread.register_running.mpr (hrunning.use _)).exitOk

/-- The guarded push of a frame whose registry is touched and has no instance yet. -/
theorem cycleGuard (h : th.Ok) (hruns : th.status.runsUserCode) (f : Frame)
    (hf : ∀ r, f.storing = some r →
      r ∈ th.touched ∧ th.findInstance r f.descId = none ∧ (th.Running ∨ r ∈ th.todo)) :
    (th.cycleGuard f).Ok := by
  unfold Thread.cycleGuard
  split
  · exact h
  · rename_i hmem
    refine ⟨h.constructed, h.registered, h.todo, h.touched, h.entries, ?_, ?_, fun _ => hruns,
      h.exit⟩
    · intro g hg r hr
      rcases List.mem_cons.mp hg with rfl | hg
      · exact hf r hr
      · exact h.storing g hg r hr
    · exact List.nodup_cons.mpr ⟨hmem, h.stack_nodup⟩

/-- The use of `TLData` and then `TLCleanup` on the first touch of a registry,
    where `TLCleanup` is not there without `TLData`. -/
theorem touch (h : th.Ok) (hrunning : th.Running) (r : RegistryId)
    (hfirst : .cleanup ∈ th.constructed → .data ∈ th.constructed) :
    ({ ((th.use .data).use .cleanup).register r with touched := r :: th.touched } : Thread).Ok := by
  -- The first touch constructs both objects, `TLData` first.
  have hconstructed : ((th.use .data).use .cleanup).constructed = [.data, .cleanup] := by
    rcases h.constructed_of_running hrunning with hc | hc | hc
    · simp [Thread.use, hc]
    · simp [hc] at hfirst
    · simp [Thread.use, hc]
  have hrunning' : (((th.use .data).use .cleanup).register r).Running :=
    Thread.register_running.mpr ((hrunning.use _).use _)
  constructor
  · exact .inr (.inr (.inl (by rw [Thread.register_constructed, hconstructed])))
  · exact Thread.nodup_register (by simpa using h.registered)
  · have hnil := hrunning'.todo_eq_nil
    exact ⟨hnil ▸ List.nodup_nil, fun r' hr' => absurd (hnil ▸ hr') List.not_mem_nil⟩
  -- Only the registry that is touched is new in the list.
  · intro r' hr'
    refine ⟨Thread.mem_register.mpr ?_, by rw [Thread.register_constructed, hconstructed]⟩
    rcases List.mem_cons.mp hr' with rfl | hr'
    · exact .inr rfl
    · exact .inl (by simpa using (h.touched r' hr').1)
  · intro r' hr'
    exact List.mem_cons_of_mem _ (h.entries r' (by simpa using hr'))
  · intro f hf r' hr'
    obtain ⟨htouched, hfind, -⟩ := h.storing f (by simpa using hf) r' hr'
    exact ⟨List.mem_cons_of_mem _ htouched, by simpa [Thread.findInstance] using hfind,
      .inl hrunning'⟩
  · simpa using h.stack_nodup
  · exact fun _ => hrunning'.runsUserCode
  · exact hrunning'.exitOk

/-- A registry that has been touched is touched again. -/
theorem touch_again (h : th.Ok) (hr : r ∈ th.touched) :
    ({ th with touched := r :: th.touched } : Thread).Ok :=
  { h with
    touched := fun r' hr' => (List.mem_cons.mp hr').elim (fun he => h.touched r' (he ▸ hr))
      (h.touched r')
    entries := fun r' hne => List.mem_cons_of_mem _ (h.entries r' hne)
    storing := fun f hf r' hr' => by
      obtain ⟨htouched, hrest⟩ := h.storing f hf r' hr'
      exact ⟨List.mem_cons_of_mem _ htouched, hrest⟩ }

/-- A thread-local resolution that may begin finds both `thread_local` objects, or constructs them
    in the right order. -/
theorem touches (h : th.Ok) (hruns : th.status.runsUserCode)
    (hfirst : .cleanup ∈ th.constructed → .data ∈ th.constructed)
    (hregistered : r ∈ th.registered → r ∈ th.touched) (hmay : th.MayTouch r) :
    ∃ th', th' = { ((th.use .data).use .cleanup).register r with touched := r :: th.touched } ∧
      th'.Ok ∧ (th'.Running ↔ th.Running) ∧ th'.todo = th.todo ∧ (th.Running ∨ r ∈ th.todo) ∧
      (th.destroyed .data || th.destroyed .cleanup || th.invalidates r) = false := by
  refine ⟨_, rfl, ?_⟩
  rcases h.mayTouch hruns hmay with hrunning | ⟨todo, hst, htodo⟩
  · have hrunning' : (((th.use .data).use .cleanup).register r).Running :=
      Thread.register_running.mpr ((hrunning.use _).use _)
    refine ⟨h.touch hrunning r hfirst, iff_of_true hrunning' hrunning, ?_, .inl hrunning, ?_⟩
    · exact hrunning'.todo_eq_nil.trans hrunning.todo_eq_nil.symm
    · rw [hrunning.not_destroyed, hrunning.not_destroyed, hrunning.not_invalidates]
      rfl
  · have hr := h.todo.2 r htodo
    have hconstructed := (h.touched r (hregistered hr)).2
    rw [Thread.use_of_mem (o := .data) (by simp [hconstructed]),
      Thread.use_of_mem (by simp [hconstructed]), Thread.register_of_mem hr]
    refine ⟨h.touch_again (hregistered hr), Iff.rfl, rfl, .inr htodo, ?_⟩
    simp [Thread.destroyed, Thread.invalidates, hst, hr]

/-- The innermost frame of the stack returns. -/
theorem leave {f : Frame} {rest : List Frame} (h : th.Ok) (hstack : th.stack = f :: rest) :
    ({ th with stack := rest } : Thread).Ok := by
  refine ⟨h.constructed, h.registered, h.todo, h.touched, h.entries, ?_, ?_,
    fun _ => h.stack_runs (by simp [hstack]), h.exit⟩
  · exact fun g hg => h.storing g (by simp [hstack, hg])
  · have := h.stack_nodup
    rw [hstack, List.map_cons, List.nodup_cons] at this
    exact this.2

/-- The constructed instance of the innermost frame is stored. -/
theorem store {d : DescriptorId} {rest : List Frame} (h : th.Ok)
    (hstack : th.stack = ⟨d, some r⟩ :: rest) (i : InstanceId) :
    (({ th with stack := ⟨d, none⟩ :: rest } : Thread).storeInstance r d i).Ok := by
  have hruns : th.status.runsUserCode := h.stack_runs (by simp [hstack])
  obtain ⟨htouched, hfind, hwhere⟩ := h.storing ⟨d, some r⟩ (by simp [hstack]) r rfl
  have hentries : (({ th with stack := ⟨d, none⟩ :: rest } : Thread).storeInstance r d i).entries =
      update th.entries r (th.entries r ++ [(d, i)]) := Thread.storeInstance_entries hfind
  have hnodup := h.stack_nodup
  rw [hstack] at hnodup
  constructor
  · exact h.constructed
  · exact h.registered
  · exact h.todo
  · exact h.touched
  · intro r' hr'
    rw [hentries] at hr'
    by_cases he : r' = r
    · exact he ▸ htouched
    · rw [update_of_ne he] at hr'
      exact h.entries r' hr'
  · intro f hf r' hr'
    rcases List.mem_cons.mp hf with rfl | hf
    · cases hr'
    obtain ⟨htouched', hfind', hwhere'⟩ := h.storing f (by simp [hstack, hf]) r' hr'
    refine ⟨htouched', ?_, hwhere'⟩
    -- The descriptors of the stack differ, so the new entry is not the one of this frame.
    have hne : f.descId ≠ d := by
      intro he
      rw [List.map_cons, List.nodup_cons] at hnodup
      exact hnodup.1 (List.mem_map.mpr ⟨f, hf, he⟩)
    rw [Thread.findInstance, hentries]
    by_cases he : r' = r
    · subst he
      rw [Thread.findInstance] at hfind'
      simp [List.lookup_append, hfind', List.lookup_cons, beq_eq_false_iff_ne.mpr hne]
    · rw [update_of_ne he]
      exact hfind'
  · exact hnodup
  · exact fun _ => hruns
  · rcases hwhere with hrunning | htodo
    · exact Running.exitOk hrunning
    · refine h.exit.mono rfl rfl fun r' hne => ?_
      rw [hentries] at hne
      by_cases he : r' = r
      · exact .inl (he ▸ htodo)
      · exact .inr (by rwa [update_of_ne he] at hne)

/-- The entries for one registry are erased. -/
theorem eraseRegistry (h : th.Ok) (r : RegistryId) : (th.eraseRegistry r).Ok := by
  have hsub : ∀ r', (th.eraseRegistry r).entries r' ≠ [] → th.entries r' ≠ [] := by
    intro r' hr' he
    by_cases hr : r' = r
    · simp [Thread.eraseRegistry, hr] at hr'
    · simp [Thread.eraseRegistry, hr, he] at hr'
  refine ⟨h.constructed, h.registered, h.todo, h.touched, fun r' hr' => h.entries r' (hsub r' hr'),
    ?_, h.stack_nodup, h.stack_runs, h.exit.mono rfl rfl fun r' hr' => .inr (hsub r' hr')⟩
  intro f hf r' hr'
  obtain ⟨htouched, hfind, hwhere⟩ := h.storing f hf r' hr'
  refine ⟨htouched, ?_, hwhere⟩
  by_cases he : r' = r
  · simp [Thread.findInstance, Thread.eraseRegistry, he]
  · simpa [Thread.findInstance, Thread.eraseRegistry, he] using hfind

/-- A thread without a stack of constructions changes its status. -/
theorem setStatus (h : th.Ok) (hstack : th.stack = []) (st : Status)
    (hrunning : ({ th with status := st } : Thread).Running → th.Running)
    (htodo : ({ th with status := st } : Thread).todo.Nodup ∧
      ∀ r ∈ ({ th with status := st } : Thread).todo, r ∈ th.registered)
    (hexit : ({ th with status := st } : Thread).ExitOk) :
    ({ th with status := st } : Thread).Ok where
  constructed := h.constructed.imp_right <| .imp_right <| .imp_right <| .imp_left fun hnot hr =>
    hnot (hrunning hr)
  registered := h.registered
  todo := htodo
  touched := h.touched
  entries := h.entries
  storing _ hf := absurd (hstack ▸ hf) List.not_mem_nil
  stack_nodup := h.stack_nodup
  stack_runs hne := absurd hstack hne
  exit := hexit

theorem stack_eq_nil (h : th.Ok) (hruns : th.status.runsUserCode = false) : th.stack = [] :=
  by_contra fun hne => by simp [h.stack_runs hne] at hruns

/-- A thread that is listed has its `TLData` before `~TLCleanup` begins. -/
theorem dataAlive_of_running (h : th.Ok) (hrunning : th.Running) (hr : r ∈ th.touched) :
    th.dataAlive := by
  rw [Thread.dataAlive, hrunning.not_destroyed, (h.touched r hr).2]
  rfl

/-- A thread with an entry has its `TLData`, at every stage of its exit. -/
theorem dataAlive_of_entries (h : th.Ok) (hentries : th.entries r ≠ []) : th.dataAlive := by
  have htouched := h.entries r hentries
  have hconstructed := (h.touched r htouched).2
  by_cases hrunning : th.Running
  · exact h.dataAlive_of_running hrunning htouched
  have hexit := h.exit
  unfold Thread.ExitOk at hexit
  split at hexit
  · rename_i hst
    exact absurd (by simp [Running, hst]) hrunning
  · rename_i hst
    rcases hexit with hobjects | ⟨-, -, hnil⟩
    · exact absurd (by simp [Running, hst, hobjects]) hrunning
    · exact absurd (hnil r) hentries
  · rename_i hst
    simp [Thread.dataAlive, Thread.destroyed, hst, hconstructed, hexit.1]
  · rename_i hst
    simp [Thread.dataAlive, Thread.destroyed, hst, hconstructed, hexit.1]
  · rename_i hst
    simp [Thread.dataAlive, Thread.destroyed, hst, hconstructed, hexit.1]
  · exact absurd (hexit r) hentries

end Thread.Ok

/-! ## The books -/

namespace Accounting

variable {held : ThreadId → RegistryId → List (DescriptorId × InstanceId)}
  {created : List Instance} {destroyed destroyed' : List (InstanceId × Destroyer)}
  {nextId : InstanceId}

/-- The order of the destructions does not matter. -/
theorem perm (h : Accounting held created destroyed nextId) (hp : destroyed.Perm destroyed') :
    Accounting held created destroyed' nextId where
  created_nodup := h.created_nodup
  created_lt := h.created_lt
  held_created := h.held_created
  held_nodup := h.held_nodup
  held_alive t r e he hmem := h.held_alive t r e he ((hp.map _).mem_iff.mpr hmem)
  destroyed_nodup := (hp.map _).nodup_iff.mp h.destroyed_nodup
  destroyed_by x hx := h.destroyed_by x (hp.mem_iff.mpr hx)
  kept c hc := (h.kept c hc).imp id (hp.map _).mem_iff.mp

/-- An instance is known by its identity. -/
theorem created_inj (h : Accounting held created destroyed nextId) {c c' : Instance}
    (hc : c ∈ created) (hc' : c' ∈ created) (he : c.id = c'.id) : c = c' :=
  List.inj_on_of_nodup_map h.created_nodup hc hc' he

/-- A new instance is stored. -/
theorem store (h : Accounting held created destroyed nextId) (t : ThreadId) (r : RegistryId)
    (d : DescriptorId) {held' : ThreadId → RegistryId → List (DescriptorId × InstanceId)}
    (hheld : held' t r = held t r ++ [(d, nextId)])
    (hother : ∀ t' r', ¬(t' = t ∧ r' = r) → held' t' r' = held t' r') :
    Accounting held' (⟨nextId, t, r⟩ :: created) destroyed (nextId + 1) := by
  have hfresh : nextId ∉ created.map Instance.id := by
    intro hmem
    obtain ⟨c, hc, he⟩ := List.mem_map.mp hmem
    exact absurd (h.created_lt c hc) (by rw [he]; exact Nat.lt_irrefl _)
  -- An entry is one of before, or the new one.
  have hcases : ∀ t' r', ∀ e ∈ held' t' r', e ∈ held t' r' ∨ (t' = t ∧ r' = r ∧ e.2 = nextId) := by
    intro t' r' e he
    by_cases htr : t' = t ∧ r' = r
    · obtain ⟨rfl, rfl⟩ := htr
      rw [hheld, List.mem_append, List.mem_singleton] at he
      exact he.imp id fun he => ⟨rfl, rfl, by rw [he]⟩
    · exact .inl (hother t' r' htr ▸ he)
  constructor
  · exact List.nodup_cons.mpr ⟨hfresh, h.created_nodup⟩
  · intro c hc
    rcases List.mem_cons.mp hc with rfl | hc
    · exact Nat.lt_succ_self _
    · exact Nat.lt_succ_of_lt (h.created_lt c hc)
  · intro t' r' e he
    rcases hcases t' r' e he with he | ⟨rfl, rfl, he⟩
    · exact List.mem_cons_of_mem _ (h.held_created t' r' e he)
    · exact he ▸ List.mem_cons_self
  · intro t' r'
    by_cases htr : t' = t ∧ r' = r
    · obtain ⟨rfl, rfl⟩ := htr
      rw [hheld, List.map_append, List.nodup_append]
      refine ⟨h.held_nodup t' r', List.nodup_singleton _, ?_⟩
      intro i hi j hj he
      obtain ⟨e, hemem, rfl⟩ := List.mem_map.mp hi
      obtain rfl : j = nextId := by simpa using hj
      exact hfresh (List.mem_map.mpr ⟨_, h.held_created t' r' e hemem, he⟩)
    · exact hother t' r' htr ▸ h.held_nodup t' r'
  · intro t' r' e he hmem
    rcases hcases t' r' e he with he | ⟨-, -, he⟩
    · exact h.held_alive t' r' e he hmem
    · obtain ⟨x, hx, hxe⟩ := List.mem_map.mp hmem
      obtain ⟨c, hc, hid, -⟩ := h.destroyed_by x hx
      exact hfresh (List.mem_map.mpr ⟨c, hc, by rw [hid, hxe, he]⟩)
  · exact h.destroyed_nodup
  · intro x hx
    obtain ⟨c, hc, hxc⟩ := h.destroyed_by x hx
    exact ⟨c, List.mem_cons_of_mem _ hc, hxc⟩
  · intro c hc
    rcases List.mem_cons.mp hc with rfl | hc
    · exact .inl (by simp [hheld])
    · refine (h.kept c hc).imp (fun hmem => ?_) id
      by_cases htr : c.thread = t ∧ c.registry = r
      · rw [htr.1, htr.2, hheld, List.map_append]
        exact List.mem_append_left _ (htr.1 ▸ htr.2 ▸ hmem)
      · exact hother _ _ htr ▸ hmem

/-- The entries of a thread for a registry are destroyed, by the exit of the
    thread or the stop of the registry. -/
theorem collect (h : Accounting held created destroyed nextId) (t : ThreadId) (r : RegistryId)
    {by' : Destroyer} (hby : by' = .exit t ∨ by' = .stop r)
    {held' : ThreadId → RegistryId → List (DescriptorId × InstanceId)}
    (hheld : held' t r = [])
    (hother : ∀ t' r', ¬(t' = t ∧ r' = r) → held' t' r' = held t' r') :
    Accounting held' created (((held t r).map fun e => (e.2, by')) ++ destroyed) nextId := by
  have hids : (((held t r).map fun e => (e.2, by')) ++ destroyed).map Prod.fst =
      (held t r).map Prod.snd ++ destroyed.map Prod.fst := by
    simp [List.map_append, Function.comp_def]
  -- Whatever is still held was held before, elsewhere.
  have hsub : ∀ t' r', ∀ e ∈ held' t' r', e ∈ held t' r' ∧ ¬(t' = t ∧ r' = r) := by
    intro t' r' e he
    by_cases htr : t' = t ∧ r' = r
    · rw [htr.1, htr.2, hheld] at he
      cases he
    · exact ⟨hother t' r' htr ▸ he, htr⟩
  constructor
  · exact h.created_nodup
  · exact h.created_lt
  · exact fun t' r' e he => h.held_created t' r' e (hsub t' r' e he).1
  · intro t' r'
    by_cases htr : t' = t ∧ r' = r
    · rw [htr.1, htr.2, hheld]
      exact List.nodup_nil
    · exact hother t' r' htr ▸ h.held_nodup t' r'
  · intro t' r' e he hmem
    obtain ⟨he, htr⟩ := hsub t' r' e he
    rw [hids, List.mem_append] at hmem
    rcases hmem with hmem | hmem
    -- An instance is held at one place, that of its creation.
    · obtain ⟨e', he', hee⟩ := List.mem_map.mp hmem
      have := h.created_inj (h.held_created t' r' e he) (h.held_created t r e' he') hee.symm
      exact htr ⟨congrArg Instance.thread this, congrArg Instance.registry this⟩
    · exact h.held_alive t' r' e he hmem
  · rw [hids, List.nodup_append]
    refine ⟨h.held_nodup t r, h.destroyed_nodup, ?_⟩
    intro i hi j hj he
    obtain ⟨e, hemem, rfl⟩ := List.mem_map.mp hi
    exact h.held_alive t r e hemem (he ▸ hj)
  · intro x hx
    rcases List.mem_append.mp hx with hx | hx
    · obtain ⟨e, he, rfl⟩ := List.mem_map.mp hx
      exact ⟨_, h.held_created t r e he, rfl, hby⟩
    · exact h.destroyed_by x hx
  · intro c hc
    rw [hids, List.mem_append]
    rcases h.kept c hc with hmem | hmem
    -- What was held here has been destroyed just now.
    · by_cases htr : c.thread = t ∧ c.registry = r
      · exact .inr (.inl (htr.1 ▸ htr.2 ▸ hmem))
      · exact .inl (hother _ _ htr ▸ hmem)
    · exact .inr (.inr hmem)

/-- The sweep of the threads of a list, one collection after the other. -/
theorem collectAll (r : RegistryId) (ts : List ThreadId) (threads : ThreadId → Thread)
    (h : Accounting (fun t r => (threads t).entries r) created destroyed nextId) :
    Accounting (fun t r' => ((State.collectAll r (.stop r) ts threads).1 t).entries r') created
      ((State.collectAll r (.stop r) ts threads).2 ++ destroyed) nextId := by
  induction ts generalizing threads destroyed with
  | nil => exact h
  | cons t ts ih =>
    have hone : Accounting
        (fun t' r' => (update threads t ((threads t).eraseRegistry r) t').entries r') created
        (State.destructions (threads t) r (.stop r) ++ destroyed) nextId := by
      refine h.collect t r (.inr rfl) (by simp [Thread.eraseRegistry]) fun t' r' htr => ?_
      by_cases ht : t' = t
      · subst ht
        simp [Thread.eraseRegistry, show r' ≠ r from fun hr => htr ⟨rfl, hr⟩]
      · simp [update_of_ne ht]
    refine (ih _ hone).perm ?_
    simp only [State.collectAll, ← List.append_assoc]
    exact List.perm_append_comm.append_right _

end Accounting

/-- The sweep erases the entries for the registry of every thread on the list,
    and changes nothing else. -/
theorem State.collectAll_threads (r : RegistryId) (by' : Destroyer) (ts : List ThreadId)
    (threads : ThreadId → Thread) (t : ThreadId) :
    (State.collectAll r by' ts threads).1 t =
      if t ∈ ts then (threads t).eraseRegistry r else threads t := by
  induction ts generalizing threads with
  | nil => rfl
  | cons u ts ih =>
    rw [State.collectAll, ih]
    by_cases hu : t = u
    · subst hu
      simp [Thread.eraseRegistry]
    · simp [hu]

theorem State.setThread_self {th : Thread} : (s.setThread t th).threads t = th := update_self ..

theorem State.setThread_of_ne {th : Thread} {t' : ThreadId} (ht : t' ≠ t) :
    (s.setThread t th).threads t' = s.threads t' := update_of_ne ht ..

/-! ## The lists of the threads -/

namespace Listing

variable {s s' : State} {t : ThreadId} {r : RegistryId}

/-- A thread that is listed has touched its registry, and one that touches a registry is listed. -/
theorem list (h : Listing s) (hactive : (s.registries r).phase.active)
    (hphase : ∀ r', (s'.registries r').phase = (s.registries r').phase)
    (hstores : ∀ t' r', t' ∈ (s'.registries r').tlThreadStores ↔
      t' ∈ (s.registries r').tlThreadStores ∨ (t' = t ∧ r' = r))
    (hnodup : ∀ r', (s'.registries r').tlThreadStores.Nodup)
    (htouched : ∀ t' r', r' ∈ (s'.threads t').touched ↔
      r' ∈ (s.threads t').touched ∨ (t' = t ∧ r' = r))
    (hframe : ∀ t', (s'.threads t').entries = (s.threads t').entries ∧
      ((s'.threads t').Running ↔ (s.threads t').Running) ∧
      (s'.threads t').todo = (s.threads t').todo)
    (hexiting : ¬(s.threads t).Running → (s.threads t).entries r ≠ [])
    (htodo : r ∈ (s.threads t).todo → (s.threads t).entries r ≠ []) : Listing s' := by
  -- The listing of `t` in `r` is new, all else is as before.
  refine ⟨?_, ?_, ?_, ?_, ?_, ?_, hnodup⟩
  · intro t' r' hmem
    rw [hphase, htouched]
    rcases (hstores t' r').mp hmem with hmem | ⟨rfl, rfl⟩
    · exact ⟨.inl (h.touched t' r' hmem).1, (h.touched t' r' hmem).2⟩
    · exact ⟨.inr ⟨rfl, rfl⟩, hactive⟩
  · intro t' r' hmem
    rw [hphase]
    rcases (htouched t' r').mp hmem with hmem | ⟨rfl, rfl⟩
    · exact h.started t' r' hmem
    · intro hfresh
      simp [hfresh, Phase.active] at hactive
  · intro t' r' hrunning hmem hactive'
    rw [hphase] at hactive'
    rw [(hframe t').2.1] at hrunning
    refine (hstores t' r').mpr (((htouched t' r').mp hmem).imp_left fun hmem => ?_)
    exact h.running t' r' hrunning hmem hactive'
  · intro t' r' hne
    rw [(hframe t').1] at hne
    exact (hstores t' r').mpr (.inl (h.held t' r' hne))
  · intro t' r' hnot hmem
    rw [(hframe t').2.1] at hnot
    rw [(hframe t').1]
    rcases (hstores t' r').mp hmem with hmem | ⟨rfl, rfl⟩
    · exact h.exiting t' r' hnot hmem
    · exact hexiting hnot
  · intro t' r' hr htouch hactive'
    rw [hphase] at hactive'
    rw [(hframe t').2.2] at hr
    rw [(hframe t').1]
    rcases (htouched t' r').mp htouch with htouch | ⟨rfl, rfl⟩
    · exact h.todo t' r' hr htouch hactive'
    · exact htodo hr

/-- A thread that is listed gets more entries. -/
theorem store (h : Listing s) (hlisted : t ∈ (s.registries r).tlThreadStores)
    (hregistries : s'.registries = s.registries)
    (hframe : ∀ t', (s'.threads t').touched = (s.threads t').touched ∧
      ((s'.threads t').Running ↔ (s.threads t').Running) ∧
      (s'.threads t').todo = (s.threads t').todo)
    (hmore : ∀ t' r', (s.threads t').entries r' ≠ [] → (s'.threads t').entries r' ≠ [])
    (hother : ∀ t' r', ¬(t' = t ∧ r' = r) →
      (s'.threads t').entries r' = (s.threads t').entries r') : Listing s' := by
  refine ⟨?_, ?_, ?_, ?_, ?_, ?_, ?_⟩ <;> rw [hregistries]
  · intro t' r' hmem
    rw [(hframe t').1]
    exact h.touched t' r' hmem
  · intro t' r' hmem
    rw [(hframe t').1] at hmem
    exact h.started t' r' hmem
  · intro t' r' hrunning hmem
    rw [(hframe t').1] at hmem
    exact h.running t' r' ((hframe t').2.1.mp hrunning) hmem
  -- The new entry is in a registry that lists the thread.
  · intro t' r' hne
    by_cases htr : t' = t ∧ r' = r
    · obtain ⟨rfl, rfl⟩ := htr
      exact hlisted
    · exact h.held t' r' (hother t' r' htr ▸ hne)
  · intro t' r' hnot hmem
    rw [(hframe t').2.1] at hnot
    exact hmore t' r' (h.exiting t' r' hnot hmem)
  · intro t' r' hr htouch hactive
    rw [(hframe t').2.2] at hr
    rw [(hframe t').1] at htouch
    exact hmore t' r' (h.todo t' r' hr htouch hactive)
  · exact h.nodup

/-- The entries of some threads for some registries are collected, and the threads are listed there
    no more: they are on their way out, or the registry has stopped. -/
theorem erase (h : Listing s) {E : ThreadId → RegistryId → Prop}
    (hstores : ∀ t r, t ∈ (s'.registries r).tlThreadStores ↔
      t ∈ (s.registries r).tlThreadStores ∧ ¬E t r)
    (hnodup : ∀ r, (s'.registries r).tlThreadStores.Nodup)
    (hfresh : ∀ r, (s'.registries r).phase = .fresh → (s.registries r).phase = .fresh)
    (hframe : ∀ t, (s'.threads t).touched = (s.threads t).touched ∧
      ((s'.threads t).Running ↔ (s.threads t).Running) ∧
      (s'.threads t).todo ⊆ (s.threads t).todo)
    (hkept : ∀ t r, ¬E t r → (s'.registries r).phase = (s.registries r).phase ∧
      (s'.threads t).entries r = (s.threads t).entries r)
    (herased : ∀ t r, E t r → (s'.threads t).entries r = [] ∧
      ((s'.registries r).phase.active →
        ¬(s.threads t).Running ∧ r ∉ (s'.threads t).todo)) : Listing s' := by
  -- Whoever holds an entry still has not been erased.
  have hnot : ∀ {t r}, (s'.threads t).entries r ≠ [] → ¬E t r := fun hne he =>
    hne (herased _ _ he).1
  refine ⟨?_, ?_, ?_, ?_, ?_, ?_, hnodup⟩
  · intro t r hmem
    obtain ⟨hmem, he⟩ := (hstores t r).mp hmem
    rw [(hframe t).1, (hkept t r he).1]
    exact h.touched t r hmem
  · intro t r hmem hf
    rw [(hframe t).1] at hmem
    exact h.started t r hmem (hfresh r hf)
  · intro t r hrunning hmem hactive
    rw [(hframe t).1] at hmem
    rw [(hframe t).2.1] at hrunning
    have he : ¬E t r := fun he => ((herased t r he).2 hactive).1 hrunning
    rw [(hkept t r he).1] at hactive
    exact (hstores t r).mpr ⟨h.running t r hrunning hmem hactive, he⟩
  · intro t r hne
    have he := hnot hne
    rw [(hkept t r he).2] at hne
    exact (hstores t r).mpr ⟨h.held t r hne, he⟩
  · intro t r hrunning hmem
    obtain ⟨hmem, he⟩ := (hstores t r).mp hmem
    rw [(hframe t).2.1] at hrunning
    rw [(hkept t r he).2]
    exact h.exiting t r hrunning hmem
  · intro t r hr htouch hactive
    have he : ¬E t r := fun he => ((herased t r he).2 hactive).2 hr
    rw [(hframe t).1] at htouch
    rw [(hkept t r he).1] at hactive
    rw [(hkept t r he).2]
    exact h.todo t r ((hframe t).2.2 hr) htouch hactive

end Listing

/-! ## The steps preserve the invariant -/

@[simp] theorem State.setThread_held_of_entries {th : Thread}
    (h : th.entries = (s.threads t).entries) : (s.setThread t th).held = s.held := by
  funext t' r'
  by_cases ht : t' = t
  · subst ht
    simp [State.held, State.setThread, h]
  · simp [State.held, State.setThread, ht]

namespace Inv

/-- The mark of a misuse stays clear. -/
theorem withDangling (h : Inv s) {b : Bool} (hb : b = false) : Inv { s with dangling := b } :=
  ⟨h.threads, ⟨h.listing.touched, h.listing.started, h.listing.running, h.listing.held,
    h.listing.exiting, h.listing.todo, h.listing.nodup⟩, h.accounting, hb⟩

/-- A thread changes neither its entries nor the registries it touched, and does not come back
    from its exit. If `~TLCleanup` begins now, it has an entry wherever it is listed, and where it
    has still to visit an active registry. -/
theorem setThread_of_listed (h : Inv s) {th : Thread} (hok : th.Ok)
    (htouched : th.touched = (s.threads t).touched) (hentries : th.entries = (s.threads t).entries)
    (hrunning : th.Running → (s.threads t).Running)
    (hexiting : ¬th.Running → ∀ r, t ∈ (s.registries r).tlThreadStores → th.entries r ≠ [])
    (htodo : ∀ r ∈ th.todo, r ∈ th.touched → (s.registries r).phase.active → th.entries r ≠ []) :
    Inv (s.setThread t th) := by
  -- The threads agree with those of before in what the registries know about them.
  have hthread : ∀ t', ((s.setThread t th).threads t').touched = (s.threads t').touched ∧
      ((s.setThread t th).threads t').entries = (s.threads t').entries ∧
      (((s.setThread t th).threads t').Running → (s.threads t').Running) := by
    intro t'
    by_cases ht : t' = t
    · subst ht
      simpa [State.setThread] using ⟨htouched, hentries, hrunning⟩
    · simp [State.setThread, ht]
  refine ⟨?_, ⟨?_, ?_, ?_, ?_, ?_, ?_, h.listing.nodup⟩, ?_, h.alive⟩
  · intro t'
    by_cases ht : t' = t
    · subst ht
      simpa [State.setThread] using hok
    · simpa [State.setThread, ht] using h.threads t'
  · intro t' r'
    rw [(hthread t').1]
    exact h.listing.touched t' r'
  · intro t' r'
    rw [(hthread t').1]
    exact h.listing.started t' r'
  · intro t' r' hrunning'
    rw [(hthread t').1]
    exact h.listing.running t' r' ((hthread t').2.2 hrunning')
  · intro t' r'
    rw [(hthread t').2.1]
    exact h.listing.held t' r'
  · intro t' r' hnot hmem
    by_cases ht : t' = t
    · subst ht
      simp only [State.setThread, update_self] at hnot ⊢
      exact hexiting hnot r' hmem
    · simp only [State.setThread, update_of_ne ht] at hnot ⊢
      exact h.listing.exiting t' r' hnot hmem
  · intro t'
    by_cases ht : t' = t
    · subst ht
      simpa [State.setThread] using htodo
    · simp only [State.setThread, update_of_ne ht]
      exact h.listing.todo t'
  · rw [State.setThread_held_of_entries hentries]
    exact h.accounting

/-- The same where `~TLCleanup` does not begin now: the rest of the system does not notice. -/
theorem setThread (h : Inv s) {th : Thread} (hok : th.Ok)
    (htouched : th.touched = (s.threads t).touched) (hentries : th.entries = (s.threads t).entries)
    (hrunning : th.Running ↔ (s.threads t).Running) (htodo : th.todo ⊆ (s.threads t).todo) :
    Inv (s.setThread t th) := by
  refine h.setThread_of_listed hok htouched hentries hrunning.mp (fun hnot r hmem => ?_)
    fun r hr htouch hactive => ?_
  · rw [hentries]
    exact h.listing.exiting t r (fun hl => hnot (hrunning.mpr hl)) hmem
  · rw [hentries]
    exact h.listing.todo t r (htodo hr) (htouched ▸ htouch) hactive

/-- A registry moves to another phase and is active as before, or starts. -/
theorem setPhase (h : Inv s) {p : Phase} (hp : p ≠ .fresh)
    (hactive : p.active = (s.registries r).phase.active ∨ (s.registries r).phase = .fresh) :
    Inv (s.setPhase r p) := by
  have hstores : ∀ r', ((s.setPhase r p).registries r').tlThreadStores =
      (s.registries r').tlThreadStores := by
    intro r'
    by_cases hr : r' = r
    · subst hr
      simp [State.setPhase, State.setRegistry]
    · simp [State.setPhase, State.setRegistry, hr]
  -- The activity of a touched registry does not change, since it is not fresh.
  have hact : ∀ r', (s.registries r').phase ≠ .fresh →
      ((s.setPhase r p).registries r').phase.active = (s.registries r').phase.active := by
    intro r' hne
    by_cases hr : r' = r
    · subst hr
      simpa [State.setPhase, State.setRegistry] using hactive.resolve_right hne
    · simp [State.setPhase, State.setRegistry, hr]
  refine ⟨h.threads, ⟨?_, ?_, ?_, ?_, ?_, ?_, ?_⟩, h.accounting, h.alive⟩
  · intro t r' hmem
    rw [hstores] at hmem
    obtain ⟨htouched, hactive⟩ := h.listing.touched t r' hmem
    exact ⟨htouched, by rw [hact r' (h.listing.started t r' htouched)]; exact hactive⟩
  · intro t r' htouched
    by_cases hr : r' = r
    · subst hr
      simpa [State.setPhase, State.setRegistry] using hp
    · simpa [State.setPhase, State.setRegistry, hr] using h.listing.started t r' htouched
  · intro t r' hrunning htouched hactive
    rw [hact r' (h.listing.started t r' htouched)] at hactive
    rw [hstores]
    exact h.listing.running t r' hrunning htouched hactive
  · intro t r' hne
    rw [hstores]
    exact h.listing.held t r' hne
  · intro t r' hnot hmem
    rw [hstores] at hmem
    exact h.listing.exiting t r' hnot hmem
  · intro t r' htodo htouched hactive
    rw [hact r' (h.listing.started t r' htouched)] at hactive
    exact h.listing.todo t r' htodo htouched hactive
  · intro r'
    rw [hstores]
    exact h.listing.nodup r'

theorem start (h : Inv s) (hs : s.start r = some s') : Inv s' := by
  simp only [State.start, Option.ite_none_right_eq_some, Option.some.injEq] at hs
  obtain ⟨hphase, rfl⟩ := hs
  refine h.setPhase (by decide) ?_
  rcases hphase with hp | hp
  · exact .inr hp
  · exact .inl (by rw [hp]; rfl)

theorem rollbackFailedStart (h : Inv s) (hs : s.rollbackFailedStart r = some s') : Inv s' := by
  simp only [State.rollbackFailedStart, Option.ite_none_right_eq_some, Option.some.injEq] at hs
  obtain ⟨hphase, rfl⟩ := hs
  exact h.setPhase (by decide) (.inl (by rw [hphase]; rfl))

theorem stopBegin (h : Inv s) (hs : s.stopBegin r = some s') : Inv s' := by
  simp only [State.stopBegin, Option.ite_none_right_eq_some, Option.some.injEq] at hs
  obtain ⟨hphase, rfl⟩ := hs
  exact h.setPhase (by decide) (.inl (by rw [hphase]; rfl))

theorem drop (h : Inv s) (hs : s.drop r = some s') : Inv s' := by
  simp only [State.drop, Option.ite_none_right_eq_some, Option.some.injEq] at hs
  obtain ⟨hphase, rfl⟩ := hs
  exact h.setPhase (by decide) (.inl (by rw [hphase]; rfl))

/-- A claim in a hook changes nothing, since the thread is registered. -/
theorem claimMaterialization (h : Inv s) (hfirst : FirstTouch s (.claimMaterialization t r))
    (hs : s.claimMaterialization t r = some s') : Inv s' := by
  simp only [State.claimMaterialization, Option.ite_none_right_eq_some, Option.some.injEq] at hs
  obtain ⟨⟨hruns, -⟩, rfl⟩ := hs
  rcases (h.threads t).mayClaim hruns hfirst with hrunning | ⟨todo, hst, hmem, hr⟩
  · have hrunning' : (((s.threads t).use .cleanup).register r).Running :=
      Thread.register_running.mpr (hrunning.use _)
    refine (h.setThread ((h.threads t).claim hrunning r) (by simp) (by simp)
      (iff_of_true hrunning' hrunning) (by simp)).withDangling ?_
    rw [h.alive, hrunning.not_destroyed, hrunning.not_invalidates]
    rfl
  · rw [Thread.use_of_mem hmem, Thread.register_of_mem hr]
    refine (h.setThread (h.threads t) rfl rfl Iff.rfl fun _ h => h).withDangling ?_
    simp [h.alive, Thread.destroyed, Thread.invalidates, hst, hr]

theorem enter {d : DescriptorId} (h : Inv s) (hs : s.enter t d = some s') : Inv s' := by
  simp only [State.enter, Option.ite_none_right_eq_some, Option.some.injEq] at hs
  obtain ⟨hruns, rfl⟩ := hs
  exact h.setThread ((h.threads t).cycleGuard hruns _ nofun) (by simp) (by simp) (by simp) (by simp)

theorem leave (h : Inv s) (hs : s.leave t = some s') : Inv s' := by
  unfold State.leave at hs
  split at hs
  · rename_i hstack
    obtain rfl := Option.some.inj hs
    exact h.setThread ((h.threads t).leave hstack) rfl rfl Iff.rfl fun _ h => h
  · cases hs

/-- A thread that is registered for an active registry and may touch it is listed there. -/
theorem listed_of_registered (h : Inv s) {d : DescriptorId}
    (hfirst : FirstTouch s (.materializeThreadLocal t r d))
    (hruns : (s.threads t).status.runsUserCode) (hactive : (s.registries r).phase.active)
    (hr : r ∈ (s.threads t).registered) : t ∈ (s.registries r).tlThreadStores := by
  obtain ⟨-, hregistered, hmay⟩ := hfirst
  rcases (h.threads t).mayTouch hruns hmay with hrunning | ⟨-, -, htodo⟩
  · exact h.listing.running t r hrunning (hregistered hr) hactive
  · exact h.listing.held t r (h.listing.todo t r htodo (hregistered hr) hactive)

/-- The first touch of a registry lists the thread there; a later one changes no
    list. The listing survives since a thread is registered without being listed
    only after a claim, or an earlier visit of `~TLCleanup`, which the condition rules out. -/
theorem materializeThreadLocal {d : DescriptorId} (h : Inv s)
    (hfirst : FirstTouch s (.materializeThreadLocal t r d))
    (hs : s.materializeThreadLocal t r d = some s') : Inv s' := by
  simp only [State.materializeThreadLocal, Option.ite_none_right_eq_some, Option.some.injEq] at hs
  obtain ⟨⟨hruns, husable, hfind⟩, rfl⟩ := hs
  have hactive : (s.registries r).phase.active := Phase.active_of_usable husable
  have hlisted := h.listed_of_registered hfirst hruns hactive
  obtain ⟨hdata, hregistered, hmay⟩ := hfirst
  have hnotTouched : r ∉ (s.threads t).registered → t ∉ (s.registries r).tlThreadStores :=
    fun hreg hmem => hreg ((h.threads t).touched r (h.listing.touched t r hmem).1).1
  obtain ⟨touching, htouching, hok, hrunning, htodo, hwhere, hgood⟩ :=
    (h.threads t).touches hruns hdata hregistered hmay
  rw [← htouching]
  set rg' : Registry := if r ∈ ((s.threads t).use .data |>.use .cleanup).registered
    then s.registries r
    else { s.registries r with tlThreadStores := (s.registries r).tlThreadStores ++ [t] } with hrg
  set th' : Thread := touching.cycleGuard ⟨d, some r⟩ with hth
  have hphase : ∀ r', (((s.setRegistry r rg').setThread t th').registries r').phase =
      (s.registries r').phase := by
    intro r'
    by_cases hr : r' = r
    · subst hr
      simp only [State.setThread, State.setRegistry, update_self, hrg]
      split <;> rfl
    · simp [State.setThread, State.setRegistry, hr]
  have hstores : ∀ t' r',
    t' ∈ (((s.setRegistry r rg').setThread t th').registries r').tlThreadStores
      ↔ t' ∈ (s.registries r').tlThreadStores ∨ (t' = t ∧ r' = r) := by
    intro t' r'
    by_cases hr : r' = r
    · subst hr
      simp only [State.setThread, State.setRegistry, update_self, hrg, Thread.use_registered]
      split
      · rename_i hreg
        exact ⟨.inl, fun hor => hor.elim id fun ht => ht.1 ▸ hlisted hreg⟩
      · simp
    · simp [State.setThread, State.setRegistry, hr]
  have htouched : ∀ t' r', r' ∈ (((s.setRegistry r rg').setThread t th').threads t').touched ↔
      r' ∈ (s.threads t').touched ∨ (t' = t ∧ r' = r) := by
    intro t' r'
    by_cases ht : t' = t
    · subst ht
      simp [State.setThread, hth, htouching, or_comm]
    · simp [State.setThread, State.setRegistry, ht]
  have hframe : ∀ t', (((s.setRegistry r rg').setThread t th').threads t').entries =
      (s.threads t').entries ∧
      ((((s.setRegistry r rg').setThread t th').threads t').Running ↔ (s.threads t').Running) ∧
      (((s.setRegistry r rg').setThread t th').threads t').todo = (s.threads t').todo := by
    intro t'
    by_cases ht : t' = t
    · subst ht
      simp only [State.setThread, update_self, hth, Thread.cycleGuard_entries,
        Thread.cycleGuard_running, Thread.cycleGuard_todo]
      exact ⟨by simp [htouching], hrunning, htodo⟩
    · simp [State.setThread, State.setRegistry, ht]
  have hnodup : ∀ r',
      (((s.setRegistry r rg').setThread t th').registries r').tlThreadStores.Nodup := by
    intro r'
    by_cases hr : r' = r
    · subst hr
      simp only [State.setThread, State.setRegistry, update_self, hrg, Thread.use_registered]
      split
      · exact h.listing.nodup r'
      · rename_i hreg
        exact (List.nodup_append_comm.mp
          (List.nodup_cons.mpr ⟨hnotTouched hreg, h.listing.nodup r'⟩))
    · simpa [State.setThread, State.setRegistry, hr] using h.listing.nodup r'
  -- A registry that is still to be visited has been touched before.
  have hvisited : r ∈ (s.threads t).todo → (s.threads t).entries r ≠ [] := fun hr =>
    h.listing.todo t r hr (hregistered ((h.threads t).todo.2 r hr)) hactive
  have hinv : Inv ((s.setRegistry r rg').setThread t th') := by
    refine ⟨?_, h.listing.list hactive hphase hstores hnodup htouched hframe
      (fun hnot => hvisited (hwhere.resolve_left hnot)) hvisited, ?_, h.alive⟩
    · intro t'
      by_cases ht : t' = t
      · subst ht
        simp only [State.setThread, update_self, hth]
        refine hok.cycleGuard (by simpa [htouching] using hruns) _ fun r' hr' => ?_
        obtain rfl : r = r' := Option.some.inj hr'
        refine ⟨htouching ▸ List.mem_cons_self, ?_, hwhere.imp hrunning.mpr fun h => htodo ▸ h⟩
        simpa [Thread.findInstance, htouching] using hfind
      · simpa [State.setThread, State.setRegistry, ht] using h.threads t'
    · have hheld : ((s.setRegistry r rg').setThread t th').held = s.held :=
        funext fun t' => (hframe t').1
      rw [hheld]
      exact h.accounting
  refine hinv.withDangling ?_
  rw [h.alive, Bool.false_or]
  exact hgood

/-- A stored instance belongs to a thread that is listed: it touched the
    registry, which is active. -/
theorem storeThreadLocal (h : Inv s) (hs : s.storeThreadLocal t = some s') : Inv s' := by
  unfold State.storeThreadLocal at hs
  split at hs
  swap
  · cases hs
  rename_i d r rest hstack
  simp only [Option.ite_none_right_eq_some, Option.some.injEq] at hs
  obtain ⟨husable, rfl⟩ := hs
  have hactive := Phase.active_of_usable husable
  obtain ⟨htouched, hfind, hwhere⟩ := (h.threads t).storing ⟨d, some r⟩ (by simp [hstack]) r rfl
  -- The registry lists the thread: it runs and has touched it, or it exits and still has entries.
  have hlisted : t ∈ (s.registries r).tlThreadStores := by
    rcases hwhere with hrunning | htodo
    · exact h.listing.running t r hrunning htouched hactive
    · exact h.listing.held t r (h.listing.todo t r htodo htouched hactive)
  set th' : Thread := ({ s.threads t with stack := ⟨d, none⟩ :: rest } : Thread).storeInstance r d
    s.nextId with hth
  have hentries : th'.entries =
      update (s.threads t).entries r ((s.threads t).entries r ++ [(d, s.nextId)]) :=
    Thread.storeInstance_entries hfind
  -- Entries are only added, and only here.
  have hmore : ∀ t' r', (s.threads t').entries r' ≠ [] →
      ((s.setThread t th').threads t').entries r' ≠ [] := by
    intro t' r' hne
    by_cases ht : t' = t
    · subst ht
      rw [State.setThread_self, hentries]
      by_cases hr : r' = r
      · simp [hr]
      · rwa [update_of_ne hr]
    · rwa [State.setThread_of_ne ht]
  have hother : ∀ t' r', ¬(t' = t ∧ r' = r) →
      ((s.setThread t th').threads t').entries r' = (s.threads t').entries r' := by
    intro t' r' htr
    by_cases ht : t' = t
    · subst ht
      rw [State.setThread_self, hentries, update_of_ne fun hr => htr ⟨rfl, hr⟩]
    · rw [State.setThread_of_ne ht]
  have hframe : ∀ t', ((s.setThread t th').threads t').touched = (s.threads t').touched ∧
      (((s.setThread t th').threads t').Running ↔ (s.threads t').Running) ∧
      ((s.setThread t th').threads t').todo = (s.threads t').todo := by
    intro t'
    by_cases ht : t' = t
    · subst ht
      rw [State.setThread_self]
      exact ⟨rfl, Iff.rfl, rfl⟩
    · rw [State.setThread_of_ne ht]
      exact ⟨rfl, Iff.rfl, rfl⟩
  refine ⟨?_, h.listing.store hlisted rfl hframe hmore hother, ?_, h.alive⟩
  · intro t'
    by_cases ht : t' = t
    · subst ht
      simpa [State.setThread] using (h.threads t').store hstack s.nextId
    · simpa [State.setThread, ht] using h.threads t'
  · refine h.accounting.store t r d ?_ fun t' r' htr => hother t' r' htr
    simp [State.held, State.setThread, hentries]

/-- The thread begins to destroy its `thread_local` objects. -/
theorem exit (h : Inv s) (hs : s.exit t = some s') : Inv s' := by
  simp only [State.exit, Option.ite_none_right_eq_some, Option.some.injEq] at hs
  obtain ⟨⟨hlive, hstack⟩, rfl⟩ := hs
  have hrunning : (s.threads t).Running := by simp [Thread.Running, hlive]
  exact h.setThread ((h.threads t).setStatus hstack _ (fun _ => hrunning)
    ⟨List.nodup_nil, by simp [Thread.todo]⟩ (.inl rfl)) rfl rfl (iff_of_true rfl hrunning)
    (List.nil_subset _)

/-- `TLData` is destroyed when all its entries are gone. -/
theorem destroyData {objects : List TLObject} (h : Inv s) (hstack : (s.threads t).stack = [])
    (hst : (s.threads t).status = .tearing (.data :: objects)) :
    Inv (s.setThread t { s.threads t with status := .tearing objects, entries :=
      fun _ => [] }) := by
  have hok := h.threads t
  have hexit := hok.exit
  simp only [Thread.ExitOk, hst] at hexit
  -- `TLCleanup` has been destroyed before.
  obtain ⟨hobjects, hcleanup, hnil⟩ : .cleanup ∉ .data :: objects ∧
      .cleanup ∈ (s.threads t).constructed ∧ ∀ r, (s.threads t).entries r = [] := by
    refine hexit.resolve_left fun hobj => ?_
    have hrunning : (s.threads t).Running := by simp [Thread.Running, hst, hobj]
    rcases hok.constructed_of_running hrunning with hc | hc | hc <;> simp [hc] at hobj
  have hnot : .cleanup ∉ objects := fun hmem => hobjects (List.mem_cons_of_mem _ hmem)
  have hnotRunning : ∀ {objects : List TLObject}, .cleanup ∉ objects →
      objects ≠ (s.threads t).constructed.reverse := by
    rintro objects hobjects rfl
    exact hobjects (List.mem_reverse.mpr hcleanup)
  have hentries : (fun _ => []) = (s.threads t).entries := funext fun r => (hnil r).symm
  rw [hentries]
  refine h.setThread (hok.setStatus hstack _ (fun hr => absurd hr (hnotRunning hnot))
    ⟨List.nodup_nil, by simp [Thread.todo]⟩ (.inr ⟨hnot, hcleanup, hnil⟩)) rfl rfl
    (iff_of_false (hnotRunning hnot) ?_) (List.nil_subset _)
  simpa [Thread.Running, hst] using hnotRunning hobjects

/-- `~TLCleanup` begins while `TLData` is alive, and has an entry wherever the thread is listed. -/
theorem beginCleanup {objects : List TLObject} (h : Inv s) (hstack : (s.threads t).stack = [])
    (hst : (s.threads t).status = .tearing (.cleanup :: objects))
    (hlisted : ∀ r ∈ (s.threads t).touched, (s.registries r).phase.active →
      (s.threads t).hasEntriesFor r) {th : Thread}
    (hth : th = { s.threads t with status := .cleaning (s.threads t).registered objects }) :
    Inv { s.setThread t (th.use .data) with dangling := s.dangling || th.destroyed .data } := by
  have hok := h.threads t
  have hexit := hok.exit
  simp only [Thread.ExitOk, hst] at hexit
  have hobj := hexit.resolve_right fun hdone => hdone.1 List.mem_cons_self
  have hrunning : (s.threads t).Running := by simp [Thread.Running, hst, hobj]
  have htodo : ∀ r, (s.threads t).entries r ≠ [] → r ∈ (s.threads t).registered :=
    fun r hne => (hok.touched r (hok.entries r hne)).1
  have hentries : ∀ r ∈ (s.threads t).touched, (s.registries r).phase.active →
      (s.threads t).entries r ≠ [] :=
    fun r hr hactive => Thread.hasEntriesFor_iff.mp (hlisted r hr hactive)
  have hbegin : ∀ th' : Thread, th'.Ok → ¬th'.Running →
      th'.touched = (s.threads t).touched → th'.entries = (s.threads t).entries →
      Inv (s.setThread t th') := by
    intro th' hok' hnot htouched' hentries'
    refine h.setThread_of_listed hok' htouched' hentries' (fun hr => absurd hr hnot)
      (fun _ r hmem => ?_) fun r _ hr hactive => ?_
    · obtain ⟨htouched, hactive⟩ := h.listing.touched t r hmem
      exact hentries' ▸ hentries r htouched hactive
    · exact hentries' ▸ hentries r (htouched' ▸ hr) hactive
  rcases hok.constructed_of_running hrunning with hc | hc | hc
  · simp [hc] at hobj
  · -- There is no `TLData` yet, and no registry has been touched.
    have hobjects : objects = [] := by simpa [hc] using hobj
    have hnone : ∀ r, r ∉ (s.threads t).touched := fun r hr => by
      simpa [hc] using (hok.touched r hr).2
    have huse : th.use .data = { s.threads t with
        constructed := [.cleanup, .data]
        status := .cleaning (s.threads t).registered [.data] } := by
      simp [hth, Thread.use, hc, hobjects, Status.construct]
    refine (hbegin (th.use .data) ?_ (by rw [huse]; exact id) (by rw [huse]) (by rw [huse]))
      |>.withDangling (by simp [h.alive, Thread.destroyed, hth, hc])
    rw [huse]
    exact {
      constructed := .inr (.inr (.inr ⟨id, rfl⟩))
      registered := hok.registered
      todo := ⟨hok.registered, fun _ hr => hr⟩
      touched := fun r hr => absurd hr (hnone r)
      entries := hok.entries
      storing := fun f hf => absurd (hstack ▸ hf) List.not_mem_nil
      stack_nodup := hok.stack_nodup
      stack_runs := fun hne => absurd hstack hne
      exit := ⟨rfl, by simp, htodo⟩ }
  · have hobjects : objects = [.data] := by simpa [hc] using hobj
    have huse : th.use .data = th := Thread.use_of_mem (by simp [hth, hc])
    subst hth
    rw [huse]
    have hok' := hok.setStatus hstack (.cleaning (s.threads t).registered objects) False.elim
      ⟨hok.registered, fun _ hr => hr⟩ ⟨hobjects, by simp [hc], htodo⟩
    refine (hbegin _ hok' id rfl rfl).withDangling ?_
    simp [h.alive, Thread.destroyed, hobjects]

/-- The thread has destroyed its `thread_local` objects. -/
theorem exited (h : Inv s) (hstack : (s.threads t).stack = [])
    (hst : (s.threads t).status = .tearing []) :
    Inv (s.setThread t { s.threads t with status := .exited }) := by
  have hok := h.threads t
  have hexit := hok.exit
  simp only [Thread.ExitOk, hst] at hexit
  have hnil : ∀ r, (s.threads t).entries r = [] := by
    rcases hexit with hobj | ⟨-, -, hnil⟩
    · intro r
      by_contra hne
      have hconstructed := (hok.touched r (hok.entries r hne)).2
      simp [hconstructed] at hobj
    · exact hnil
  refine h.setThread_of_listed (hok.setStatus hstack _ False.elim
    ⟨List.nodup_nil, List.forall_mem_nil _⟩ hnil) rfl rfl False.elim (fun _ r hmem => ?_)
    (List.forall_mem_nil _)
  rcases hexit with hobj | ⟨-, hcleanup, -⟩
  · have hconstructed := (hok.touched r (h.listing.touched t r hmem).1).2
    simp [hconstructed] at hobj
  · refine h.listing.exiting t r (fun hrunning => ?_) hmem
    have hempty : (s.threads t).constructed = [] := by simpa [Thread.Running, hst] using hrunning
    simp [hempty] at hcleanup

/-- `TLCleanup` is destroyed first, and then `TLData`. -/
theorem teardown (h : Inv s) (hfirst : FirstTouch s (.teardown t)) (hs : s.teardown t = some s') :
    Inv s' := by
  simp only [State.teardown, Option.ite_none_right_eq_some] at hs
  obtain ⟨hstack, hs⟩ := hs
  split at hs
  · rename_i objects hst
    obtain rfl := Option.some.inj hs
    exact h.destroyData hstack hst
  · rename_i objects hst
    obtain rfl := Option.some.inj hs
    exact h.beginCleanup hstack hst (hfirst (by simp [Thread.CleansUp, hst])) rfl
  · rename_i hst
    obtain rfl := Option.some.inj hs
    exact h.exited hstack hst
  · cases hs

theorem cleanupNext (h : Inv s) (hs : s.cleanupNext t = some s') : Inv s' := by
  have hok := h.threads t
  have hexit := hok.exit
  have htodo := hok.todo
  simp only [State.cleanupNext] at hs
  split at hs
  · rename_i r todo objects hst
    simp only [Thread.ExitOk, Thread.todo, hst] at hexit htodo
    have hstack := hok.stack_eq_nil (by simp [hst, Status.runsUserCode])
    have hnot : ¬(s.threads t).Running := by simp [Thread.Running, hst]
    have hold : (s.threads t).todo = r :: todo := by simp [Thread.todo, hst]
    split at hs
    · obtain rfl := Option.some.inj hs
      exact h.setThread (hok.setStatus hstack _ False.elim htodo hexit) rfl rfl
        (iff_of_false id hnot)
        (fun _ hr => hold ▸ hr)
    · rename_i hskip
      obtain rfl := Option.some.inj hs
      refine h.setThread (hok.setStatus hstack _ False.elim ⟨htodo.1.of_cons,
        fun r' hr' => htodo.2 r' (List.mem_cons_of_mem _ hr')⟩
          ⟨hexit.1, hexit.2.1, fun r' hne => ?_⟩)
        rfl rfl (iff_of_false id hnot) fun _ hr => hold ▸ List.mem_cons_of_mem _ hr
      rcases List.mem_cons.mp (hexit.2.2 r' hne) with rfl | hmem
      · -- a registry with entries is active, so it is not dropped and not skipped
        have hactive := (h.listing.touched t r' (h.listing.held t r' hne)).2
        refine absurd ⟨fun hdropped => ?_, Thread.hasEntriesFor_iff.mpr hne⟩ hskip
        simp [hdropped, Phase.active] at hactive
      · exact hmem
  · rename_i objects hst
    simp only [Thread.ExitOk, Thread.todo, hst] at hexit
    obtain rfl := Option.some.inj hs
    obtain ⟨rfl, hcleanup, hentries⟩ := hexit
    have hnot : ¬(s.threads t).Running := by simp [Thread.Running, hst]
    have hnot' : [TLObject.data] ≠ (s.threads t).constructed.reverse := by
      intro heq
      rw [← List.mem_reverse, ← heq] at hcleanup
      exact absurd hcleanup (by decide)
    refine h.setThread (hok.setStatus (hok.stack_eq_nil (by simp [hst, Status.runsUserCode])) _
      (fun hr => absurd hr hnot') ⟨List.nodup_nil, by simp [Thread.todo]⟩
      (.inr ⟨by decide, hcleanup, fun r => ?_⟩)) rfl rfl (iff_of_false hnot' hnot)
      (List.nil_subset _)
    exact by_contra fun hne => by cases hentries r hne
  · cases hs

/-- The exiting thread destroys its instances for the registry and leaves its list. -/
theorem cleanupCurrentThread (h : Inv s) (hs : s.cleanupCurrentThread t = some s') : Inv s' := by
  have hok := h.threads t
  have hexit := hok.exit
  have htodo := hok.todo
  simp only [State.cleanupCurrentThread] at hs
  split at hs
  swap
  · cases hs
  rename_i r todo objects hst
  simp only [Thread.ExitOk, Thread.todo, hst] at hexit htodo
  obtain rfl := Option.some.inj hs
  set th' : Thread := { (s.threads t).eraseRegistry r with status := .hooks todo objects } with hth
  have hsame : th'.entries r = [] := by simp [hth, Thread.eraseRegistry]
  have hother : ∀ r', r' ≠ r → th'.entries r' = (s.threads t).entries r' :=
    fun r' hr => by simp [hth, Thread.eraseRegistry, hr]
  have hnot : ¬(s.threads t).Running := by simp [Thread.Running, hst]
  have hnot' : ¬th'.Running := by simp [Thread.Running, hth]
  have hok' : th'.Ok := by
    refine (hok.eraseRegistry r).setStatus (hok.stack_eq_nil (by simp [hst, Status.runsUserCode])) _
      False.elim ⟨htodo.1.of_cons, fun r' hr' => htodo.2 r' (List.mem_cons_of_mem _ hr')⟩
      ⟨hexit.1, hexit.2.1, fun r' hne => ?_⟩
    by_cases hr : r' = r
    · subst hr
      exact absurd hsame hne
    · exact (List.mem_cons.mp
        (hexit.2.2 r' fun hnil => hne ((hother r' hr).trans hnil))).resolve_left
        hr
  refine ⟨?_, h.listing.erase (E := fun t' r' => t' = t ∧ r' = r) ?_ ?_ ?_ ?_ ?_ ?_, ?_, h.alive⟩
  · intro t'
    by_cases ht : t' = t
    · subst ht
      simpa [State.setThread] using hok'
    · simpa [State.setThread, State.setRegistry, ht] using h.threads t'
  · intro t' r'
    by_cases hr : r' = r
    · subst hr
      simp [State.setThread, State.setRegistry]
    · simp [State.setThread, State.setRegistry, hr]
  · intro r'
    by_cases hr : r' = r
    · subst hr
      simpa [State.setThread, State.setRegistry] using (h.listing.nodup r').filter _
    · simpa [State.setThread, State.setRegistry, hr] using h.listing.nodup r'
  · intro r' hfresh
    by_cases hr : r' = r
    · subst hr
      simpa [State.setThread, State.setRegistry] using hfresh
    · simpa [State.setThread, State.setRegistry, hr] using hfresh
  · intro t'
    by_cases ht : t' = t
    · subst ht
      rw [State.setThread_self]
      refine ⟨rfl, iff_of_false hnot' hnot, ?_⟩
      simp only [Thread.todo, hst, hth]
      exact List.subset_cons_self r todo
    · rw [State.setThread_of_ne ht]
      exact ⟨rfl, Iff.rfl, List.Subset.refl _⟩
  · intro t' r' htr
    constructor
    · by_cases hr : r' = r
      · subst hr
        simp [State.setThread, State.setRegistry]
      · simp [State.setThread, State.setRegistry, hr]
    · by_cases ht : t' = t
      · subst ht
        simpa [State.setThread] using hother r' fun hr => htr ⟨rfl, hr⟩
      · simp [State.setThread, State.setRegistry, ht]
  · rintro t' r' ⟨rfl, rfl⟩
    rw [State.setThread_self]
    -- The registries that are still to be visited are others.
    exact ⟨hsame, fun _ => ⟨hnot, (List.nodup_cons.mp htodo.1).1⟩⟩
  · refine h.accounting.collect t r (.inl rfl) ?_ fun t' r' htr => ?_
    · simpa [State.held, State.setThread] using hsame
    · by_cases ht : t' = t
      · subst ht
        simpa [State.held, State.setThread] using hother r' fun hr => htr ⟨rfl, hr⟩
      · simp [State.held, State.setThread, State.setRegistry, ht]

/-- `~TLCleanup` goes on with the registries that it has still to visit. -/
theorem hooksReturn (h : Inv s) (hs : s.hooksReturn t = some s') : Inv s' := by
  have hok := h.threads t
  have hexit := hok.exit
  have htodo := hok.todo
  simp only [State.hooksReturn] at hs
  split at hs
  · rename_i todo objects hst
    simp only [Thread.ExitOk, Thread.todo, hst] at hexit htodo
    simp only [Option.ite_none_right_eq_some, Option.some.injEq] at hs
    obtain ⟨hstack, rfl⟩ := hs
    have hnot : ¬(s.threads t).Running := by simp [Thread.Running, hst]
    exact h.setThread (hok.setStatus hstack _ False.elim htodo hexit) rfl rfl (iff_of_false id hnot)
      (by simp [Thread.todo, hst])
  · cases hs

/-- The sweep reaches every instance for the registry, since the threads that
    hold one are listed, and their `TLData` is alive. -/
theorem stopSweep (h : Inv s) (hs : s.stopSweep r = some s') : Inv s' := by
  simp only [State.stopSweep, Option.ite_none_right_eq_some, Option.some.injEq] at hs
  obtain ⟨-, rfl⟩ := hs
  have hswept := State.collectAll_threads r (.stop r) (s.registries r).tlThreadStores s.threads
  set threads' := (State.collectAll r (.stop r) (s.registries r).tlThreadStores s.threads).1
  -- A sweep takes the entries of the threads that are listed, and nothing else.
  have hframe : ∀ t, (threads' t).touched = (s.threads t).touched ∧
      ((threads' t).Running ↔ (s.threads t).Running) ∧ (threads' t).todo = (s.threads t).todo := by
    intro t
    rw [hswept]
    split <;> exact ⟨rfl, Iff.rfl, rfl⟩
  -- A thread that is not listed has no entries in the registry.
  have hsame : ∀ t, (threads' t).entries r = [] := by
    intro t
    rw [hswept]
    split
    · simp [Thread.eraseRegistry]
    · rename_i hmem
      exact by_contra fun hne => hmem (h.listing.held t r hne)
  have hother : ∀ t r', r' ≠ r → (threads' t).entries r' = (s.threads t).entries r' := by
    intro t r' hr
    rw [hswept]
    split
    · simp [Thread.eraseRegistry, hr]
    · rfl
  refine ⟨?_, h.listing.erase (E := fun _ r' => r' = r) ?_ ?_ ?_ (fun t => ?_) ?_ ?_,
    h.accounting.collectAll r _ s.threads, ?_⟩
  · intro t
    simp only [hswept]
    split
    · exact (h.threads t).eraseRegistry r
    · exact h.threads t
  · intro t r'
    by_cases hr : r' = r
    · simp [State.setRegistry, hr]
    · simp [State.setRegistry, hr]
  · intro r'
    by_cases hr : r' = r
    · simp [State.setRegistry, hr]
    · simpa [State.setRegistry, hr] using h.listing.nodup r'
  · intro r' hfresh
    by_cases hr : r' = r
    · simp [State.setRegistry, hr] at hfresh
    · simpa [State.setRegistry, hr] using hfresh
  · obtain ⟨htouched, hrunning, htodo⟩ := hframe t
    exact ⟨htouched, hrunning, htodo ▸ List.Subset.refl _⟩
  · intro t r' hr
    exact ⟨by simp [State.setRegistry, hr], hother t r' hr⟩
  · rintro t r' rfl
    refine ⟨hsame t, fun hactive => ?_⟩
    simp [State.setRegistry, Phase.active] at hactive
  -- The threads that are listed still have their `TLData`.
  · simp only [h.alive, Bool.false_or, List.any_eq_false, Bool.not_eq_true', Bool.not_eq_false]
    intro t hmem
    by_cases hrunning : (s.threads t).Running
    · exact (h.threads t).dataAlive_of_running hrunning (h.listing.touched t r hmem).1
    · exact (h.threads t).dataAlive_of_entries (h.listing.exiting t r hrunning hmem)

theorem step {a : Action} (h : Inv s) (hG : FirstTouch s a) (hs : machine.step s a = some s') :
    Inv s' := by
  cases a with
  | start r => exact h.start hs
  | rollbackFailedStart r => exact h.rollbackFailedStart hs
  | claimMaterialization t r => exact h.claimMaterialization hG hs
  | enter t d => exact h.enter hs
  | materializeThreadLocal t r d => exact h.materializeThreadLocal hG hs
  | storeThreadLocal t => exact h.storeThreadLocal hs
  | leave t => exact h.leave hs
  | exit t => exact h.exit hs
  | teardown t => exact h.teardown hG hs
  | cleanupNext t => exact h.cleanupNext hs
  | cleanupCurrentThread t => exact h.cleanupCurrentThread hs
  | hooksReturn t => exact h.hooksReturn hs
  | stopBegin r => exact h.stopBegin hs
  | stopSweep r => exact h.stopSweep hs
  | drop r => exact h.drop hs

end Inv

/-! ## The result -/

/-- In a history without repetition, what happened to one member is one entry. -/
theorem destroyersOf_eq_singleton (hnodup : (s.destroyed.map Prod.fst).Nodup) {i : InstanceId}
    {by' : Destroyer} (h : (i, by') ∈ s.destroyed) : s.destroyersOf i = [by'] := by
  unfold State.destroyersOf
  generalize s.destroyed = l at *
  induction l with
  | nil => cases h
  | cons x l ih =>
    rw [List.map_cons, List.nodup_cons] at hnodup
    rcases List.mem_cons.mp h with rfl | h
    · have hrest : l.filter (·.1 = i) = [] := by
        refine List.filter_eq_nil_iff.mpr fun y hy => ?_
        simp only [decide_eq_true_eq]
        exact fun he => hnodup.1 (List.mem_map.mpr ⟨y, hy, he⟩)
      simp [hrest]
    · have hne : x.1 ≠ i := fun he => hnodup.1 (List.mem_map.mpr ⟨_, h, he.symm⟩)
      simpa [hne] using ih hnodup.2 h

theorem destroyersOf_eq_nil {i : InstanceId} (h : i ∉ s.destroyed.map Prod.fst) :
    s.destroyersOf i = [] := by
  unfold State.destroyersOf
  rw [List.map_eq_nil_iff, List.filter_eq_nil_iff]
  intro x hx
  simp only [decide_eq_true_eq]
  exact fun he => h (List.mem_map.mpr ⟨x, hx, he⟩)

theorem Inv.exactlyOnce (h : Inv s) : ExactlyOnce s where
  listed t r hlive hstarted hentries := by
    have hmem := h.listing.held t r (Thread.hasEntriesFor_iff.mp hentries)
    exact List.count_eq_one_of_mem (h.listing.nodup r) hmem
  once c hc := by
    by_cases hdestroyed : c.id ∈ s.destroyed.map Prod.fst
    · obtain ⟨⟨i, by'⟩, hx, rfl⟩ := List.mem_map.mp hdestroyed
      obtain ⟨c', hc', hid, hby⟩ := h.accounting.destroyed_by _ hx
      obtain rfl := h.accounting.created_inj hc hc' hid.symm
      have hone := destroyersOf_eq_singleton h.accounting.destroyed_nodup hx
      simp only at hby
      rcases hby with rfl | rfl
      · exact .inr (.inl hone)
      · exact .inr (.inr hone)
    · have hheld := (h.accounting.kept c hc).resolve_right hdestroyed
      have hne : (s.threads c.thread).entries c.registry ≠ [] := by
        intro hnil
        simp [State.held, hnil] at hheld
      refine .inl ⟨hheld, fun hexited => ?_, ?_, destroyersOf_eq_nil hdestroyed⟩
      · have hexit := (h.threads c.thread).exit
        simp only [Thread.ExitOk, hexited] at hexit
        exact hne (hexit c.registry)
      · exact (h.listing.touched _ _ (h.listing.held _ _ hne)).2
  alive := h.alive

/-- Two threads with instances: the one exits before the registry 0 stops, the other one does not.
    While the first one destroys its instance for the registry 0, a hook resolves a singleton of
    that registry and a second thread-local bean of the registry 1. -/
def exitThenStop : List Action :=
  [.start 0, .start 1, .materializeThreadLocal 1 0 5, .storeThreadLocal 1, .leave 1,
    .materializeThreadLocal 1 1 5, .storeThreadLocal 1, .leave 1,
    .materializeThreadLocal 2 0 5, .storeThreadLocal 2, .leave 2, .claimMaterialization 2 0,
    .exit 1, .teardown 1, .cleanupNext 1, .cleanupCurrentThread 1, .claimMaterialization 1 0,
    .materializeThreadLocal 1 1 6, .storeThreadLocal 1, .leave 1, .hooksReturn 1, .cleanupNext 1,
    .cleanupCurrentThread 1, .hooksReturn 1, .cleanupNext 1, .teardown 1, .teardown 1,
    .stopBegin 0, .stopSweep 0]

end Ctorium.ThreadLocal
