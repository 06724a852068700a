import Ctorium.Lib.SwapRemove
import Ctorium.Sessions.Bounds

/-!
# The memory of session instances

A stop destroys the session instances of its scope and releases their memory at once. A
restart keeps the memory of each instance, together with the descriptor, until the next
instance of the same descriptor has been stored, or the scope is stopped or destroyed:
so an instance never has the address of the one that it replaces. The blocks that are
kept form a vector; a store walks over it and removes the blocks of its descriptor by
overwriting them with the last one.

Here the steps of `SessionBounds` go together with what they do to the memory of the
instances (`effect`). The allocator may return any memory that it has not given out, or
that has been released.

`Holds` says what a scope has of instances, of memory and of retired blocks, in step with
its store. It stays so while the root and other scopes move on (`Holds.frame`), and
through each step of the scope itself.
-/

namespace Ctorium.SessionMemory

open Function (update)
open Sessions (Grows SameSession Bound boundSession)
open SessionBounds (Activity Start Sweep)

/-! ## Memory -/

/-- Memory that the allocator has given out. -/
structure Block where
  start : ℕ
  size : ℕ
  size_pos : 0 < size
  deriving DecidableEq

/-- The blocks do not overlap. -/
def Block.Apart (b b' : Block) : Prop :=
  b.start + b.size ≤ b'.start ∨ b'.start + b'.size ≤ b.start

instance (b b' : Block) : Decidable (b.Apart b') := by
  unfold Block.Apart
  infer_instance

theorem Block.Apart.symm {b b' : Block} (h : b.Apart b') : b'.Apart b := Or.symm h

/-- Blocks that do not overlap have different addresses. -/
theorem Block.Apart.start_ne {b b' : Block} (h : b.Apart b') : b.start ≠ b'.start := by
  have hb := b.size_pos
  have hb' := b'.size_pos
  rcases h with h | h <;> omega

/-- What a descriptor says about the memory of its instances. -/
structure Layout where
  /-- `dealloc` is not null. -/
  dealloc : Bool
  size : ℕ
  align : ℕ
  /-- An instance that the registry allocates has the size of its type. -/
  releases : dealloc = true ∨ size ≠ 0
  deriving DecidableEq

/-- The end of `executeDestructionLifecycle`, `~ScopedContext` and `releaseRetiredBlock_`: the
    memory at `m` is released by the function of the descriptor, or else by `operator delete`. -/
def Layout.release (layout : Layout) (m : Addr) : List Addr :=
  if layout.dealloc then [m] else if layout.size ≠ 0 then [m] else []

@[simp] theorem Layout.release_eq (layout : Layout) (m : Addr) : layout.release m = [m] := by
  unfold release
  rcases layout.releases with h | h <;> simp [h]

/-- `RetiredSessionBlock`. -/
structure RetiredBlock extends Layout where
  descId : DescriptorId
  memory : Addr
  deriving DecidableEq

/-- `SessionStore::releaseRetired`: the blocks of the descriptor are removed from the vector, and
    their memory is released. -/
def releaseRetired (d : DescriptorId) (blocks : List RetiredBlock) :
    List RetiredBlock × List Addr :=
  let (rest, removed) := swapRemoveAll (fun block => block.descId == d) blocks.length 0 blocks
  (rest, removed.flatMap fun block => block.release block.memory)

/-- `SessionStore::releaseRetiredBlocks_`. -/
def releaseRetiredBlocks (blocks : List RetiredBlock) : List Addr :=
  blocks.flatMap fun block => block.release block.memory

theorem flatMap_release (blocks : List RetiredBlock) :
    (blocks.flatMap fun block => block.release block.memory) = blocks.map RetiredBlock.memory := by
  simp [List.map_eq_flatMap]

theorem releaseRetiredBlocks_eq (blocks : List RetiredBlock) :
    releaseRetiredBlocks blocks = blocks.map RetiredBlock.memory := flatMap_release blocks

theorem releaseRetired_perm (d : DescriptorId) (blocks : List RetiredBlock) :
    (releaseRetired d blocks).1.Perm (blocks.filter fun block => block.descId != d) ∧
      (releaseRetired d blocks).2.Perm
        ((blocks.filter fun block => block.descId == d).map RetiredBlock.memory) := by
  obtain ⟨hrest, hremoved⟩ := swapRemoveAll_perm (fun block : RetiredBlock => block.descId == d)
    blocks
  exact ⟨hrest, (List.Perm.of_eq (flatMap_release _)).trans (hremoved.map _)⟩

theorem mem_releaseRetired_fst {d : DescriptorId} {blocks : List RetiredBlock}
    {block : RetiredBlock} :
    block ∈ (releaseRetired d blocks).1 ↔ block ∈ blocks ∧ block.descId ≠ d := by
  rw [(releaseRetired_perm d blocks).1.mem_iff, List.mem_filter, bne_iff_ne]

theorem mem_releaseRetired_snd {d : DescriptorId} {blocks : List RetiredBlock} {m : Addr} :
    m ∈ (releaseRetired d blocks).2 ↔
      ∃ block ∈ blocks, block.descId = d ∧ block.memory = m := by
  rw [(releaseRetired_perm d blocks).2.mem_iff]
  simp [and_assoc]

/-! ## State -/

/-- The sessions of a root, and the memory of their instances. -/
structure State where
  sessions : SessionBounds.State
  /-- The memory that instances have been given, also when it has been released. -/
  allocated : List (Addr × Block) := []
  /-- The scope and the descriptor that an instance was bound or constructed for. -/
  owner : Addr → Option (ScopeId × DescriptorId) := fun _ => none
  /-- `retiredBlocks_` of each scope. -/
  retired : ScopeId → List RetiredBlock := fun _ => []
  /-- The instances that have been destroyed. -/
  destroyed : List Addr := []
  /-- The instances whose memory has been released, with repetitions. -/
  released : List Addr := []
  /-- The scopes that have been destroyed. -/
  gone : List ScopeId := []

namespace State

variable (s : State)

/-- The memory of an instance. -/
def block (m : Addr) : Option Block := s.allocated.lookup m

/-- An instance that no scope has taken over. -/
def Fresh (m : Addr) : Prop := s.block m ≠ none ∧ s.owner m = none ∧ m ∉ s.released

instance (m : Addr) : Decidable (s.Fresh m) := by
  unfold Fresh
  infer_instance

def setSessions (sessions : SessionBounds.State) : State := { s with sessions := sessions }

def own (n : ScopeId) (d : DescriptorId) (m : Addr) : State :=
  { s with owner := update s.owner m (some (n, d)) }

@[inherit_doc SessionMemory.releaseRetired]
def releaseRetired (n : ScopeId) (d : DescriptorId) : State :=
  { s with
    retired := update s.retired n (SessionMemory.releaseRetired d (s.retired n)).1
    released := s.released ++ (SessionMemory.releaseRetired d (s.retired n)).2 }

@[inherit_doc SessionMemory.releaseRetiredBlocks]
def releaseRetiredBlocks (n : ScopeId) : State :=
  { s with
    retired := update s.retired n []
    released := s.released ++ SessionMemory.releaseRetiredBlocks (s.retired n) }

/-- An instance has been destroyed, and its memory is retired or released. -/
def destroyInstance (layout : Layout) (n : ScopeId) (d : DescriptorId) (m : Addr)
    (deferDeallocation : Bool) : State :=
  if deferDeallocation then
    { s with
      destroyed := s.destroyed ++ [m]
      retired := update s.retired n (s.retired n ++ [⟨layout, d, m⟩]) }
  else
    { s with
      destroyed := s.destroyed ++ [m]
      released := s.released ++ layout.release m }

/-- `~ScopedContext` destroys the pending instances, and `~SessionStore` releases what is
    retired. -/
def destroyScope (layout : DescriptorId → Layout) (n : ScopeId) : State :=
  let pending := (s.sessions.scope n).pendingRuntimeSessions
  { s with
    sessions := s.sessions.move n {} {}
    destroyed := s.destroyed ++ pending.map PendingRuntimeSession.boundInstance
    retired := update s.retired n []
    released := s.released ++
      (pending.flatMap fun psb => (layout psb.descId).release psb.boundInstance) ++
      SessionMemory.releaseRetiredBlocks (s.retired n)
    gone := n :: s.gone }

end State

/-! ## Steps -/

/-- The scope that a step is about. -/
def scopeOf : SessionBounds.Action → Option ScopeId
  | .root _ | .resolveScope _ => none
  | .bindSession n .. | .startScope n | .storeNext n | .startReturns n | .startThrows n
  | .stopScope n _ | .destroyNext n | .destroyed n | .stopReturns n | .materialize n _
  | .constructed n .. | .constructorThrows n _ => some n

/-- The instance that is passed to a step. -/
def instanceOf : SessionBounds.Action → Option Addr
  | .bindSession _ _ _ _ object => some object
  | .constructed _ _ m => some m
  | _ => none

/-- The binding that a call of `bindSession` makes, if it is accepted. -/
def bindingOf (s : SessionBounds.State) (n : ScopeId) (type : CppType) (name : String)
    (priority : ℤ) (object : Addr) : Option PendingRuntimeSession :=
  match (s.context.bindSession n type name priority object).failure with
  | none => some ⟨(boundSession s.context type name priority).1, object⟩
  | some _ => none

/-- The instance that a step stores. -/
def storedBy (s : SessionBounds.State) :
    SessionBounds.Action → Option (ScopeId × PendingRuntimeSession)
  | .bindSession n type name priority object =>
    if (s.scope n).scopeState = .running then
      (bindingOf s n type name priority object).map (n, ·)
    else none
  | .storeNext n =>
    match (s.activity n).starts with
    | ⟨psb :: _, _⟩ :: _ => some (n, psb)
    | _ => none
  | .constructed n p m => some (n, ⟨p, m⟩)
  | _ => none

/-- What a step of the sessions does to the memory of instances. -/
def effect (layout : DescriptorId → Layout) (s : State) : SessionBounds.Action → State
  | .bindSession n type name priority object =>
    match bindingOf s.sessions n type name priority object with
    | some psb =>
      if (s.sessions.scope n).scopeState = .running then
        (s.own n psb.descId object).releaseRetired n psb.descId
      else s.own n psb.descId object
    | none => s
  | .storeNext n =>
    match (s.sessions.activity n).starts with
    | ⟨psb :: _, _⟩ :: _ => s.releaseRetired n psb.descId
    | _ => s
  | .destroyed n =>
    match (s.sessions.activity n).sweep with
    | some ⟨_, some (d, m), deferDeallocation⟩ =>
      s.destroyInstance (layout d) n d m deferDeallocation
    | _ => s
  | .stopReturns n =>
    match (s.sessions.activity n).sweep with
    | some ⟨_, _, false⟩ => s.releaseRetiredBlocks n
    | _ => s
  | .constructed n p m => (s.own n p m).releaseRetired n p
  | _ => s

/-- The steps of the sessions, also of a stop that is called while a bean of the scope is being
    constructed. -/
def sessionsStep (s : SessionBounds.State) : SessionBounds.Action → Option SessionBounds.State
  | .stopScope n deferDeallocation =>
    if (s.scope n).scopeState = .running then
      some (s.move n (s.scope n).beginStop ((s.activity n).setSweep
        (some ⟨(s.scope n).sessionStore.insertionOrder.reverse, none, deferDeallocation⟩)))
    else none
  | a => SessionBounds.step s a

/-- The allocator gives out memory, user code releases what no scope has taken over (or a
    constructor that has thrown), the sessions go on, or a scope is destroyed. -/
inductive Action
  | allocate (m : Addr) (b : Block)
  | free (m : Addr)
  | sessions (a : SessionBounds.Action)
  | destroyScope (n : ScopeId)

/-- One step. Nothing is under way in a scope that is destroyed, and it is not used any more. -/
def step (layout : DescriptorId → Layout) (s : State) : Action → Option State
  | .allocate m b =>
    if s.block m = none ∧ s.owner m = none ∧ m ∉ s.released then
      some { s with allocated := (m, b) :: s.allocated }
    else none
  | .free m => if s.Fresh m then some { s with released := s.released ++ [m] } else none
  | .sessions a =>
    if s.sessions.context.core.started = true ∧ (∀ n ∈ scopeOf a, n ∉ s.gone) ∧
        ∀ m ∈ instanceOf a, s.Fresh m then
      (sessionsStep s.sessions a).map (effect layout s a).setSessions
    else none
  | .destroyScope n =>
    if n ∉ s.gone ∧ (s.sessions.activity n).starts = [] ∧ (s.sessions.activity n).sweep = none ∧
        (s.sessions.activity n).materializing = [] then
      some (s.destroyScope layout n)
    else none

/-! ## What a scope holds -/

/-- The block without what releases it. -/
def RetiredBlock.session (block : RetiredBlock) : RetiredSessionBlock :=
  ⟨block.descId, block.memory⟩

/-- The instances, the memory and the retired blocks of a scope are in step with its store. -/
structure Holds (r : Registry) (owner : Addr → Option (ScopeId × DescriptorId))
    (destroyed released : List Addr) (n : ScopeId) (sc : ScopedContext) (act : Activity)
    (blocks : List RetiredBlock) : Prop where
  pending : ∀ psb ∈ sc.pendingRuntimeSessions,
    owner psb.boundInstance = some (n, psb.descId) ∧ psb.boundInstance ∉ destroyed
  stored : ∀ slot m, sc.sessionStore.instances slot = some m →
    m ∉ destroyed ∧ ∃ d, r.sessionSlotOf d = some slot ∧ owner m = some (n, d)
  /-- What a start has stored that has not returned is still pending. -/
  stopped : sc.scopeState = .stopped → ∀ slot m, sc.sessionStore.instances slot = some m →
    ∃ psb ∈ sc.pendingRuntimeSessions, psb.boundInstance = m
  running : sc.scopeState = .running → sc.pendingRuntimeSessions = []
  stopping : sc.scopeState = .stopping → ∀ slot m, sc.sessionStore.instances slot = some m →
    ∀ psb ∈ sc.pendingRuntimeSessions, psb.boundInstance ≠ m
  starts : ∀ f ∈ act.starts, f.changed = false → f.rest ⊆ sc.pendingRuntimeSessions
  destroying : ∀ sweep d m, act.sweep = some sweep → sweep.destroying = some (d, m) →
    sc.sessionStore.find (r.sessionSlotOf d) = some m
  block : ∀ block ∈ blocks, owner block.memory = some (n, block.descId) ∧
    block.memory ∈ destroyed ∧ block.memory ∉ released
  /-- No instance is stored of a descriptor that a block is retired for. -/
  apart : ∀ block ∈ blocks, ∀ slot m, sc.sessionStore.instances slot = some m →
    owner m ≠ some (n, block.descId)
  once : (blocks.map RetiredBlock.descId).Nodup
  /-- The blocks are those of the store, in another order. -/
  same : (blocks.map RetiredBlock.session).Perm sc.sessionStore.retiredBlocks
  /-- Memory is released after the instance has been destroyed, and kept only if it is retired. -/
  destroyedFirst : ∀ m ∈ released, ∀ d, owner m = some (n, d) → m ∈ destroyed
  kept : ∀ m ∈ destroyed, ∀ d, owner m = some (n, d) →
    m ∈ released ∨ ∃ block ∈ blocks, block.memory = m

section Holds

variable {r r' : Registry} {owner owner' : Addr → Option (ScopeId × DescriptorId)}
  {destroyed destroyed' released released' : List Addr} {n : ScopeId} {sc sc' : ScopedContext}
  {act act' : Activity} {blocks blocks' : List RetiredBlock}

theorem find_eq_some {ss : SessionStore} {slot : Option SessionSlot} {m : Addr}
    (h : ss.find slot = some m) : ∃ k, slot = some k ∧ ss.instances k = some m := by
  cases slot with
  | none => cases h
  | some k =>
    rw [SessionStore.find] at h
    split_ifs at h
    exact ⟨k, rfl, h⟩

/-- Nothing of the scope changes while the root and other scopes move on. -/
theorem Holds.frame (h : Holds r owner destroyed released n sc act blocks)
    (hslots : ∀ d slot, r.sessionSlotOf d = some slot → r'.sessionSlotOf d = some slot)
    (hsame : SameSession sc sc')
    (howner : ∀ m x, owner m = some x → owner' m = some x)
    (hnew : ∀ m d, owner' m = some (n, d) → owner m = some (n, d) ∨
      m ∉ destroyed' ∧ m ∉ released' ∧ owner m = none)
    (hdestroyed : ∀ m d, owner m = some (n, d) → (m ∈ destroyed' ↔ m ∈ destroyed))
    (hreleased : ∀ m d, owner m = some (n, d) → (m ∈ released' ↔ m ∈ released)) :
    Holds r' owner' destroyed' released' n sc' act blocks := by
  -- The scope's own data stays; `r'` and `owner'` only extend what was known.
  obtain ⟨hstore, hpending, hstate⟩ := hsame
  constructor
  case pending =>
    rw [hpending]
    intro psb hpsb
    obtain ⟨hm, halive⟩ := h.pending psb hpsb
    exact ⟨howner _ _ hm, (hdestroyed _ _ hm).not.mpr halive⟩
  -- The slot keeps its number and the instance its owner.
  case stored =>
    rw [hstore]
    intro slot m hm
    obtain ⟨halive, d, hd, hown⟩ := h.stored slot m hm
    exact ⟨(hdestroyed _ _ hown).not.mpr halive, d, hslots d slot hd, howner _ _ hown⟩
  case stopped =>
    rw [hstate, hstore, hpending]
    exact h.stopped
  case running =>
    rw [hstate, hpending]
    exact h.running
  case stopping =>
    rw [hstate, hstore, hpending]
    exact h.stopping
  case starts =>
    rw [hpending]
    exact h.starts
  -- The sweep's instance was found through a slot that has not moved.
  case destroying =>
    rw [hstore]
    intro sweep d m hsweep hd
    have hfind := h.destroying sweep d m hsweep hd
    obtain ⟨k, hk, -⟩ := find_eq_some hfind
    rwa [hslots d k hk, ← hk]
  -- A block's owner is this scope, so `destroyed'` and `released'` agree on it.
  case block =>
    intro block hblock
    obtain ⟨hown, hgone, hkept⟩ := h.block block hblock
    exact ⟨howner _ _ hown, (hdestroyed _ _ hown).mpr hgone, (hreleased _ _ hown).not.mpr hkept⟩
  case apart =>
    rw [hstore]
    intro block hblock slot m hm hown
    obtain ⟨-, d, -, hd⟩ := h.stored slot m hm
    rw [howner m _ hd] at hown
    exact h.apart block hblock slot m hm (hd.trans hown)
  case once => exact h.once
  case same => rw [hstore]; exact h.same
  case destroyedFirst =>
    intro m hm d hd
    -- An address owned anew is neither destroyed nor released.
    rcases hnew m d hd with hold | ⟨-, hnot, -⟩
    · exact (hdestroyed m d hold).mpr (h.destroyedFirst m ((hreleased m d hold).mp hm) d hold)
    · exact absurd hm hnot
  case kept =>
    intro m hm d hd
    rcases hnew m d hd with hold | ⟨hnot, -, -⟩
    · exact (h.kept m ((hdestroyed m d hold).mp hm) d hold).imp_left (hreleased m d hold).mpr
    · exact absurd hm hnot

/-- No memory is retired twice. -/
theorem Holds.memoryOnce (h : Holds r owner destroyed released n sc act blocks) :
    (blocks.map RetiredBlock.memory).Nodup := by
  refine (List.Nodup.of_map _ h.once).map_on fun block hblock block' hblock' heq => ?_
  -- An instance has one descriptor, and one block is retired for each.
  have hown := (h.block block hblock).1
  rw [heq, (h.block block' hblock').1] at hown
  exact List.inj_on_of_nodup_map h.once hblock hblock'
    (Prod.mk.inj (Option.some.inj hown)).2.symm

/-- What is under way goes on without the store. -/
theorem Holds.activity (h : Holds r owner destroyed released n sc act blocks)
    (hstarts : ∀ f ∈ act'.starts, f.changed = false → f.rest ⊆ sc.pendingRuntimeSessions)
    (hsweep : ∀ sweep d m, act'.sweep = some sweep → sweep.destroying = some (d, m) →
      sc.sessionStore.find (r.sessionSlotOf d) = some m) :
    Holds r owner destroyed released n sc act' blocks :=
  ⟨h.pending, h.stored, h.stopped, h.running, h.stopping, hstarts, hsweep, h.block, h.apart,
    h.once, h.same, h.destroyedFirst, h.kept⟩

/-- A start begins with an array without instances. -/
theorem Holds.start (h : Holds r owner destroyed released n sc act blocks)
    (hidle : act.sweep = none) (count : ℕ) :
    Holds r owner destroyed released n (sc.beginStart count)
      (act.setStarts (⟨sc.pendingRuntimeSessions, false⟩ :: act.starts)) blocks := by
  refine ⟨h.pending, nofun, fun _ => nofun, h.running, fun _ => nofun, ?_, fun sweep d m hs => ?_,
    h.block, fun _ _ => nofun, h.once, h.same, h.destroyedFirst, h.kept⟩
  · exact List.forall_mem_cons.mpr ⟨fun _ => List.Subset.refl _, h.starts⟩
  · exact absurd (hidle.symm.trans hs) nofun

/-- An instance is stored, and the retired block of its descriptor is released. -/
theorem Holds.store (h : Holds r owner destroyed released n sc act blocks) (size : ℕ)
    {d : DescriptorId} {k : SessionSlot} {m : Addr} (hk : r.sessionSlotOf d = some k)
    (hm : owner m = some (n, d)) (halive : m ∉ destroyed)
    (hstate : sc.scopeState ≠ .stopping)
    (hpending : sc.scopeState = .stopped → ∃ psb ∈ sc.pendingRuntimeSessions, psb.boundInstance = m)
    (hstarts : ∀ f ∈ act'.starts, f.changed = false → f.rest ⊆ sc.pendingRuntimeSessions)
    (hsweep : act'.sweep = none) :
    Holds r owner destroyed (released ++ (releaseRetired d blocks).2) n
      { sc with sessionStore := { sc.sessionStore with instancesSize := size }.store (some k) d m }
      act' (releaseRetired d blocks).1 := by
  have hinstances : ∀ slot m', update sc.sessionStore.instances k (some m) slot = some m' →
      slot = k ∧ m' = m ∨ sc.sessionStore.instances slot = some m' := by
    intro slot m' hslot
    by_cases heq : slot = k
    · rw [heq, Function.update_self] at hslot
      exact .inl ⟨heq, (Option.some.inj hslot).symm⟩
    · rw [Function.update_of_ne heq] at hslot
      exact .inr hslot
  have hrest := (releaseRetired_perm d blocks).1
  constructor
  case pending => exact h.pending
  case stored =>
    intro slot m' hslot
    rcases hinstances slot m' hslot with ⟨rfl, rfl⟩ | hold
    · exact ⟨halive, d, hk, hm⟩
    · exact h.stored slot m' hold
  case stopped =>
    intro hstopped slot m' hslot
    rcases hinstances slot m' hslot with ⟨rfl, rfl⟩ | hold
    · exact hpending hstopped
    · exact h.stopped hstopped slot m' hold
  case running => exact h.running
  case stopping => exact fun hstopping => absurd hstopping hstate
  case starts => exact hstarts
  case destroying => exact fun sweep d' m' hs => absurd (hsweep.symm.trans hs) nofun
  case block =>
    intro block hblock
    obtain ⟨hmem, hne⟩ := mem_releaseRetired_fst.mp hblock
    obtain ⟨hown, hgone, hkept⟩ := h.block block hmem
    refine ⟨hown, hgone, fun hreleased => ?_⟩
    rcases List.mem_append.mp hreleased with hold | hnew
    · exact hkept hold
    · -- What is released is of the descriptor, and the block is of another one.
      obtain ⟨block', hmem', hd', heq⟩ := mem_releaseRetired_snd.mp hnew
      have hown' := (h.block block' hmem').1
      rw [heq, hown] at hown'
      exact hne ((Prod.mk.inj (Option.some.inj hown')).2.trans hd')
  case apart =>
    intro block hblock slot m' hslot
    obtain ⟨hmem, hne⟩ := mem_releaseRetired_fst.mp hblock
    rcases hinstances slot m' hslot with ⟨rfl, rfl⟩ | hold
    · rw [hm]
      exact fun heq => hne (Prod.mk.inj (Option.some.inj heq)).2.symm
    · exact h.apart block hmem slot m' hold
  case once =>
    rw [(hrest.map _).nodup_iff]
    exact h.once.sublist (List.filter_sublist.map _)
  case same =>
    refine (hrest.map _).trans ?_
    refine List.Perm.trans (.of_eq ?_) (h.same.filter fun block => block.descId != d)
    rw [List.filter_map]
    rfl
  case destroyedFirst =>
    intro m' hm' d' hd'
    rcases List.mem_append.mp hm' with hold | hnew
    · exact h.destroyedFirst m' hold d' hd'
    · obtain ⟨block, hmem, -, rfl⟩ := mem_releaseRetired_snd.mp hnew
      exact (h.block block hmem).2.1
  case kept =>
    intro m' hm' d' hd'
    rcases h.kept m' hm' d' hd' with hold | ⟨block, hmem, heq⟩
    · exact .inl (List.mem_append_left _ hold)
    · by_cases hblock : block.descId = d
      · exact .inl (List.mem_append_right _ (mem_releaseRetired_snd.mpr ⟨block, hmem, hblock, heq⟩))
      · exact .inr ⟨block, mem_releaseRetired_fst.mpr ⟨hmem, hblock⟩, heq⟩

/-- A start returns. -/
theorem Holds.returns (h : Holds r owner destroyed released n sc act blocks)
    (hidle : act.sweep = none) (outer : List Start) :
    Holds r owner destroyed released n sc.finishStart (act.setStarts outer).change blocks := by
  refine ⟨nofun, h.stored, nofun, fun _ => rfl, nofun, fun f hf hc => ?_, fun sweep d m hs => ?_,
    h.block, h.apart, h.once, h.same, h.destroyedFirst, h.kept⟩
  · obtain ⟨f', -, rfl⟩ := List.mem_map.mp hf
    cases hc
  · exact absurd (hidle.symm.trans hs) nofun

/-- An instance is pending until the next start. -/
theorem Holds.bindPending (h : Holds r owner destroyed released n sc act blocks)
    (hstate : sc.scopeState ≠ .running) {d : DescriptorId} {object : Addr}
    (hm : owner object = some (n, d)) (halive : object ∉ destroyed)
    (hnew : ∀ slot, sc.sessionStore.instances slot ≠ some object) :
    Holds r owner destroyed released n
      { sc with pendingRuntimeSessions := sc.pendingRuntimeSessions ++ [⟨d, object⟩] } act.change
      blocks := by
  refine ⟨?_, h.stored, fun hstopped slot m hslot => ?_, fun hrunning => absurd hrunning hstate,
    fun hstopping slot m hslot => ?_, fun f hf hc => ?_, h.destroying, h.block, h.apart, h.once,
    h.same, h.destroyedFirst, h.kept⟩
  · exact List.forall_mem_append.mpr ⟨h.pending, List.forall_mem_singleton.mpr ⟨hm, halive⟩⟩
  · obtain ⟨psb, hpsb, heq⟩ := h.stopped hstopped slot m hslot
    exact ⟨psb, List.mem_append_left _ hpsb, heq⟩
  · refine List.forall_mem_append.mpr ⟨h.stopping hstopping slot m hslot, ?_⟩
    exact List.forall_mem_singleton.mpr fun heq => hnew slot (hslot.trans (congrArg some heq.symm))
  · obtain ⟨f', -, rfl⟩ := List.mem_map.mp hf
    cases hc

/-- A stop begins. -/
theorem Holds.stop (h : Holds r owner destroyed released n sc act blocks)
    (hrunning : sc.scopeState = .running) (order : List DescriptorId) (deferDeallocation : Bool) :
    Holds r owner destroyed released n sc.beginStop
      (act.setSweep (some ⟨order, none, deferDeallocation⟩)) blocks := by
  have hpending := h.running hrunning
  refine ⟨h.pending, h.stored, nofun, nofun, fun _ slot m _ => ?_, h.starts, fun sweep d m hs => ?_,
    h.block, h.apart, h.once, h.same, h.destroyedFirst, h.kept⟩
  · change ∀ psb ∈ sc.pendingRuntimeSessions, _
    rw [hpending]
    exact fun _ hpsb => absurd hpsb List.not_mem_nil
  · obtain rfl := Option.some.inj hs
    exact nofun

theorem clearSlot_some {k : SessionSlot} {d : DescriptorId} {m : Addr} (deferDeallocation : Bool) :
    (SessionBounds.clearSlot sc (some k) d m deferDeallocation).sessionStore.instances =
      update sc.sessionStore.instances k none := by
  cases deferDeallocation <;> rfl

/-- The instance that a stop destroys is of this scope, and is destroyed for the first time. -/
theorem Holds.of_destroying (h : Holds r owner destroyed released n sc act blocks)
    (hnum : r.Numbered) {sweep : Sweep} {d : DescriptorId} {m : Addr}
    (hsweep : act.sweep = some sweep) (hd : sweep.destroying = some (d, m)) :
    ∃ k, r.sessionSlotOf d = some k ∧ sc.sessionStore.instances k = some m ∧
      owner m = some (n, d) ∧ m ∉ destroyed ∧ m ∉ released := by
  obtain ⟨k, hk, hstored⟩ := find_eq_some (h.destroying sweep d m hsweep hd)
  obtain ⟨halive, d', hd', hown⟩ := h.stored k m hstored
  obtain rfl := hnum.distinct d' d k hd' hk
  exact ⟨k, hk, hstored, hown, halive, fun hm => halive (h.destroyedFirst m hm d' hown)⟩

/-- A stop has destroyed an instance. Its memory is retired in a restart, and released else. -/
theorem Holds.destroyInstance (h : Holds r owner destroyed released n sc act blocks)
    (hnum : r.Numbered) (hstopping : sc.scopeState = .stopping) {sweep : Sweep} {d : DescriptorId}
    {m : Addr} (hsweep : act.sweep = some sweep) (hd : sweep.destroying = some (d, m))
    (layout : Layout) (deferDeallocation : Bool) :
    Holds r owner (destroyed ++ [m])
      (if deferDeallocation then released else released ++ layout.release m) n
      (SessionBounds.clearSlot sc (r.sessionSlotOf d) d m deferDeallocation)
      (act.setSweep (some { sweep with destroying := none }))
      (if deferDeallocation then blocks ++ [⟨layout, d, m⟩] else blocks) := by
  obtain ⟨k, hk, hstored, hown, halive, hunreleased⟩ := h.of_destroying hnum hsweep hd
  have hmem : ∀ m', m' ∈ destroyed ++ [m] ↔ m' ∈ destroyed ∨ m' = m := fun m' => by simp
  have hstate : (SessionBounds.clearSlot sc (r.sessionSlotOf d) d m
      deferDeallocation).scopeState = .stopping := hstopping
  have hinstances : ∀ slot m', (SessionBounds.clearSlot sc (r.sessionSlotOf d) d m
      deferDeallocation).sessionStore.instances slot = some m' →
        slot ≠ k ∧ sc.sessionStore.instances slot = some m' := by
    intro slot m' hslot
    rw [hk, clearSlot_some] at hslot
    by_cases heq : slot = k
    · rw [heq, Function.update_self] at hslot
      cases hslot
    · rw [Function.update_of_ne heq] at hslot
      exact ⟨heq, hslot⟩
  -- What is still stored is of other descriptors.
  have hother : ∀ slot m', slot ≠ k → sc.sessionStore.instances slot = some m' →
      owner m' ≠ some (n, d) := by
    intro slot m' hne hslot hm'
    obtain ⟨-, d', hd', hown'⟩ := h.stored slot m' hslot
    rw [hm'] at hown'
    obtain rfl := (Prod.mk.inj (Option.some.inj hown')).2
    exact hne (Option.some.inj (hd'.symm.trans hk))
  constructor
  case pending =>
    intro psb hpsb
    obtain ⟨hpown, hpalive⟩ := h.pending psb hpsb
    exact ⟨hpown, (hmem _).not.mpr
      (not_or.mpr ⟨hpalive, h.stopping hstopping k m hstored psb hpsb⟩)⟩
  case stored =>
    intro slot m' hslot
    obtain ⟨hne, hold⟩ := hinstances slot m' hslot
    obtain ⟨halive', hown'⟩ := h.stored slot m' hold
    refine ⟨(hmem _).not.mpr (not_or.mpr ⟨halive', ?_⟩), hown'⟩
    rintro rfl
    exact hother slot m' hne hold hown
  case stopped =>
    rw [hstate]
    exact nofun
  case running =>
    rw [hstate]
    exact nofun
  case stopping =>
    intro _ slot m' hslot
    exact h.stopping hstopping slot m' (hinstances slot m' hslot).2
  case starts => exact h.starts
  case destroying =>
    intro sweep' d' m' hs hd'
    obtain rfl := Option.some.inj hs
    cases hd'
  case block =>
    have hold : ∀ block ∈ blocks, block.memory ≠ m := by
      rintro block hblock rfl
      exact halive (h.block block hblock).2.1
    cases deferDeallocation with
    | true =>
      refine List.forall_mem_append.mpr ⟨fun block hblock => ?_,
        List.forall_mem_singleton.mpr ⟨hown, (hmem m).mpr (.inr rfl), hunreleased⟩⟩
      obtain ⟨hbown, hgone, hkept⟩ := h.block block hblock
      exact ⟨hbown, (hmem _).mpr (.inl hgone), hkept⟩
    | false =>
      intro block hblock
      obtain ⟨hbown, hgone, hkept⟩ := h.block block hblock
      refine ⟨hbown, (hmem _).mpr (.inl hgone), ?_⟩
      simpa using ⟨hkept, hold block hblock⟩
  case apart =>
    have hold : ∀ block ∈ blocks, ∀ slot m', (SessionBounds.clearSlot sc (r.sessionSlotOf d) d m
        deferDeallocation).sessionStore.instances slot = some m' →
          owner m' ≠ some (n, block.descId) := fun block hblock slot m' hslot =>
      h.apart block hblock slot m' (hinstances slot m' hslot).2
    cases deferDeallocation with
    | true =>
      refine List.forall_mem_append.mpr
        ⟨hold, List.forall_mem_singleton.mpr fun slot m' hslot => ?_⟩
      obtain ⟨hne, hslot⟩ := hinstances slot m' hslot
      exact hother slot m' hne hslot
    | false => exact hold
  case once =>
    cases deferDeallocation with
    | true =>
      -- The instance was stored, so that no block is retired for its descriptor.
      refine (congrArg List.Nodup (List.map_append ..)).mpr ?_
      refine List.nodup_append.mpr ⟨h.once, List.nodup_singleton d, ?_⟩
      rintro _ hblocks _ hnew rfl
      obtain ⟨block, hblock, hbd⟩ := List.mem_map.mp hblocks
      rw [List.mem_singleton.mp hnew] at hbd
      exact h.apart block hblock k m hstored (hbd ▸ hown)
    | false => exact h.once
  case same =>
    rw [hk]
    cases deferDeallocation with
    | true =>
      refine (List.Perm.of_eq (List.map_append ..)).trans ?_
      exact h.same.append_right _
    | false => exact h.same
  case destroyedFirst =>
    intro m' hm' d' hd'
    refine (hmem m').mpr ?_
    cases deferDeallocation with
    | true => exact .inl (h.destroyedFirst m' hm' d' hd')
    | false =>
      rw [if_neg Bool.false_ne_true, Layout.release_eq] at hm'
      exact (List.mem_append.mp hm').imp (fun hold => h.destroyedFirst m' hold d' hd')
        List.mem_singleton.mp
  case kept =>
    intro m' hm' d' hd'
    cases deferDeallocation with
    | true =>
      rcases (hmem m').mp hm' with hold | rfl
      · refine (h.kept m' hold d' hd').imp_right fun ⟨block, hblock, heq⟩ => ?_
        exact ⟨block, List.mem_append_left _ hblock, heq⟩
      · exact .inr ⟨_, List.mem_append_right _ List.mem_cons_self, rfl⟩
    | false =>
      rw [if_neg Bool.false_ne_true, Layout.release_eq]
      rcases (hmem m').mp hm' with hold | rfl
      · exact (h.kept m' hold d' hd').imp_left (List.mem_append_left _)
      · exact .inl (List.mem_append_right _ List.mem_cons_self)

/-- A stop returns, and releases what is retired unless it is part of a restart. -/
theorem Holds.stopReturns (h : Holds r owner destroyed released n sc act blocks)
    (hstarts : ∀ f ∈ act.starts, f.changed ≠ false) (deferDeallocation : Bool) :
    Holds r owner destroyed
      (if deferDeallocation then released else released ++ releaseRetiredBlocks blocks) n
      (sc.finishStop deferDeallocation) (act.setSweep none)
      (if deferDeallocation then blocks else []) := by
  have hnone : ∀ f ∈ act.starts, f.changed = false → f.rest ⊆ sc.pendingRuntimeSessions :=
    fun f hf hc => absurd hc (hstarts f hf)
  cases deferDeallocation with
  | true =>
    exact ⟨h.pending, nofun, fun _ => nofun, nofun, nofun, hnone, nofun, h.block,
      fun _ _ _ _ => nofun, h.once, h.same, h.destroyedFirst, h.kept⟩
  | false =>
    refine ⟨h.pending, nofun, fun _ => nofun, nofun, nofun, hnone, nofun,
      fun _ hblock => absurd hblock List.not_mem_nil, fun _ _ _ _ => nofun, List.nodup_nil,
      List.Perm.refl _, fun m hm d hd => ?_, fun m hm d hd => .inl ?_⟩
    · rcases List.mem_append.mp hm with hold | hnew
      · exact h.destroyedFirst m hold d hd
      · rw [releaseRetiredBlocks_eq] at hnew
        obtain ⟨block, hblock, rfl⟩ := List.mem_map.mp hnew
        exact (h.block block hblock).2.1
    · refine (h.kept m hm d hd).elim (List.mem_append_left _) fun ⟨block, hblock, heq⟩ => ?_
      refine List.mem_append_right _ ?_
      rw [releaseRetiredBlocks_eq]
      exact List.mem_map.mpr ⟨block, hblock, heq⟩

/-- A scope is destroyed with its pending instances, and its retired blocks are released. -/
theorem Holds.destroyScope (h : Holds r owner destroyed released n sc act blocks)
    (layout : DescriptorId → Layout) :
    Holds r owner
      (destroyed ++ sc.pendingRuntimeSessions.map PendingRuntimeSession.boundInstance)
      (released ++ (sc.pendingRuntimeSessions.flatMap fun psb =>
        (layout psb.descId).release psb.boundInstance) ++ releaseRetiredBlocks blocks) n {} {}
      [] := by
  have hpending : (sc.pendingRuntimeSessions.flatMap fun psb =>
      (layout psb.descId).release psb.boundInstance) =
        sc.pendingRuntimeSessions.map PendingRuntimeSession.boundInstance := by
    simp [List.map_eq_flatMap]
  rw [hpending, releaseRetiredBlocks_eq]
  refine ⟨fun _ hpsb => absurd hpsb List.not_mem_nil, nofun, fun _ => nofun, fun _ => rfl, nofun,
    fun _ hf => absurd hf List.not_mem_nil, nofun, fun _ hblock => absurd hblock List.not_mem_nil,
    fun _ hblock => absurd hblock List.not_mem_nil, List.nodup_nil, List.Perm.refl _,
    fun m hm d hd => ?_, fun m hm d hd => .inl ?_⟩
  · rcases List.mem_append.mp hm with hm | hm
    · exact List.mem_append.mpr ((List.mem_append.mp hm).imp_left
        fun hold => h.destroyedFirst m hold d hd)
    · obtain ⟨block, hblock, rfl⟩ := List.mem_map.mp hm
      exact List.mem_append_left _ (h.block block hblock).2.1
  · rcases List.mem_append.mp hm with hold | hnew
    · rcases h.kept m hold d hd with hreleased | ⟨block, hblock, rfl⟩
      · exact List.mem_append_left _ (List.mem_append_left _ hreleased)
      · exact List.mem_append_right _ (List.mem_map_of_mem hblock)
    · exact List.mem_append_left _ (List.mem_append_right _ hnew)

end Holds

end Ctorium.SessionMemory
