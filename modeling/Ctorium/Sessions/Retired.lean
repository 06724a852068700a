import Ctorium.Sessions.Memory
import Mathlib.Data.List.Basic

/-!
# Retired session memory

* `retired_memory`: in every run in which a start goes on only with the vector that it
  began with, and no scope is stopped while one of its beans is being constructed, the
  memory of a destroyed instance is released exactly once, at most one block is retired
  for a descriptor, and it is kept until a new instance of this descriptor is stored,
  which has another address;
* `restarted_in_start_released_twice`: a listener that starts and restarts the scope whose
  start has called it has the start store an instance that has been destroyed.
-/

namespace Ctorium.SessionMemory

open Function (update)
open Sessions (Grows SameSession boundSession)
open SessionBounds (Activity Sweep)

/-! ## Before the first start -/

/-- As long as the root has not been started, no scope has retired memory. -/
def NothingRetired (b : BeanContext) : Prop :=
  b.core.started = false → ∀ n, (b.scopes n).sessionStore.retiredBlocks = []

theorem nothingRetired_setScope {b : BeanContext} (h : NothingRetired b) {n : ScopeId}
    {sc : ScopedContext}
    (hsc : b.core.started = false → sc.sessionStore.retiredBlocks = []) :
    NothingRetired (b.setScope n sc) := by
  intro hnot n'
  change (update b.scopes n sc n').sessionStore.retiredBlocks = []
  by_cases heq : n' = n
  · rw [heq, Function.update_self]
    exact hsc hnot
  · rw [Function.update_of_ne heq]
    exact h hnot n'

theorem nothingRetired_of_started {b : BeanContext} (h : b.core.started = true) :
    NothingRetired b := fun hnot => by
  rw [h] at hnot
  cases hnot

theorem exec_started {b : BeanContext} (h : b.core.started = true) (call : BeanContext.Call) :
    (b.exec call).state.core.started = true := by
  -- startScope() never writes the root.
  have hstart : ∀ (b : BeanContext) n, b.core.started = true →
      (b.startScope n).state.core.started = true := by
    intro b n hb
    simp only [BeanContext.startScope, hb, Bool.not_true, Bool.false_eq_true, if_false]
    cases (b.scopes n).scopeState <;> exact hb
  cases call with
  | discover cds => exact (Sessions.exec_root h rfl).1.started
  | bindSingleton type name priority object => exact (Sessions.exec_root h rfl).1.started
  | defaultNamed scope type name => exact (Sessions.exec_root h rfl).1.started
  | clearDefaultNamed scope type => exact (Sessions.exec_root h rfl).1.started
  | start => exact (Sessions.exec_root h rfl).1.started
  | bindSession n type name priority object =>
    -- A refused binding at most interns; a placed one registers its descriptor.
    rw [BeanContext.exec]
    rcases Sessions.bindSession_cases b n type name priority object with
      ⟨e, core, heq, rfl | rfl⟩ | heq
    · rw [heq]
      exact h
    · rw [heq]
      exact h
    · rw [heq, BeanContext.placeSession_core]
      exact (Sessions.boundSession_grows h type name priority).started
  | startScope n => exact hstart b n h
  | stopScope n =>
    change (b.stopScope n).core.started = true
    unfold BeanContext.stopScope
    split_ifs <;> exact h
  | restartScope n =>
    refine hstart _ n ?_
    unfold BeanContext.stopScope
    split_ifs <;> exact h

theorem NothingRetired.exec {b : BeanContext} (h : NothingRetired b) (hslotted : b.Slotted)
    (call : BeanContext.Call) : NothingRetired (b.exec call).state := by
  cases hstarted : b.core.started with
  | true => exact nothingRetired_of_started (exec_started hstarted call)
  | false =>
    have hretired := h hstarted
    have hidle := hslotted.idle hstarted
    -- Calls that leave the scopes alone.
    have hscopes : (b.exec call).state.scopes = b.scopes → NothingRetired (b.exec call).state :=
      fun heq _ n => heq ▸ hretired n
    -- Before start() every scope is stopped: stop() and start() of a scope do nothing.
    have hstop : ∀ n, b.stopScope n = b := fun n => if_neg ((hidle n).1 ▸ nofun)
    have hstart : ∀ n, (b.startScope n).state = b := fun n => by
      rw [BeanContext.startScope, hstarted]
      rfl
    cases call with
    | discover cds => exact hscopes rfl
    | bindSingleton type name priority object =>
      exact hscopes rfl
    | bindSession n type name priority object =>
      rw [BeanContext.exec]
      rcases Sessions.bindSession_cases b n type name priority object with ⟨e, core, heq, -⟩ | heq
      · rw [heq]
        exact fun _ n => hretired n
      · rw [heq]
        -- The binding is queued; the running case cannot occur yet.
        have hbefore : NothingRetired (b.withCore (boundSession b type name priority).2) :=
          fun _ n => hretired n
        rcases Sessions.placeSession_cases (b.withCore (boundSession b type name priority).2) n
          (boundSession b type name priority).1 object with
            ⟨e, hfail⟩ | ⟨-, ⟨-, hok⟩ | ⟨hrun, -, -⟩⟩
        · rw [hfail]
          exact hbefore
        · rw [hok]
          exact nothingRetired_setScope hbefore fun _ => hretired n
        · exact absurd ((hidle n).1.symm.trans hrun) nofun
    | defaultNamed scope type name =>
      refine hscopes ?_
      rw [BeanContext.exec, BeanContext.defaultNamed, hstarted]
      rfl
    | clearDefaultNamed scope type =>
      refine hscopes ?_
      rw [BeanContext.exec, BeanContext.clearDefaultNamed, hstarted]
      rfl
    | start => exact hscopes rfl
    | startScope n => exact (hstart n).symm ▸ h
    | stopScope n =>
      have hstate : (b.exec (.stopScope n)).state = b := hstop n
      exact hstate.symm ▸ h
    | restartScope n =>
      have hstate : (b.exec (.restartScope n)).state = b := by
        rw [BeanContext.exec, BeanContext.restartScope, if_neg ((hidle n).1 ▸ nofun), hstop, hstart]
      exact hstate.symm ▸ h

theorem nothingRetired_execAll (S : StdSort) (self : Addr) (calls : List BeanContext.Call) :
    NothingRetired ((BeanContext.fresh S self).execAll calls) := by
  refine (BeanContext.execAll_invariant
    (P := fun b => b.core.Indexed ∧ b.Slotted ∧ NothingRetired b) (fun b call hb => ?_)
    ⟨Registry.indexed_empty S, BeanContext.slotted_fresh S self, fun _ _ => rfl⟩ calls).2.2
  exact ⟨BeanContext.exec_indexed hb.1 call, hb.2.1.exec hb.1 call, hb.2.2.exec hb.2.1 call⟩

/-! ## The invariant -/

/-- What holds in every state that a guarded run reaches. -/
structure Inv (s : State) : Prop where
  sessions : s.sessions.context.core.started = true → SessionBounds.Inv s.sessions
  numbered : s.sessions.context.Numbered
  holds : ∀ n, Holds s.sessions.context.core s.owner s.destroyed s.released n
    (s.sessions.context.scopes n) (s.sessions.activity n) (s.retired n)
  allocated : ∀ m x, s.owner m = some x → s.block m ≠ none
  /-- Memory is released if no scope has taken it over, or after the instance has been
      destroyed. -/
  owned : ∀ m ∈ s.destroyed, s.owner m ≠ none
  releasedOnce : s.released.Nodup
  gone : ∀ n ∈ s.gone, s.retired n = []
  apart : ∀ m m' b b', s.block m = some b → s.block m' = some b' → m ≠ m' → m ∉ s.released →
    m' ∉ s.released → b.Apart b'

section Inv

variable {s t : State} {n : ScopeId}

theorem block_cons (s : State) (m : Addr) (b : Block) (m' : Addr) :
    ({ s with allocated := (m, b) :: s.allocated } : State).block m' =
      if m' = m then some b else s.block m' := by
  by_cases h : m' = m
  · simp [State.block, h]
  · simp [State.block, List.lookup_cons, h, beq_eq_false_iff_ne.mpr h]

theorem mem_of_block {m : Addr} {b : Block} (h : s.block m = some b) : (m, b) ∈ s.allocated :=
  Registry.mem_of_lookup_eq_some h

/-- The allocator has given out further memory. -/
theorem Inv.allocate (h : Inv s) {m : Addr} {b : Block}
    (hapart : ∀ x ∈ s.allocated, x.1 ∉ s.released → b.Apart x.2) :
    Inv { s with allocated := (m, b) :: s.allocated } := by
  refine ⟨h.sessions, h.numbered, h.holds, fun m' x hx => ?_, h.owned, h.releasedOnce, h.gone,
    fun m₁ m₂ b₁ b₂ h₁ h₂ hne hr₁ hr₂ => ?_⟩
  · rw [block_cons]
    split_ifs
    · exact nofun
    · exact h.allocated m' x hx
  · rw [block_cons] at h₁ h₂
    split_ifs at h₁ h₂ with hm₁ hm₂ hm₂
    · exact absurd (hm₁.trans hm₂.symm) hne
    · obtain rfl := Option.some.inj h₁
      exact hapart _ (mem_of_block h₂) hr₂
    · obtain rfl := Option.some.inj h₂
      exact (hapart _ (mem_of_block h₁) hr₁).symm
    · exact h.apart m₁ m₂ b₁ b₂ h₁ h₂ hne hr₁ hr₂

theorem nodup_concat {l : List Addr} {m : Addr} (h : l.Nodup) (hm : m ∉ l) : (l ++ [m]).Nodup := by
  refine List.nodup_append.mpr ⟨h, List.nodup_singleton m, ?_⟩
  rintro m' hm' _ hmem rfl
  exact hm (List.mem_singleton.mp hmem ▸ hm')

/-- User code releases memory of its own. -/
theorem Inv.free (h : Inv s) {m : Addr} (hfresh : s.Fresh m) :
    Inv { s with released := s.released ++ [m] } := by
  obtain ⟨-, hunowned, hunreleased⟩ := hfresh
  have hmem : ∀ m', m' ∈ s.released ++ [m] ↔ m' ∈ s.released ∨ m' = m := fun m' => by simp
  refine ⟨h.sessions, h.numbered, fun n => ?_, h.allocated, h.owned,
    nodup_concat h.releasedOnce hunreleased, h.gone, fun m₁ m₂ b₁ b₂ h₁ h₂ hne hr₁ hr₂ => ?_⟩
  · refine (h.holds n).frame (fun _ _ hslot => hslot) (.refl _) (fun _ _ hx => hx)
      (fun m' d hd => .inl hd) (fun _ _ _ => Iff.rfl) fun m' d hd => ?_
    rw [hmem, or_iff_left]
    rintro rfl
    rw [hunowned] at hd
    cases hd
  · rw [hmem] at hr₁ hr₂
    exact h.apart m₁ m₂ b₁ b₂ h₁ h₂ hne (fun hr => hr₁ (.inl hr)) fun hr => hr₂ (.inl hr)

/-- A scope takes an instance over. -/
theorem Inv.own (h : Inv s) {m : Addr} (hfresh : s.Fresh m) (n : ScopeId) (d : DescriptorId) :
    Inv (s.own n d m) := by
  obtain ⟨hblock, hunowned, hunreleased⟩ := hfresh
  have hundestroyed : m ∉ s.destroyed := fun hm => h.owned m hm hunowned
  -- Addresses owned before stay owned: the new one was owned by nobody.
  have howner : ∀ m' x, s.owner m' = some x → (s.own n d m).owner m' = some x := by
    intro m' x hx
    have hne : m' ≠ m := fun heq => by
      rw [heq, hunowned] at hx
      cases hx
    exact (Function.update_of_ne hne _ _).trans hx
  have hcases : ∀ m' x, (s.own n d m).owner m' = some x → m' = m ∨ s.owner m' = some x := by
    intro m' x hx
    by_cases heq : m' = m
    · exact .inl heq
    · exact .inr ((Function.update_of_ne heq _ _).symm.trans hx)
  refine ⟨h.sessions, h.numbered, fun n' => ?_, fun m' x hx => ?_, fun m' hm' hnone => ?_,
    h.releasedOnce, h.gone, h.apart⟩
  -- The other addresses of the scope are as before.
  · refine (h.holds n').frame (fun _ _ hslot => hslot) (.refl _) howner (fun m' d' hd' => ?_)
      (fun _ _ _ => Iff.rfl) fun _ _ _ => Iff.rfl
    rcases hcases m' _ hd' with rfl | hold
    · exact .inr ⟨hundestroyed, hunreleased, hunowned⟩
    · exact .inl hold
  · rcases hcases m' x hx with rfl | hold
    · exact hblock
    · exact h.allocated m' x hold
  · obtain ⟨x, hx⟩ := Option.ne_none_iff_exists'.mp (h.owned m' hm')
    rw [howner m' x hx] at hnone
    cases hnone

/-- One scope has moved on, with the instances and the memory that belong to it. -/
theorem Inv.local (h : Inv s) (n : ScopeId)
    (hsessions : t.sessions.context.core.started = true → SessionBounds.Inv t.sessions)
    (hnumbered : t.sessions.context.Numbered)
    (hslots : ∀ d slot, s.sessions.context.core.sessionSlotOf d = some slot →
      t.sessions.context.core.sessionSlotOf d = some slot)
    (hscopes : ∀ n' ≠ n, SameSession (s.sessions.context.scopes n') (t.sessions.context.scopes n'))
    (hactivity : ∀ n' ≠ n, t.sessions.activity n' = s.sessions.activity n')
    (hretired : ∀ n' ≠ n, t.retired n' = s.retired n')
    (hn : Holds t.sessions.context.core t.owner t.destroyed t.released n
      (t.sessions.context.scopes n) (t.sessions.activity n) (t.retired n))
    (hallocated : t.allocated = s.allocated) (howner : t.owner = s.owner)
    (hdestroyed : ∀ m ∈ t.destroyed, m ∈ s.destroyed ∨ ∃ d, s.owner m = some (n, d))
    (hsub : s.destroyed ⊆ t.destroyed)
    (hreleased : ∀ m ∈ t.released, m ∈ s.released ∨ ∃ d, s.owner m = some (n, d))
    (hkept : s.released ⊆ t.released) (honce : t.released.Nodup)
    (hgone : ∀ n' ∈ t.gone, n' ∈ s.gone ∨ n' = n) (hn_gone : n ∈ t.gone → t.retired n = []) :
    Inv t := by
  -- A step of scope `n` touches no instance of another scope.
  have hblock : ∀ m, t.block m = s.block m := fun m => by rw [State.block, hallocated, State.block]
  have hforeign : ∀ n' ≠ n, ∀ m d d', s.owner m = some (n', d) → s.owner m ≠ some (n, d') := by
    intro n' hn' m d d' hd hd'
    rw [hd] at hd'
    exact hn' (Prod.mk.inj (Option.some.inj hd')).1
  refine ⟨hsessions, hnumbered, fun n' => ?_, fun m x hx => ?_, fun m hm => ?_, honce,
    fun n' hn' => ?_, fun m m' b b' hb hb' hne hm hm' => ?_⟩
  -- The scope that moved, and the others through the frame lemma.
  · by_cases heq : n' = n
    · exact heq ▸ hn
    · rw [hactivity n' heq, hretired n' heq, howner]
      refine (h.holds n').frame hslots (hscopes n' heq) (fun _ _ hx => hx) (fun _ _ hd => .inl hd)
        (fun m d hd => ⟨fun hm => ?_, fun hm => hsub hm⟩)
        fun m d hd => ⟨fun hm => ?_, fun hm => hkept hm⟩
      · refine (hdestroyed m hm).resolve_right fun ⟨d', hd'⟩ => hforeign n' heq m d d' hd hd'
      · refine (hreleased m hm).resolve_right fun ⟨d', hd'⟩ => hforeign n' heq m d d' hd hd'
  -- Blocks are cut from the same allocations as before.
  · rw [hblock]
    exact h.allocated m x (howner ▸ hx)
  · rw [howner]
    rcases hdestroyed m hm with hold | ⟨d, hd⟩
    · exact h.owned m hold
    · exact hd ▸ nofun
  · by_cases heq : n' = n
    · exact heq ▸ hn_gone (heq ▸ hn')
    · rw [hretired n' heq]
      exact h.gone n' ((hgone n' hn').resolve_right heq)
  · rw [hblock] at hb hb'
    exact h.apart m m' b b' hb hb' hne (fun hr => hm (hkept hr)) fun hr => hm' (hkept hr)

/-- The root has moved on, or what is under way in its scopes without their stores. -/
theorem Inv.grow (h : Inv s) {u : SessionBounds.State} (hu : SessionBounds.Inv u)
    (hslots : ∀ d slot, s.sessions.context.core.sessionSlotOf d = some slot →
      u.context.core.sessionSlotOf d = some slot)
    (hscopes : ∀ n, SameSession (s.sessions.context.scopes n) (u.context.scopes n))
    (hactivity : u.activity = s.sessions.activity) : Inv (s.setSessions u) := by
  refine ⟨fun _ => hu, hu.numbered, fun n => ?_, h.allocated, h.owned, h.releasedOnce, h.gone,
    h.apart⟩
  refine (congrFun hactivity n).symm ▸ (h.holds n).frame hslots (hscopes n) (fun _ _ hx => hx)
    (fun _ _ hd => .inl hd) (fun _ _ _ => Iff.rfl) fun _ _ _ => Iff.rfl

/-- One scope has moved on: it has got other retired blocks, instances have been destroyed, and
    memory has been released. -/
theorem Inv.scopeStep (h : Inv s) (blocks : List RetiredBlock) (dead rel : List Addr)
    {u : SessionBounds.State} (hu : SessionBounds.Inv u)
    (hslots : ∀ d slot, s.sessions.context.core.sessionSlotOf d = some slot →
      u.context.core.sessionSlotOf d = some slot)
    (hscopes : ∀ n' ≠ n, SameSession (s.sessions.context.scopes n') (u.context.scopes n'))
    (hactivity : ∀ n' ≠ n, u.activity n' = s.sessions.activity n')
    (hn : Holds u.context.core s.owner (s.destroyed ++ dead) (s.released ++ rel) n
      (u.context.scopes n) (u.activity n) blocks)
    (hdead : ∀ m ∈ dead, ∃ d, s.owner m = some (n, d))
    (hrel : ∀ m ∈ rel, m ∉ s.released ∧ ∃ d, s.owner m = some (n, d)) (honce : rel.Nodup)
    (hgone : n ∉ s.gone) :
    Inv { s with
      sessions := u
      retired := update s.retired n blocks
      destroyed := s.destroyed ++ dead
      released := s.released ++ rel } := by
  refine h.local n (fun _ => hu) hu.numbered hslots hscopes hactivity
    (fun n' hn' => Function.update_of_ne hn' _ _) ?_ rfl rfl (fun m hm => ?_)
    (List.subset_append_left _ _) (fun m hm => ?_) (List.subset_append_left _ _) ?_
    (fun n' hn' => .inl hn') fun hn' => absurd hn' hgone
  · change Holds _ _ _ _ _ _ _ (update s.retired n blocks n)
    rw [Function.update_self]
    exact hn
  · exact (List.mem_append.mp hm).imp_right (hdead m)
  · exact (List.mem_append.mp hm).imp_right fun hm => (hrel m hm).2
  · refine List.nodup_append.mpr ⟨h.releasedOnce, honce, ?_⟩
    rintro m hm _ hmem rfl
    exact (hrel m hmem).1 hm

/-- One scope has moved on without its memory. -/
theorem Inv.move (h : Inv s) {u : SessionBounds.State} (hu : SessionBounds.Inv u)
    (hslots : ∀ d slot, s.sessions.context.core.sessionSlotOf d = some slot →
      u.context.core.sessionSlotOf d = some slot)
    (hscopes : ∀ n' ≠ n, SameSession (s.sessions.context.scopes n') (u.context.scopes n'))
    (hactivity : ∀ n' ≠ n, u.activity n' = s.sessions.activity n')
    (hn : Holds u.context.core s.owner s.destroyed s.released n (u.context.scopes n)
      (u.activity n) (s.retired n)) (hgone : n ∉ s.gone) : Inv (s.setSessions u) := by
  have hinv := h.scopeStep (s.retired n) [] [] hu hslots hscopes
    hactivity (by rwa [List.append_nil, List.append_nil])
    (fun _ hm => absurd hm List.not_mem_nil) (fun _ hm => absurd hm List.not_mem_nil)
    List.nodup_nil hgone
  rwa [Function.update_eq_self, List.append_nil, List.append_nil] at hinv

/-- One scope has stored an instance. -/
theorem Inv.store (h : Inv s) {u : SessionBounds.State} {d : DescriptorId}
    (hu : SessionBounds.Inv u)
    (hslots : ∀ d slot, s.sessions.context.core.sessionSlotOf d = some slot →
      u.context.core.sessionSlotOf d = some slot)
    (hscopes : ∀ n' ≠ n, SameSession (s.sessions.context.scopes n') (u.context.scopes n'))
    (hactivity : ∀ n' ≠ n, u.activity n' = s.sessions.activity n')
    (hn : Holds u.context.core s.owner s.destroyed
      (s.released ++ (releaseRetired d (s.retired n)).2) n (u.context.scopes n) (u.activity n)
      (releaseRetired d (s.retired n)).1) (hgone : n ∉ s.gone) :
    Inv ((s.releaseRetired n d).setSessions u) := by
  have hinv := h.scopeStep (releaseRetired d (s.retired n)).1 []
    (releaseRetired d (s.retired n)).2 hu hslots hscopes hactivity
    (by rwa [List.append_nil]) (fun _ hm => absurd hm List.not_mem_nil) (fun m hm => ?_) ?_ hgone
  · rwa [List.append_nil] at hinv
  · obtain ⟨block, hblock, -, rfl⟩ := mem_releaseRetired_snd.mp hm
    obtain ⟨hown, -, hkept⟩ := (h.holds n).block block hblock
    exact ⟨hkept, block.descId, hown⟩
  · rw [(releaseRetired_perm d (s.retired n)).2.nodup_iff]
    exact (h.holds n).memoryOnce.sublist (List.filter_sublist.map _)

/-- A step of one scope that changes its memory. -/
theorem Inv.memoryStep (h : Inv s) (blocks : List RetiredBlock) (dead rel : List Addr)
    {u : SessionBounds.State} {sc : ScopedContext} {act : Activity} (hu : SessionBounds.Inv u)
    (hcontext : u.context = s.sessions.context.setScope n sc)
    (hactivity : u.activity = update s.sessions.activity n act)
    (hn : Holds s.sessions.context.core s.owner (s.destroyed ++ dead) (s.released ++ rel) n sc act
      blocks) (hdead : ∀ m ∈ dead, ∃ d, s.owner m = some (n, d))
    (hrel : ∀ m ∈ rel, m ∉ s.released ∧ ∃ d, s.owner m = some (n, d)) (honce : rel.Nodup)
    (hgone : n ∉ s.gone) :
    Inv { s with
      sessions := u
      retired := update s.retired n blocks
      destroyed := s.destroyed ++ dead
      released := s.released ++ rel } := by
  refine h.scopeStep blocks dead rel hu (hcontext ▸ fun _ _ hslot => hslot) (fun n' hn' => ?_)
    (fun n' hn' => ?_) ?_ hdead hrel honce hgone
  · rw [hcontext, Sessions.scopes_setScope_of_ne _ hn']
    exact .refl _
  · rw [hactivity, Function.update_of_ne hn']
  · rw [hcontext, hactivity, Sessions.scopes_setScope_self, Function.update_self]
    exact hn

/-- A step of one scope without its memory. -/
theorem Inv.moveStep (h : Inv s) {u : SessionBounds.State} {sc : ScopedContext} {act : Activity}
    (hu : SessionBounds.Inv u) (hcontext : u.context = s.sessions.context.setScope n sc)
    (hactivity : u.activity = update s.sessions.activity n act)
    (hn : Holds s.sessions.context.core s.owner s.destroyed s.released n sc act (s.retired n))
    (hgone : n ∉ s.gone) : Inv (s.setSessions u) := by
  refine h.move (n := n) hu (hcontext ▸ fun _ _ hslot => hslot) (fun n' hn' => ?_)
    (fun n' hn' => ?_) ?_ hgone
  · rw [hcontext, Sessions.scopes_setScope_of_ne _ hn']
    exact .refl _
  · rw [hactivity, Function.update_of_ne hn']
  · rw [hcontext, hactivity, Sessions.scopes_setScope_self, Function.update_self]
    exact hn

/-- A step of one scope that changes neither its store nor its memory. -/
theorem Inv.activityStep (h : Inv s) {u : SessionBounds.State} {act : Activity}
    (hu : SessionBounds.Inv u) (hcontext : u.context = s.sessions.context)
    (hactivity : u.activity = update s.sessions.activity n act)
    (hn : Holds s.sessions.context.core s.owner s.destroyed s.released n
      (s.sessions.context.scopes n) act (s.retired n)) (hgone : n ∉ s.gone) :
    Inv (s.setSessions u) := by
  refine h.move (n := n) hu (hcontext ▸ fun _ _ hslot => hslot) (fun n' _ => hcontext ▸ .refl _)
    (fun n' hn' => ?_) ?_ hgone
  · rw [hactivity, Function.update_of_ne hn']
  · rw [hcontext, hactivity, Function.update_self]
    exact hn

/-- A step of one scope that stores an instance. -/
theorem Inv.storeStep (h : Inv s) {u : SessionBounds.State} {act : Activity} {d : DescriptorId}
    {m : Addr} {k : SessionSlot} (hu : SessionBounds.Inv u)
    (hk : s.sessions.slotOf d = some k)
    (hcontext : u.context = s.sessions.context.setScope n
      ((s.sessions.scope n).storePending (s.sessions.slotOf d) ⟨d, m⟩))
    (hactivity : u.activity = update s.sessions.activity n act)
    (hm : s.owner m = some (n, d)) (halive : m ∉ s.destroyed)
    (hstate : (s.sessions.scope n).scopeState ≠ .stopping)
    (hpending : (s.sessions.scope n).scopeState = .stopped →
      ∃ psb ∈ (s.sessions.scope n).pendingRuntimeSessions, psb.boundInstance = m)
    (hstarts : ∀ f ∈ act.starts, f.changed = false →
      f.rest ⊆ (s.sessions.scope n).pendingRuntimeSessions)
    (hsweep : act.sweep = none) (hgone : n ∉ s.gone) :
    Inv ((s.releaseRetired n d).setSessions u) := by
  refine h.store hu (hcontext ▸ fun _ _ hslot => hslot) (fun n' hn' => ?_) (fun n' hn' => ?_) ?_
    hgone
  · rw [hcontext, Sessions.scopes_setScope_of_ne _ hn']
    exact .refl _
  · rw [hactivity, Function.update_of_ne hn']
  · rw [hcontext, hactivity, Sessions.scopes_setScope_self, Function.update_self, hk]
    exact (h.holds n).store _ hk hm halive hstate hpending hstarts hsweep

/-- The binding that a scope accepts. -/
theorem Inv.accept (h : Inv s) {b b' : BeanContext} {d : DescriptorId} {object : Addr}
    (hfresh : s.Fresh object) (hgone : n ∉ s.gone)
    (hgrows : Grows s.sessions.context.core b.core) (hscopes : b.scopes = s.sessions.context.scopes)
    (hslot : b.core.sessionSlotOf d ≠ none) (hplace : b.placeSession n d object = .ok b')
    (hu : SessionBounds.Inv ((s.sessions.setContext b').accept n d))
    (hfits : SessionBounds.Fits s.sessions.context.core (s.sessions.context.scopes n)
      (s.sessions.activity n)) :
    Inv ((if (s.sessions.scope n).scopeState = .running then
      (s.own n d object).releaseRetired n d else s.own n d object).setSessions
        ((s.sessions.setContext b').accept n d)) := by
  have hown := h.own hfresh n d
  -- The new object belongs to this scope and is alive.
  have hm : (s.own n d object).owner object = some (n, d) := Function.update_self ..
  have halive : object ∉ s.destroyed := fun hmem => h.owned object hmem hfresh.2.1
  have hslots : ∀ d slot, s.sessions.context.core.sessionSlotOf d = some slot →
      b.core.sessionSlotOf d = some slot := fun _ _ hslot => hgrows.slotOf hslot
  have hholds : Holds b.core (s.own n d object).owner s.destroyed s.released n
      (s.sessions.context.scopes n) (s.sessions.activity n) (s.retired n) :=
    (hown.holds n).frame hslots (.refl _) (fun _ _ hx => hx) (fun _ _ hd => .inl hd)
      (fun _ _ _ => Iff.rfl) fun _ _ _ => Iff.rfl
  have hsame : ∀ sc, ∀ n' ≠ n, SameSession (s.sessions.context.scopes n')
      ((b.setScope n sc).scopes n') := by
    intro sc n' hn'
    rw [Sessions.scopes_setScope_of_ne _ hn', hscopes]
    exact .refl _
  rcases Sessions.placeSession_cases b n d object with
    ⟨e, heq⟩ | ⟨-, ⟨hstate, heq⟩ | ⟨hrunning, -, heq⟩⟩
  -- A refused placement is no `.ok`.
  · rw [heq] at hplace
    cases hplace
  -- The scope does not run: the object waits among the pending bindings.
  · obtain rfl : _ = b' := congrArg Attempt.state (heq.symm.trans hplace)
    rw [hscopes] at hstate
    have hsc := Sessions.scopes_setScope_self b n { b.scopes n with
      pendingRuntimeSessions := (b.scopes n).pendingRuntimeSessions ++ [⟨d, object⟩] }
    have haccept : (s.sessions.setContext (b.setScope n _)).accept n d = _ :=
      if_neg fun hrun => hstate
        (hscopes ▸ (congrArg ScopedContext.scopeState hsc).symm.trans hrun)
    have hidle : (s.sessions.scope n).scopeState ≠ .running := hstate
    rw [Attempt.ok_state, haccept] at hu ⊢
    rw [if_neg hidle]
    refine hown.move hu hslots (hsame _) (fun n' hn' => Function.update_of_ne hn' _ _) ?_ hgone
    change Holds b.core _ _ _ n ((b.setScope n _).scopes n) (update s.sessions.activity n _ n) _
    rw [hsc, Function.update_self, hscopes]
    -- Were it already stored, it would already be owned.
    refine hholds.bindPending hstate hm halive fun slot hstored => ?_
    obtain ⟨-, d', -, hd'⟩ := (h.holds n).stored slot object hstored
    rw [hfresh.2.1] at hd'
    cases hd'
  -- The scope runs: the object is stored at once and the earlier block of `d` released.
  · obtain rfl : _ = b' := congrArg Attempt.state (heq.symm.trans hplace)
    obtain ⟨k, hk⟩ := Option.ne_none_iff_exists'.mp hslot
    rw [hscopes] at hrunning
    have hsc := Sessions.scopes_setScope_self b n { b.scopes n with
      sessionStore := (b.scopes n).sessionStore.growAndStore (b.core.sessionSlotOf d) d object }
    have haccept : (s.sessions.setContext (b.setScope n _)).accept n d = _ :=
      if_pos ((congrArg ScopedContext.scopeState hsc).trans (hscopes ▸ hrunning))
    have hlive : (s.sessions.scope n).scopeState = .running := hrunning
    rw [Attempt.ok_state, haccept] at hu ⊢
    rw [if_pos hlive]
    refine hown.store hu hslots (hsame _) (fun _ _ => rfl) ?_ hgone
    change Holds b.core _ _ _ n ((b.setScope n _).scopes n) (s.sessions.activity n) _
    rw [hsc, hk, hscopes]
    refine hholds.store _ hk hm halive (hrunning ▸ nofun) (fun hstopped => ?_) hholds.starts ?_
    · rw [hrunning] at hstopped
      cases hstopped
    -- No sweep is under way in a running scope.
    · by_contra hsome
      obtain ⟨sweep, hsweep⟩ := Option.ne_none_iff_exists'.mp hsome
      have hstopping := (hfits.sweep sweep hsweep).1
      rw [hrunning] at hstopping
      cases hstopping

/-- A binding is refused, or is accepted after the root has got its descriptor. -/
theorem Inv.bindSession (h : Inv s) {layout : DescriptorId → Layout}
    (hsound : SessionBounds.Inv s.sessions) {type : CppType} {name : String} {priority : ℤ}
    {object : Addr} (hfresh : s.Fresh object) (hgone : n ∉ s.gone) {u : SessionBounds.State}
    (hu : SessionBounds.Inv u)
    (hstep : SessionBounds.step s.sessions (.bindSession n type name priority object) = some u) :
    Inv ((effect layout s (.bindSession n type name priority object)).setSessions u) := by
  have hgrows : Grows s.sessions.context.core
      (s.sessions.context.withCore (boundSession s.sessions.context type name priority).2).core :=
    Sessions.boundSession_grows hsound.started type name priority
  -- A refusal takes no ownership: no binding is reported.
  have hrefused : ∀ core e, s.sessions.context.bindSession n type name priority object =
      .fail (s.sessions.context.withCore core) e → Grows s.sessions.context.core core →
      Inv ((effect layout s (.bindSession n type name priority object)).setSessions u) := by
    intro core e heq hg
    have hnone : bindingOf s.sessions n type name priority object = none := by
      rw [bindingOf, heq]
      rfl
    rw [SessionBounds.step, heq] at hstep
    rw [effect, hnone]
    rw [← Option.some.inj hstep] at hu ⊢
    exact h.grow hu (fun _ _ hslot => hg.slotOf hslot) (fun _ => .refl _) rfl
  rcases Sessions.bindSession_cases s.sessions.context n type name priority object with
    ⟨e, core, heq, hcore⟩ | heq
  · refine hrefused core e heq ?_
    rcases hcore with rfl | rfl
    · exact .of_descriptors_eq hsound.started rfl rfl
    · exact .of_descriptors_eq hsound.started rfl rfl
  -- Accepted: what is placed is the descriptor just registered.
  · have hcore : (s.sessions.context.bindSession n type name priority object).state.core =
        (boundSession s.sessions.context type name priority).2 := by
      rw [heq, BeanContext.placeSession_core, BeanContext.withCore]
    have hnumbered := hsound.numbered.exec hsound.slotted.below
      (.bindSession n type name priority object)
    have hslot := SessionBounds.boundSession_slot hgrows.started (hcore ▸ hnumbered.core)
    rcases Sessions.placeSession_cases (s.sessions.context.withCore
      (boundSession s.sessions.context type name priority).2) n
      (boundSession s.sessions.context type name priority).1 object with
        ⟨e, hplace⟩ | ⟨-, hcases⟩
    · exact hrefused _ e (heq.trans hplace) hgrows
    · obtain ⟨b, hplace⟩ : ∃ b, (s.sessions.context.withCore
          (boundSession s.sessions.context type name priority).2).placeSession n
            -- Either way of placing it succeeds.
            (boundSession s.sessions.context type name priority).1 object = .ok b := by
        rcases hcases with ⟨-, hplace⟩ | ⟨-, -, hplace⟩
        · exact ⟨_, hplace⟩
        · exact ⟨_, hplace⟩
      have hsome : bindingOf s.sessions n type name priority object =
          some ⟨(boundSession s.sessions.context type name priority).1, object⟩ := by
        rw [bindingOf, heq, hplace]
        rfl
      rw [SessionBounds.step, heq, hplace] at hstep
      rw [effect, hsome]
      rw [← Option.some.inj hstep] at hu ⊢
      exact h.accept hfresh hgone hgrows rfl hslot hplace hu (hsound.fits n)

/-- A stop has destroyed an instance. -/
theorem Inv.destroyedStep (h : Inv s) {layout : DescriptorId → Layout}
    (hsound : SessionBounds.Inv s.sessions) (hgone : n ∉ s.gone) {u : SessionBounds.State}
    (hu : SessionBounds.Inv u) (hstep : SessionBounds.step s.sessions (.destroyed n) = some u) :
    Inv ((effect layout s (.destroyed n)).setSessions u) := by
  rw [SessionBounds.step] at hstep
  split at hstep
  · next order d m deferDeallocation hsweep =>
    obtain ⟨hstopping, -⟩ := (hsound.fits n).sweep _ hsweep
    -- What the sweep destroys is stored, owned by this scope, alive and not released.
    obtain ⟨k, hk, hstored, hown, halive, hkept⟩ :=
      (h.holds n).of_destroying h.numbered.core hsweep rfl
    have hn := (h.holds n).destroyInstance h.numbered.core hstopping hsweep rfl (layout d)
      deferDeallocation
    have hdead : ∀ m' ∈ [m], ∃ d, s.owner m' = some (n, d) :=
      List.forall_mem_singleton.mpr ⟨d, hown⟩
    rw [effect, hsweep]
    rw [← Option.some.inj hstep] at hu ⊢
    cases deferDeallocation with
    -- Deferred: the memory is kept as a retired block.
    | true =>
      have hinv := h.memoryStep (s.retired n ++ [⟨layout d, d, m⟩]) [m] [] hu rfl rfl
        (by rw [List.append_nil]; exact hn) hdead (fun _ hm => absurd hm List.not_mem_nil)
        List.nodup_nil hgone
      rw [List.append_nil] at hinv
      exact hinv
    -- At once: the memory is released with the destruction.
    | false =>
      have hrel : ∀ m' ∈ (layout d).release m, m' ∉ s.released ∧ ∃ d, s.owner m' = some (n, d) := by
        rw [Layout.release_eq]
        exact List.forall_mem_singleton.mpr ⟨hkept, d, hown⟩
      have hinv := h.memoryStep (s.retired n) [m] ((layout d).release m) hu rfl rfl hn hdead hrel
        (by rw [Layout.release_eq]; exact List.nodup_singleton m) hgone
      rw [Function.update_eq_self] at hinv
      exact hinv
  · cases hstep

/-- A stop returns. -/
theorem Inv.stopReturnsStep (h : Inv s) {layout : DescriptorId → Layout}
    (hsound : SessionBounds.Inv s.sessions) (hgone : n ∉ s.gone) {u : SessionBounds.State}
    (hu : SessionBounds.Inv u) (hstep : SessionBounds.step s.sessions (.stopReturns n) = some u) :
    Inv ((effect layout s (.stopReturns n)).setSessions u) := by
  rw [SessionBounds.step] at hstep
  split at hstep
  · next deferDeallocation hsweep =>
    have hfits := hsound.fits n
    obtain ⟨hstopping, -⟩ := hfits.sweep _ hsweep
    have hn := (h.holds n).stopReturns (hfits.changed (hstopping ▸ (by rintro ⟨⟩)))
      deferDeallocation
    rw [effect, hsweep]
    rw [← Option.some.inj hstep] at hu ⊢
    cases deferDeallocation with
    -- A restart keeps its retired blocks.
    | true => exact h.moveStep hu rfl rfl hn hgone
    -- A stop releases every retired block of the scope, each once.
    | false =>
      have hinv := h.memoryStep [] [] (releaseRetiredBlocks (s.retired n)) hu rfl rfl
        (by rw [List.append_nil]; exact hn) (fun _ hm => absurd hm List.not_mem_nil) ?_ ?_ hgone
      · rw [List.append_nil] at hinv
        exact hinv
      · rw [releaseRetiredBlocks_eq]
        intro m hm
        obtain ⟨block, hblock, rfl⟩ := List.mem_map.mp hm
        obtain ⟨hown, -, hkept⟩ := (h.holds n).block block hblock
        exact ⟨hkept, block.descId, hown⟩
      · rw [releaseRetiredBlocks_eq]
        exact (h.holds n).memoryOnce
  · cases hstep

/-- In a scope that is not stopping, no stop is under way. -/
theorem sweep_eq_none (hsound : SessionBounds.Inv s.sessions)
    (hstate : (s.sessions.scope n).scopeState ≠ .stopping) :
    (s.sessions.activity n).sweep = none := by
  by_contra hsome
  obtain ⟨sweep, hsweep⟩ := Option.ne_none_iff_exists'.mp hsome
  exact hstate ((hsound.fits n).sweep sweep hsweep).1

/-- Every step of the sessions keeps the invariant. -/
theorem Inv.sessionsStep (h : Inv s) {layout : DescriptorId → Layout} {a : SessionBounds.Action}
    (hstarted : s.sessions.context.core.started = true) (hscope : ∀ n ∈ scopeOf a, n ∉ s.gone)
    (hfresh : ∀ m ∈ instanceOf a, s.Fresh m) (hgoes : SessionBounds.GoesOn s.sessions a)
    {u : SessionBounds.State} (hstep : SessionBounds.step s.sessions a = some u) :
    Inv ((effect layout s a).setSessions u) := by
  have hsound := h.sessions hstarted
  have hu : SessionBounds.Inv u := hsound.step hgoes hstep
  -- One case per action: what it does to the sessions, then to the memory.
  cases a with
  | root call =>
    obtain ⟨hroot, heq⟩ := Option.ite_none_right_eq_some.mp hstep
    obtain ⟨hgrows, hsame⟩ := Sessions.exec_root hsound.started hroot
    rw [← Option.some.inj heq] at hu ⊢
    exact h.grow hu (fun _ _ hslot => hgrows.slotOf hslot) hsame rfl
  | resolveScope key =>
    rw [← Option.some.inj hstep] at hu ⊢
    exact h.grow hu (fun _ _ hslot => hslot) (fun _ => .refl _) rfl
  | bindSession n type name priority object =>
    exact h.bindSession hsound (hfresh object rfl) (hscope n rfl) hu hstep
  | startScope n =>
    obtain ⟨hstopped, heq⟩ := Option.ite_none_right_eq_some.mp hstep
    rw [← Option.some.inj heq] at hu ⊢
    exact h.moveStep hu rfl rfl
      ((h.holds n).start (sweep_eq_none hsound (hstopped ▸ (by rintro ⟨⟩))) _) (hscope n rfl)
  | storeNext n =>
    rw [SessionBounds.step] at hstep
    split at hstep
    · next psb rest changed outer hstarts =>
      -- Nobody resized the vector meanwhile, or the run would not go on here.
      obtain rfl : changed = false := hgoes ⟨psb :: rest, changed⟩ (by rw [hstarts]; rfl)
      have hmem : ⟨psb :: rest, false⟩ ∈ (s.sessions.activity n).starts :=
        hstarts ▸ List.mem_cons_self
      obtain ⟨hstopped, -, hplaces⟩ := (hsound.fits n).starts _ hmem rfl
      obtain ⟨k, hk, -⟩ := hplaces psb List.mem_cons_self
      have hrest := (h.holds n).starts _ hmem rfl
      -- The pending bindings left to store are owned and alive.
      have hpsb := hrest List.mem_cons_self
      obtain ⟨hown, halive⟩ := (h.holds n).pending psb hpsb
      rw [effect, hstarts]
      rw [← Option.some.inj hstep] at hu ⊢
      refine h.storeStep hu hk rfl rfl hown halive (fun hs => ?_) (fun _ => ⟨psb, hpsb, rfl⟩)
        (List.forall_mem_cons.mpr ⟨fun _ => List.Subset.trans (List.subset_cons_self ..) hrest, ?_⟩)
        (sweep_eq_none hsound fun hs => ?_) (hscope n rfl)
      · exact absurd (hstopped.symm.trans hs) (by rintro ⟨⟩)
      · exact fun f hf => (h.holds n).starts f (hstarts ▸ List.mem_cons_of_mem _ hf)
      · exact absurd (hstopped.symm.trans hs) (by rintro ⟨⟩)
    · cases hstep
  | startReturns n =>
    rw [SessionBounds.step] at hstep
    split at hstep
    · next changed outer hstarts =>
      obtain rfl : changed = false := hgoes ⟨[], changed⟩ (by rw [hstarts]; rfl)
      have hmem : ⟨[], false⟩ ∈ (s.sessions.activity n).starts := hstarts ▸ List.mem_cons_self
      have hstopped := ((hsound.fits n).starts _ hmem rfl).1
      rw [← Option.some.inj hstep] at hu ⊢
      refine h.moveStep hu rfl rfl ((h.holds n).returns (sweep_eq_none hsound fun hs => ?_) outer)
        (hscope n rfl)
      exact absurd (hstopped.symm.trans hs) (by rintro ⟨⟩)
    · cases hstep
  | startThrows n =>
    rw [SessionBounds.step] at hstep
    split at hstep
    · next start outer hstarts =>
      rw [← Option.some.inj hstep] at hu ⊢
      refine h.activityStep hu rfl rfl ((h.holds n).activity (fun f hf => ?_)
        (h.holds n).destroying) (hscope n rfl)
      exact (h.holds n).starts f (hstarts ▸ List.mem_cons_of_mem _ hf)
    · cases hstep
  | stopScope n deferDeallocation =>
    obtain ⟨⟨hrunning, -⟩, heq⟩ := Option.ite_none_right_eq_some.mp hstep
    rw [← Option.some.inj heq] at hu ⊢
    exact h.moveStep hu rfl rfl ((h.holds n).stop hrunning _ _) (hscope n rfl)
  | destroyNext n =>
    rw [SessionBounds.step] at hstep
    split at hstep
    · next d order deferDeallocation hsweep =>
      rw [← Option.some.inj hstep] at hu ⊢
      refine h.activityStep hu rfl rfl ((h.holds n).activity (h.holds n).starts
        fun sweep d' m hs hd => ?_) (hscope n rfl)
      -- The instance read is the one found in the store.
      obtain rfl := Option.some.inj hs
      obtain ⟨m', hfind, heq⟩ := Option.map_eq_some_iff.mp hd
      obtain ⟨rfl, rfl⟩ := Prod.mk.inj heq
      exact hfind
    · cases hstep
  | destroyed n => exact h.destroyedStep hsound (hscope n rfl) hu hstep
  | stopReturns n => exact h.stopReturnsStep hsound (hscope n rfl) hu hstep
  | materialize n d =>
    obtain ⟨-, heq⟩ := Option.ite_none_right_eq_some.mp hstep
    rw [← Option.some.inj heq] at hu ⊢
    exact h.activityStep hu rfl rfl
      ((h.holds n).activity (h.holds n).starts (h.holds n).destroying) (hscope n rfl)
  | constructed n p m =>
    obtain ⟨hp, heq⟩ := Option.ite_none_right_eq_some.mp hstep
    obtain ⟨hrunning, hslot, -⟩ := (hsound.fits n).materializing p hp
    obtain ⟨k, hk⟩ := Option.ne_none_iff_exists'.mp hslot
    -- The constructor's result is owned from here on and stored at once.
    have hown := h.own (hfresh m rfl) n p
    have halive : m ∉ s.destroyed := fun hm => h.owned m hm (hfresh m rfl).2.1
    rw [← Option.some.inj heq] at hu ⊢
    refine hown.storeStep hu hk rfl rfl (Function.update_self ..) halive (fun hs => ?_)
      (fun hs => ?_) (h.holds n).starts (sweep_eq_none hsound fun hs => ?_) (hscope n rfl)
    · exact absurd (hrunning.symm.trans hs) (by rintro ⟨⟩)
    · exact absurd (hrunning.symm.trans hs) (by rintro ⟨⟩)
    · exact absurd (hrunning.symm.trans hs) (by rintro ⟨⟩)
  | constructorThrows n p =>
    obtain ⟨-, heq⟩ := Option.ite_none_right_eq_some.mp hstep
    rw [← Option.some.inj heq] at hu ⊢
    exact h.activityStep hu rfl rfl
      ((h.holds n).activity (h.holds n).starts (h.holds n).destroying) (hscope n rfl)

/-- A scope is destroyed. -/
theorem Inv.destroyScope (h : Inv s) (layout : DescriptorId → Layout) (n : ScopeId) :
    Inv (s.destroyScope layout n) := by
  -- The pending bindings' memory and the retired blocks; the rest was released before.
  have hholds := h.holds n
  have hpending : ((s.sessions.scope n).pendingRuntimeSessions.flatMap fun psb =>
      (layout psb.descId).release psb.boundInstance) =
        (s.sessions.scope n).pendingRuntimeSessions.map PendingRuntimeSession.boundInstance := by
    simp [List.map_eq_flatMap]
  have hreleased : (s.destroyScope layout n).released = s.released ++
      (s.sessions.scope n).pendingRuntimeSessions.map PendingRuntimeSession.boundInstance ++
        (s.retired n).map RetiredBlock.memory := by
    rw [State.destroyScope, hpending, releaseRetiredBlocks_eq]
  -- A pending object is alive, a retired one destroyed: the two kinds are apart.
  have howned : ∀ m ∈ (s.sessions.scope n).pendingRuntimeSessions.map
      PendingRuntimeSession.boundInstance, m ∉ s.destroyed ∧ ∃ d, s.owner m = some (n, d) := by
    intro m hm
    obtain ⟨psb, hpsb, rfl⟩ := List.mem_map.mp hm
    obtain ⟨hown, halive⟩ := hholds.pending psb hpsb
    exact ⟨halive, psb.descId, hown⟩
  have hblocks : ∀ m ∈ (s.retired n).map RetiredBlock.memory,
      m ∈ s.destroyed ∧ m ∉ s.released ∧ ∃ d, s.owner m = some (n, d) := by
    intro m hm
    obtain ⟨block, hblock, rfl⟩ := List.mem_map.mp hm
    obtain ⟨hown, hdestroyed, hkept⟩ := hholds.block block hblock
    exact ⟨hdestroyed, hkept, block.descId, hown⟩
  have hself : ∀ n' ≠ n, SameSession (s.sessions.context.scopes n')
      ((s.sessions.context.setScope n {}).scopes n') := by
    intro n' hn'
    rw [Sessions.scopes_setScope_of_ne _ hn']
    exact .refl _
  -- The scope starts over as a fresh one, its blocks gone.
  refine h.local n (fun hstarted => ?_) (h.numbered.setScope_of_eq n (.inr rfl))
    (fun _ _ hslot => hslot) hself (fun n' hn' => Function.update_of_ne hn' _ _)
    (fun n' hn' => Function.update_of_ne hn' _ _) ?_ rfl rfl (fun m hm => ?_)
    (List.subset_append_left _ _) (fun m hm => ?_) (fun m hm => ?_) ?_
    (fun n' hn' => (List.mem_cons.mp hn').symm) fun _ => Function.update_self ..
  · refine (h.sessions hstarted).move (ScopedContext.slotted_fresh _ _) (.inr rfl) ?_
    exact ⟨fun f hf => absurd hf List.not_mem_nil, fun hs => absurd rfl hs, nofun,
      fun p hp => absurd hp List.not_mem_nil⟩
  · change Holds _ _ _ _ n ((s.sessions.context.setScope n {}).scopes n)
      (update s.sessions.activity n {} n) (update s.retired n [] n)
    rw [Sessions.scopes_setScope_self, Function.update_self, Function.update_self]
    exact hholds.destroyScope layout
  · exact (List.mem_append.mp hm).imp_right fun hm => (howned m hm).2
  · rw [hreleased] at hm
    rcases List.mem_append.mp hm with hm | hm
    · exact (List.mem_append.mp hm).imp_right fun hm => (howned m hm).2
    · exact .inr (hblocks m hm).2.2
  · rw [hreleased]
    exact List.mem_append_left _ (List.mem_append_left _ hm)
  · rw [hreleased]
    refine List.nodup_append.mpr ⟨List.nodup_append.mpr ⟨h.releasedOnce, ?_, ?_⟩,
      hholds.memoryOnce, ?_⟩
    -- Two bindings of one address would be of one descriptor, and pending ones are distinct.
    · refine (List.Nodup.of_map _ (h.numbered.nodup n)).map_on fun psb hpsb psb' hpsb' heq => ?_
      have hown := (hholds.pending psb hpsb).1
      rw [heq, (hholds.pending psb' hpsb').1] at hown
      exact List.inj_on_of_nodup_map (h.numbered.nodup n) hpsb hpsb'
        (Prod.mk.inj (Option.some.inj hown)).2.symm
    -- Released before means destroyed before, and a pending object is alive.
    · rintro m hm _ hmem rfl
      obtain ⟨halive, d, hd⟩ := howned m hmem
      exact halive (hholds.destroyedFirst m hm d hd)
    · rintro m hm _ hmem rfl
      obtain ⟨hdestroyed, hkept, -⟩ := hblocks m hmem
      rcases List.mem_append.mp hm with hm | hm
      · exact hkept hm
      · exact (howned m hm).1 hdestroyed

end Inv

/-! ## Runs -/

/-- The allocator gives out no memory that overlaps memory which has not been released. -/
def Allocates (s : State) : Action → Prop
  | .allocate _ b => ∀ x ∈ s.allocated, x.1 ∉ s.released → b.Apart x.2
  | _ => True

/-- A start goes on only if the vector of pending bindings has not been changed since it began,
    and no scope is stopped while one of its beans is being constructed. -/
def GoesOn (s : State) : Action → Prop
  | .sessions (.stopScope n _) => (s.sessions.activity n).materializing = []
  | .sessions a => SessionBounds.GoesOn s.sessions a
  | _ => True

def Guard (s : State) (a : Action) : Prop := Allocates s a ∧ GoesOn s a

instance (s : State) (a : Action) : Decidable (Allocates s a) := by
  unfold Allocates
  split <;> infer_instance

instance (s : State) (a : Action) : Decidable (GoesOn s a) := by
  unfold GoesOn
  split <;> infer_instance

instance (s : State) (a : Action) : Decidable (Guard s a) := by
  unfold Guard
  infer_instance

/-- A step that goes on properly is one of `SessionBounds`. -/
theorem GoesOn.step_eq {s : State} {a : SessionBounds.Action} (h : GoesOn s (.sessions a)) :
    SessionBounds.GoesOn s.sessions a ∧
      sessionsStep s.sessions a = SessionBounds.step s.sessions a := by
  cases a with
  | stopScope n deferDeallocation =>
    refine ⟨trivial, ?_⟩
    have hmaterializing : (s.sessions.activity n).materializing = [] := h
    rw [sessionsStep, SessionBounds.step]
    simp only [hmaterializing, and_true]
  | _ => exact ⟨h, rfl⟩

/-- The runs begin when a first start of the root has succeeded, or with a root that is not
    started, whose scopes can only be destroyed. Instances that have been bound before are pending,
    each with memory of its own. -/
structure Init (s : State) : Prop where
  root : ∃ H S self calls, BeanContext.DiscoversTypes H calls ∧
    ((BeanContext.fresh S self).execAll calls).core.started = false ∧
    (s.sessions = { context := (BeanContext.fresh S self).execAll calls } ∨
      ((BeanContext.fresh S self).execAll calls).start.failure = none ∧
        s.sessions = { context := ((BeanContext.fresh S self).execAll calls).start.state })
  pending : ∀ n, ∀ psb ∈ (s.sessions.scope n).pendingRuntimeSessions,
    s.owner psb.boundInstance = some (n, psb.descId)
  allocated : ∀ m x, s.owner m = some x → s.block m ≠ none
  apart : ∀ m m' b b', s.block m = some b → s.block m' = some b' → m ≠ m' → b.Apart b'
  fresh : s.retired = (fun _ => []) ∧ s.destroyed = [] ∧ s.released = [] ∧ s.gone = []

def machine (layout : DescriptorId → Layout) : Machine State Action where
  Init := Init
  step := step layout

section Runs

variable {layout : DescriptorId → Layout} {s t : State} {n : ScopeId}

theorem Inv.init (h : Init s) : Inv s := by
  obtain ⟨hretired, hdestroyed, hreleased, hgone⟩ := h.fresh
  obtain ⟨H, S, self, calls, hcalls, hnot, hroot⟩ := h.root
  have hreach : ((BeanContext.fresh S self).execAll calls).Reachable := ⟨S, self, calls, rfl⟩
  -- Before the first start everything is as the calls left it; after it, `SessionBounds.Inv`.
  have hfacts : (s.sessions.context.core.started = true → SessionBounds.Inv s.sessions) ∧
      s.sessions.context.Numbered ∧ s.sessions.activity = (fun _ => {}) ∧
      s.sessions.context.scopes = ((BeanContext.fresh S self).execAll calls).scopes := by
    rcases hroot with heq | ⟨hok, heq⟩
    · rw [heq]
      refine ⟨fun hstarted => ?_, hreach.numbered, rfl, rfl⟩
      rw [hnot] at hstarted
      cases hstarted
    · have hinit : SessionBounds.Inv s.sessions := .init ⟨H, S, self, calls, hcalls, hnot, hok, heq⟩
      exact ⟨fun _ => hinit, hinit.numbered, heq ▸ rfl, heq ▸ rfl⟩
  obtain ⟨hsessions, hnumbered, hactivity, hscopes⟩ := hfacts
  refine ⟨hsessions, hnumbered, fun n => ?_, h.allocated, ?_, ?_, ?_,
    fun m m' b b' hb hb' hne _ _ => h.apart m m' b b' hb hb' hne⟩
  · obtain ⟨hstopped, hempty⟩ := hreach.slotted.idle hnot n
    have hnone := nothingRetired_execAll S self calls hnot n
    have hinstances : ∀ slot m, (s.sessions.context.scopes n).sessionStore.instances slot ≠
        some m := by
      intro slot m hm
      rw [hscopes, hempty slot] at hm
      cases hm
    have hstate : (s.sessions.context.scopes n).scopeState = .stopped := hscopes ▸ hstopped
    -- Every scope is stopped and empty, with pending bindings only.
    rw [hdestroyed, hreleased, hretired, hactivity]
    refine ⟨fun psb hpsb => ⟨h.pending n psb hpsb, List.not_mem_nil⟩,
      fun slot m hm => absurd hm (hinstances slot m),
      fun _ slot m hm => absurd hm (hinstances slot m), fun hs => ?_, fun hs => ?_,
      fun f hf => absurd hf List.not_mem_nil, nofun, fun block hb => absurd hb List.not_mem_nil,
      fun block hb => absurd hb List.not_mem_nil, List.nodup_nil, ?_,
      fun m hm => absurd hm List.not_mem_nil, fun m hm => absurd hm List.not_mem_nil⟩
    · exact absurd (hstate.symm.trans hs) nofun
    · exact absurd (hstate.symm.trans hs) nofun
    · rw [hscopes, hnone]
      exact List.Perm.refl _
  · rw [hdestroyed]
    exact fun m hm => absurd hm List.not_mem_nil
  · rw [hreleased]
    exact List.nodup_nil
  · rw [hgone]
    exact fun n hn => absurd hn List.not_mem_nil

/-- Every guarded step keeps the invariant. -/
theorem Inv.step (h : Inv s) {a : Action} (hguard : Guard s a) (hstep : step layout s a = some t) :
    Inv t := by
  cases a with
  | allocate m b =>
    obtain ⟨-, heq⟩ := Option.ite_none_right_eq_some.mp hstep
    exact Option.some.inj heq ▸ h.allocate hguard.1
  | free m =>
    obtain ⟨hfresh, heq⟩ := Option.ite_none_right_eq_some.mp hstep
    exact Option.some.inj heq ▸ h.free hfresh
  | sessions a =>
    obtain ⟨⟨hstarted, hscope, hfresh⟩, heq⟩ := Option.ite_none_right_eq_some.mp hstep
    obtain ⟨u, hu, rfl⟩ := Option.map_eq_some_iff.mp heq
    obtain ⟨hgoes, hsame⟩ := hguard.2.step_eq
    exact h.sessionsStep hstarted hscope hfresh hgoes (hsame ▸ hu)
  | destroyScope n =>
    obtain ⟨-, heq⟩ := Option.ite_none_right_eq_some.mp hstep
    exact Option.some.inj heq ▸ h.destroyScope layout n

theorem Inv.reachable (h : (machine layout).ReachableBy Guard s) : Inv s :=
  h.invariant (fun _ => .init) fun _ _ _ hs hguard hstep => hs.step hguard hstep

/-! ## Retired blocks -/

/-- The scope that has been stopped, without a restart. -/
def stoppedBy (s : SessionBounds.State) : SessionBounds.Action → Option ScopeId
  | .stopReturns n =>
    match (s.activity n).sweep with
    | some ⟨_, _, false⟩ => some n
    | _ => none
  | _ => none

/-- The step stores a new instance of the descriptor in the scope, or the scope has been stopped,
    or is destroyed. -/
def Replaces (s : State) (n : ScopeId) (d : DescriptorId) : Action → Prop
  | .sessions a =>
    (∃ m, storedBy s.sessions a = some (n, ⟨d, m⟩)) ∨ stoppedBy s.sessions a = some n
  | .destroyScope n' => n' = n
  | _ => False

instance (s : State) (n : ScopeId) (d : DescriptorId) : DecidablePred (Replaces s n d)
  | .sessions a =>
    have : Decidable (∃ m, storedBy s.sessions a = some (n, ⟨d, m⟩)) :=
      decidable_of_iff (∃ x ∈ storedBy s.sessions a, x.1 = n ∧ x.2.descId = d) <| by
        constructor
        · rintro ⟨⟨n', d', m⟩, hx, rfl, rfl⟩
          exact ⟨m, hx⟩
        · rintro ⟨m, hx⟩
          exact ⟨_, hx, rfl, rfl⟩
    inferInstanceAs (Decidable (_ ∨ _))
  | .destroyScope n' => inferInstanceAs (Decidable (n' = n))
  | .allocate _ _ | .free _ => .isFalse id

theorem mem_releaseRetired {block : RetiredBlock} (hblock : block ∈ s.retired n) {n' : ScopeId}
    {d : DescriptorId} (hne : n' = n → d ≠ block.descId) :
    block ∈ (s.releaseRetired n' d).retired n := by
  change block ∈ update s.retired n' _ n
  by_cases heq : n = n'
  · subst heq
    rw [Function.update_self]
    exact mem_releaseRetired_fst.mpr ⟨hblock, (hne rfl).symm⟩
  · rwa [Function.update_of_ne heq]

/-- A block stays retired while it is not replaced. -/
theorem mem_retired_effect {block : RetiredBlock} (hblock : block ∈ s.retired n)
    {a : SessionBounds.Action} (hkeeps : ¬Replaces s n block.descId (.sessions a)) :
    block ∈ (effect layout s a).retired n := by
  obtain ⟨hstores, hstops⟩ := not_or.mp hkeeps
  cases a with
  | bindSession n' type name priority object =>
    rw [effect]
    cases hbinding : bindingOf s.sessions n' type name priority object with
    | none => exact hblock
    -- A binding takes ownership first; only a placement in a running scope releases a block.
    | some psb =>
      dsimp only
      split_ifs with hrunning
      · refine mem_releaseRetired (s := s.own n' psb.descId object) hblock fun hn hd => hstores ?_
        refine ⟨psb.boundInstance, ?_⟩
        rw [storedBy, if_pos hrunning, hbinding, Option.map_some, hn, ← hd]
      · exact hblock
  | storeNext n' =>
    rw [effect]
    split
    · next psb rest changed outer hstarts =>
      refine mem_releaseRetired hblock fun hn hd => hstores ⟨psb.boundInstance, ?_⟩
      rw [storedBy, hstarts, hn, ← hd]
    · exact hblock
  -- A destruction adds a block or releases the memory itself, never an earlier block.
  | destroyed n' =>
    rw [effect]
    split
    · next d m deferDeallocation _ =>
      unfold State.destroyInstance
      split_ifs
      · change block ∈ update s.retired n' _ n
        by_cases heq : n = n'
        · subst heq
          rw [Function.update_self]
          exact List.mem_append_left _ hblock
        · rwa [Function.update_of_ne heq]
      · exact hblock
    · exact hblock
  -- Only the scope that stops for good empties its list.
  | stopReturns n' =>
    rw [effect]
    split
    · next order destroying hsweep =>
      have hne : n ≠ n' := by
        rintro rfl
        exact hstops (by rw [stoppedBy, hsweep])
      change block ∈ update s.retired n' [] n
      rwa [Function.update_of_ne hne]
    · exact hblock
  | constructed n' p m =>
    rw [effect]
    refine mem_releaseRetired (s := s.own n' p m) hblock fun hn hd => hstores ⟨m, ?_⟩
    rw [storedBy, hn, ← hd]
  -- The remaining actions touch no block.
  | root call => exact hblock
  | resolveScope key => exact hblock
  | startScope n' => exact hblock
  | startReturns n' => exact hblock
  | startThrows n' => exact hblock
  | stopScope n' deferDeallocation => exact hblock
  | destroyNext n' => exact hblock
  | materialize n' d => exact hblock
  | constructorThrows n' p => exact hblock

theorem mem_retired_step {block : RetiredBlock} (hblock : block ∈ s.retired n) {a : Action}
    (hkeeps : ¬Replaces s n block.descId a) (hstep : step layout s a = some t) :
    block ∈ t.retired n := by
  cases a with
  | allocate m b =>
    obtain ⟨-, heq⟩ := Option.ite_none_right_eq_some.mp hstep
    exact Option.some.inj heq ▸ hblock
  | free m =>
    obtain ⟨-, heq⟩ := Option.ite_none_right_eq_some.mp hstep
    exact Option.some.inj heq ▸ hblock
  | sessions a =>
    obtain ⟨-, heq⟩ := Option.ite_none_right_eq_some.mp hstep
    obtain ⟨u, -, rfl⟩ := Option.map_eq_some_iff.mp heq
    exact mem_retired_effect hblock hkeeps
  | destroyScope n' =>
    obtain ⟨-, heq⟩ := Option.ite_none_right_eq_some.mp hstep
    rw [← Option.some.inj heq]
    change block ∈ update s.retired n' [] n
    rwa [Function.update_of_ne fun hn => hkeeps hn.symm]

/-- A run that goes on properly, and does not replace the block of a descriptor. -/
def Keeps (n : ScopeId) (d : DescriptorId) (s : State) (a : Action) : Prop :=
  Guard s a ∧ ¬Replaces s n d a

instance (s : State) (n : ScopeId) (d : DescriptorId) (a : Action) :
    Decidable (Keeps n d s a) := by
  unfold Keeps
  infer_instance

theorem Inv.keeps (h : Inv s) {block : RetiredBlock} (hblock : block ∈ s.retired n)
    {as : List Action} (halong : (machine layout).Along (Keeps n block.descId) s as)
    (hrun : (machine layout).run s as = some t) : Inv t ∧ block ∈ t.retired n := by
  induction as generalizing s with
  | nil => exact Option.some.inj hrun ▸ ⟨h, hblock⟩
  | cons a as ih =>
    obtain ⟨s₁, hs, hrun⟩ := Option.bind_eq_some_iff.mp hrun
    obtain ⟨hguard, hkeeps⟩ := halong.1
    exact ih (h.step hguard hs) (mem_retired_step hblock hkeeps hs) (halong.tail hs) hrun

/-! ## Addresses -/

/-- The memory of a stored instance has been given out, and not released. -/
theorem Inv.of_storedBy (h : Inv s) {a : SessionBounds.Action} {m : Addr} {d : DescriptorId}
    (hguard : Guard s (.sessions a)) (hstep : SessionMemory.step layout s (.sessions a) = some t)
    (hstored : storedBy s.sessions a = some (n, ⟨d, m⟩)) :
    s.block m ≠ none ∧ m ∉ s.destroyed ∧ m ∉ s.released := by
  obtain ⟨⟨hstarted, -, hfresh⟩, hu⟩ := Option.ite_none_right_eq_some.mp hstep
  -- A fresh address is allocated and was neither destroyed nor released.
  have hnew : ∀ m, s.Fresh m → s.block m ≠ none ∧ m ∉ s.destroyed ∧ m ∉ s.released :=
    fun m hm => ⟨hm.1, fun hd => h.owned m hd hm.2.1, hm.2.2⟩
  cases a with
  | bindSession n' type name priority object =>
    rw [storedBy] at hstored
    split_ifs at hstored
    obtain ⟨psb, hbinding, heq⟩ := Option.map_eq_some_iff.mp hstored
    -- The binding reported is of the object that was passed.
    have hobject : psb.boundInstance = object := by
      unfold bindingOf at hbinding
      split at hbinding
      · exact congrArg PendingRuntimeSession.boundInstance (Option.some.inj hbinding).symm
      · cases hbinding
    have hm : psb.boundInstance = m :=
      congrArg PendingRuntimeSession.boundInstance (Prod.mk.inj heq).2
    exact hm ▸ hobject ▸ hnew object (hfresh object rfl)
  | storeNext n' =>
    rw [storedBy] at hstored
    split at hstored
    · next psb rest changed outer hstarts =>
      -- Nobody resized the vector meanwhile, or the run would not go on here.
      obtain rfl : changed = false := hguard.2 ⟨psb :: rest, changed⟩ (by rw [hstarts]; rfl)
      have hmem : ⟨psb :: rest, false⟩ ∈ (s.sessions.activity n').starts :=
        hstarts ▸ List.mem_cons_self
      have hpsb := (h.holds n').starts _ hmem rfl List.mem_cons_self
      obtain ⟨hown, halive⟩ := (h.holds n').pending psb hpsb
      have hm : psb.boundInstance = m :=
        congrArg PendingRuntimeSession.boundInstance (Prod.mk.inj (Option.some.inj hstored)).2
      -- Released memory would have been destroyed before, and a pending object is alive.
      rw [← hm]
      exact ⟨h.allocated _ _ hown, halive,
        fun hr => halive ((h.holds n').destroyedFirst _ hr _ hown)⟩
    · cases hstored
  | constructed n' p m' =>
    have hm : m' = m :=
      congrArg PendingRuntimeSession.boundInstance (Prod.mk.inj (Option.some.inj hstored)).2
    exact hm ▸ hnew m' (hfresh m' rfl)
  | _ => cases hstored

/-- The instances have memory at different addresses. -/
def Apart (s : State) (m m' : Addr) : Prop :=
  ∃ b b', s.block m = some b ∧ s.block m' = some b' ∧ b.Apart b' ∧ b.start ≠ b'.start

/-- Memory that is still retired when an instance is stored is not that of the instance. -/
theorem Inv.apart_of_storedBy (h : Inv s) {a : SessionBounds.Action} {m : Addr} {d : DescriptorId}
    (hguard : Guard s (.sessions a)) (hstep : SessionMemory.step layout s (.sessions a) = some t)
    (hstored : storedBy s.sessions a = some (n, ⟨d, m⟩)) {block : RetiredBlock}
    (hblock : block ∈ s.retired n) : Apart s block.memory m := by
  obtain ⟨hallocated, halive, hunreleased⟩ := h.of_storedBy hguard hstep hstored
  obtain ⟨hown, hdestroyed, hkept⟩ := (h.holds n).block block hblock
  obtain ⟨b, hb⟩ := Option.ne_none_iff_exists'.mp (h.allocated _ _ hown)
  obtain ⟨b', hb'⟩ := Option.ne_none_iff_exists'.mp hallocated
  have hne : block.memory ≠ m := fun heq => halive (heq ▸ hdestroyed)
  have hapart := h.apart _ _ b b' hb hb' hne hkept hunreleased
  exact ⟨b, b', hb, hb', hapart, hapart.start_ne⟩

/-! ## Soundness -/

/-- The memory of the instances that have been destroyed is released exactly once. -/
structure ReleasedOnce (s : State) : Prop where
  once : s.released.Nodup
  /-- Memory that a scope has taken over is released after its instance has been destroyed. -/
  afterwards : ∀ m ∈ s.released, s.owner m ≠ none → m ∈ s.destroyed
  /-- It is either released or retired, in its scope and for its descriptor. -/
  destroyed : ∀ m ∈ s.destroyed, ∃ n d, s.owner m = some (n, d) ∧
    (m ∉ s.released ↔ ∃ block ∈ s.retired n, block.descId = d ∧ block.memory = m)
  /-- If its scope has been destroyed, it is released. -/
  gone : ∀ m ∈ s.destroyed, ∀ n d, s.owner m = some (n, d) → n ∈ s.gone → m ∈ s.released

theorem Inv.releasedExactlyOnce (h : Inv s) : ReleasedOnce s := by
  have hretired : ∀ n d, ∀ m ∈ s.destroyed, s.owner m = some (n, d) → m ∉ s.released →
      ∃ block ∈ s.retired n, block.descId = d ∧ block.memory = m := by
    intro n d m hm hown hkept
    obtain ⟨block, hblock, rfl⟩ := ((h.holds n).kept m hm d hown).resolve_left hkept
    have hown' := ((h.holds n).block block hblock).1
    rw [hown] at hown'
    exact ⟨block, hblock, (Prod.mk.inj (Option.some.inj hown')).2.symm, rfl⟩
  refine ⟨h.releasedOnce, fun m hm howned => ?_, fun m hm => ?_, fun m hm n d hown hgone => ?_⟩
  · obtain ⟨⟨n, d⟩, hown⟩ := Option.ne_none_iff_exists'.mp howned
    exact (h.holds n).destroyedFirst m hm d hown
  · obtain ⟨⟨n, d⟩, hown⟩ := Option.ne_none_iff_exists'.mp (h.owned m hm)
    refine ⟨n, d, hown, hretired n d m hm hown, ?_⟩
    rintro ⟨block, hblock, -, rfl⟩
    exact ((h.holds n).block block hblock).2.2
  · by_contra hkept
    obtain ⟨block, hblock, -⟩ := hretired n d m hm hown hkept
    rw [h.gone n hgone] at hblock
    exact List.not_mem_nil hblock

end Runs

/-- Whatever starts, stops, restarts, materializations, bindings and destructions of scopes there
    have been, with an allocator that gives out no memory that overlaps memory in use:

    * the memory of a destroyed instance is released once, and retired until then;
    * a scope has at most one retired block for a descriptor;
    * a retired block stays until a new instance of its descriptor has been stored in the scope, or
      the scope has been stopped or destroyed;
    * the next instance of the descriptor of an instance that a restart has destroyed has another
      address. -/
theorem retired_memory {layout : DescriptorId → Layout} {s : State}
    (h : (machine layout).ReachableBy Guard s) :
    ReleasedOnce s ∧
    (∀ n, ((s.retired n).map RetiredBlock.descId).Nodup) ∧
    (∀ n, ∀ block ∈ s.retired n, ∀ as t, (machine layout).run s as = some t →
      (machine layout).Along (Keeps n block.descId) s as →
        block ∈ t.retired n ∧ block.memory ∉ t.released) ∧
    ∀ n order d m, (s.sessions.activity n).sweep = some ⟨order, some (d, m), true⟩ →
      ∀ as t, (machine layout).run s (.sessions (.destroyed n) :: as) = some t →
        (machine layout).Along (Keeps n d) s (.sessions (.destroyed n) :: as) →
          ∀ a m', Guard t (.sessions a) → (step layout t (.sessions a)).isSome →
            storedBy t.sessions a = some (n, ⟨d, m'⟩) → Apart t m m' := by
  have hinv := Inv.reachable h
  refine ⟨hinv.releasedExactlyOnce, fun n => (hinv.holds n).once,
    fun n block hblock as t hrun hkeeps => ?_,
    fun n order d m hsweep as t hrun hkeeps a m' hguard hstep hstored => ?_⟩
  · obtain ⟨hinv, hmem⟩ := hinv.keeps hblock hkeeps hrun
    exact ⟨hmem, ((hinv.holds n).block block hmem).2.2⟩
  · obtain ⟨s₁, hs, hrun⟩ := Option.bind_eq_some_iff.mp hrun
    obtain ⟨t', ht⟩ := Option.isSome_iff_exists.mp hstep
    -- The restart has retired the memory of the instance, and it still is.
    have hretired : ⟨layout d, d, m⟩ ∈ s₁.retired n := by
      obtain ⟨-, heq⟩ := Option.ite_none_right_eq_some.mp hs
      obtain ⟨u, -, rfl⟩ := Option.map_eq_some_iff.mp heq
      rw [effect, hsweep]
      change _ ∈ update s.retired n _ n
      rw [Function.update_self]
      exact List.mem_append_right _ List.mem_cons_self
    obtain ⟨hinv, hmem⟩ := (hinv.step hkeeps.1.1 hs).keeps hretired (hkeeps.tail hs) hrun
    exact hinv.apart_of_storedBy hguard ht hstored hmem

/-- A cart has the size of its type, and bound instances have been allocated by user code. -/
def cartLayout (d : DescriptorId) : Layout :=
  if d = 0 then ⟨false, 8, 8, .inr (by decide)⟩ else ⟨true, 8, 8, .inl rfl⟩

def cartMemory : State := { sessions := SessionBounds.cartState }

theorem cartMemory_init : Init cartMemory := by
  obtain ⟨H, S, self, calls, hcalls, hnot, hok, heq⟩ := SessionBounds.cartState_init
  have hpending : ∀ n, (cartMemory.sessions.scope n).pendingRuntimeSessions = [] := fun _ => rfl
  refine ⟨⟨H, S, self, calls, hcalls, hnot, .inr ⟨hok, heq⟩⟩, fun n psb hpsb => ?_, nofun, nofun,
    rfl, rfl, rfl, rfl⟩
  exact absurd (hpending n ▸ hpsb) List.not_mem_nil

/-- A scope that has a cart and a token is restarted, which destroys the cart first. -/
def cartRestart : List Action :=
  [.allocate 100 ⟨0x100, 8, by decide⟩, .sessions (.resolveScope "user"),
    .sessions (.bindSession 1 ⟨"app::Token", 3⟩ "" 0 100), .sessions (.startScope 1),
    .sessions (.storeNext 1), .sessions (.startReturns 1), .sessions (.materialize 1 0),
    .allocate 101 ⟨0x110, 8, by decide⟩, .sessions (.constructed 1 0 101),
    .sessions (.stopScope 1 true), .sessions (.destroyNext 1)]

/-- The token is destroyed too, and the scope is started again. Another cart is allocated. -/
def cartReplacement : List Action :=
  [.sessions (.destroyed 1), .sessions (.destroyNext 1), .sessions (.destroyed 1),
    .sessions (.stopReturns 1), .sessions (.startScope 1), .sessions (.startReturns 1),
    .sessions (.materialize 1 0), .allocate 102 ⟨0x120, 8, by decide⟩]

theorem retired_memory_cart : ∃ s t, (machine cartLayout).run cartMemory cartRestart = some s ∧
    (machine cartLayout).run s cartReplacement = some t ∧ ReleasedOnce t ∧ Apart t 101 102 := by
  obtain ⟨s, hs⟩ := Option.isSome_iff_exists.mp
    (by decide : ((machine cartLayout).run cartMemory cartRestart).isSome)
  have hview : ((machine cartLayout).run cartMemory cartRestart).map (fun s =>
      ((s.sessions.activity 1).sweep,
        decide ((machine cartLayout).Along (Keeps 1 0) s cartReplacement),
        ((machine cartLayout).run s cartReplacement).map fun t =>
          (step cartLayout t (.sessions (.constructed 1 0 102))).isSome)) =
      some (some ⟨[2], some (0, 101), true⟩, true, some true) := by decide
  rw [hs] at hview
  obtain ⟨hsweep, hview⟩ := Prod.mk.inj (Option.some.inj hview)
  obtain ⟨hkeeps, hview⟩ := Prod.mk.inj hview
  obtain ⟨t, ht, hstep⟩ := Option.map_eq_some_iff.mp hview
  have hreach : (machine cartLayout).ReachableBy Guard s :=
    .run (.init cartMemory_init)
      (by decide : (machine cartLayout).Along Guard cartMemory cartRestart) hs
  have hguard : (machine cartLayout).Along Guard s cartReplacement :=
    (of_decide_eq_true hkeeps).mono fun _ _ h => h.1
  refine ⟨s, t, hs, ht, (retired_memory (hreach.run hguard ht)).1, ?_⟩
  exact (retired_memory hreach).2.2.2 1 [2] 0 101 hsweep _ t ht (of_decide_eq_true hkeeps)
    (.constructed 1 0 102) 102 ⟨trivial, trivial⟩ hstep rfl

/-- A listener of the first one of two tokens that the start of a scope stores starts this scope,
    which stores both, and restarts it. Then the start that has called it goes on. -/
def restartedInStart : List Action :=
  [.allocate 100 ⟨0x100, 8, by decide⟩, .allocate 101 ⟨0x110, 8, by decide⟩,
    .sessions (.resolveScope "user"), .sessions (.bindSession 1 ⟨"app::Token", 3⟩ "" 0 100),
    .sessions (.bindSession 1 ⟨"app::Badge", 4⟩ "" 0 101), .sessions (.startScope 1),
    .sessions (.storeNext 1), .sessions (.startScope 1), .sessions (.storeNext 1),
    .sessions (.storeNext 1), .sessions (.startReturns 1), .sessions (.stopScope 1 true),
    .sessions (.destroyNext 1), .sessions (.destroyed 1), .sessions (.destroyNext 1),
    .sessions (.destroyed 1), .sessions (.destroyNext 1), .sessions (.stopReturns 1),
    .sessions (.startScope 1), .sessions (.startReturns 1), .sessions (.storeNext 1),
    .sessions (.startReturns 1), .sessions (.stopScope 1 false), .sessions (.destroyNext 1),
    .sessions (.destroyed 1), .sessions (.stopReturns 1)]

/-- The badge is stored although it has been destroyed, which releases its memory. The next stop
    destroys it again and releases its memory a second time. -/
theorem restarted_in_start_released_twice : ∃ s,
    (machine cartLayout).run cartMemory restartedInStart = some s ∧
      (machine cartLayout).ReachableBy Allocates s ∧ s.destroyed = [101, 100, 101] ∧
        s.released = [101, 101, 100] ∧ ¬ReleasedOnce s := by
  obtain ⟨s, hs⟩ := Option.isSome_iff_exists.mp
    (by decide : ((machine cartLayout).run cartMemory restartedInStart).isSome)
  have hview : ((machine cartLayout).run cartMemory restartedInStart).map (fun s =>
      (s.destroyed, s.released)) = some ([101, 100, 101], [101, 101, 100]) := by decide
  rw [hs] at hview
  obtain ⟨hdestroyed, hreleased⟩ := Prod.mk.inj (Option.some.inj hview)
  have hreach : (machine cartLayout).ReachableBy Allocates s :=
    .run (.init cartMemory_init)
      (by decide : (machine cartLayout).Along Allocates cartMemory restartedInStart) hs
  refine ⟨s, hs, hreach, hdestroyed, hreleased, fun honce => ?_⟩
  have hnodup := honce.once
  rw [hreleased] at hnodup
  exact absurd hnodup (by decide)

end Ctorium.SessionMemory
