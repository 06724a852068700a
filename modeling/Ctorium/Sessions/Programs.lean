import Ctorium.Sessions.Memory
import Ctorium.Sessions.Restart
import Ctorium.Sessions.Simulation

/-!
# User code and the steps of the calls

In `SessionBounds` the calls on scopes are sequences of steps, between which anything may happen.
In `Restart` a call runs the programs of the user until it returns, and these call again. Here the
second is connected with the first: a call is a run of its steps, with the runs of the calls that
user code makes in between.

* `Runs`: a computation of `Restart` is followed by a run of steps, which leaves what is under way
  in the scopes as it was.
* `exec_runs`: every call is, however deep user code calls again, if user code changes the root and
  its scopes by steps and calls only.
* `exec_leads`: so a call that is made when nothing is under way is a run of steps, after which
  nothing is under way.
* `act_runs`, `act_root_runs`: what user code changes of its own, and by calls on the root, is such
  a step.
-/

namespace Ctorium.Restart

open Function (update)
open Handles (AnyBean)
open Listeners (Event ViewEntry)
open Sessions (boundSession rootCall)
open SessionBounds (Activity)

/-! ## Frames -/

/-- The steps of the calls, also of a stop that is called while a bean of the scope is being
    constructed. -/
def steps : Machine SessionBounds.State SessionBounds.Action where
  Init := SessionBounds.machine.Init
  step := SessionMemory.sessionsStep

/-- What is under way in a scope. -/
structure Frame where
  /-- What the starts have not stored yet, the innermost first. -/
  starts : List (List PendingRuntimeSession)
  sweep : Option SessionBounds.Sweep
  materializing : List DescriptorId
  stopping : Bool

def frameOf (sc : ScopedContext) (act : Activity) : Frame where
  starts := act.starts.map SessionBounds.Start.rest
  sweep := act.sweep
  materializing := act.materializing
  stopping := sc.scopeState == .stopping

def frame (b : SessionBounds.State) (n : ScopeId) : Frame := frameOf (b.scope n) (b.activity n)

section Frame

variable {b : SessionBounds.State} {n : ScopeId} {sc : ScopedContext} {act : Activity}

theorem frame_move : frame (b.move n sc act) = update (frame b) n (frameOf sc act) := by
  funext k
  by_cases hk : k = n
  · subst hk
    rw [Function.update_self, frame]
    simp [SessionBounds.State.move, SessionBounds.State.scope, SessionBounds.State.setActivity,
      SessionBounds.State.setContext, BeanContext.setScope]
  · rw [Function.update_of_ne hk, frame, frame]
    simp [SessionBounds.State.move, SessionBounds.State.scope, SessionBounds.State.setActivity,
      SessionBounds.State.setContext, BeanContext.setScope, hk]

theorem frame_setActivity :
    frame (b.setActivity n act) = update (frame b) n (frameOf (b.scope n) act) := by
  rw [SessionBounds.setActivity_eq_at]
  exact frame_move

/-- The root moves on, and the scopes keep their states. -/
theorem frame_setContext {c : BeanContext}
    (h : ∀ k, (c.scopes k).scopeState = (b.context.scopes k).scopeState) :
    frame (b.setContext c) = frame b := by
  funext k
  change Frame.mk _ _ _ ((c.scopes k).scopeState == .stopping) = _
  rw [h k]
  rfl

/-- A change of the pending bindings leaves what is left of the vectors. -/
theorem frameOf_change : frameOf sc act.change = frameOf sc act := by
  simp only [frameOf, SessionBounds.Activity.change, List.map_map, Function.comp_def]

theorem frame_access_move (d : DescriptorId) :
    frame ((b.access n d).move n sc act) = update (frame b) n (frameOf sc act) := frame_move

end Frame

/-- A run of steps leads to a state with these frames. The session beans keep their slots. -/
structure Reaches (b : SessionBounds.State) (fr : ScopeId → Frame) (b' : SessionBounds.State) :
    Prop where
  leads : steps.Leads (fun _ _ => True) b b'
  frames : frame b' = fr
  started : b'.context.core.started = true
  slotOf : ∀ d slot, b.slotOf d = some slot → b'.slotOf d = some slot

/-- The root and its scopes are the same, with the claims for session beans; no stop is under way
    in a scope that is not stopping. -/
structure Follows {U : Type*} (w : World U) (b : SessionBounds.State) : Prop where
  context : b.context = w.context
  started : b.context.core.started = true
  claims : ∀ n p, p ∈ (frame b n).materializing ↔ (p, n) ∈ w.materializing
  sweep : ∀ n, (frame b n).stopping = false → (frame b n).sweep = none

/-- The computation goes on, if only with an exception. -/
def Returns : Option Stop → Prop
  | none | some (.exception _) => True
  | some .terminate | some .stackOverflow => False

/-- The computation is followed by a run of steps, and what is under way is the same after it. -/
structure Runs {U : Type*} (w : World U) (o : Outcome U) : Prop where
  follows : ∀ b, Follows w b → Returns o.failure → ∃ b', Reaches b (frame b) b' ∧
    Follows o.state b' ∧ o.state.materializing = w.materializing

/-- A run of steps leads from the one world to the other, after which this is under way in the
    scope. -/
def Leaves {U : Type*} (w : World U) (b : SessionBounds.State) (n : ScopeId) (fr : Frame)
    (w' : World U) : Prop :=
  ∃ b', Reaches b (update (frame b) n fr) b' ∧ Follows w' b' ∧ w'.materializing = w.materializing

/-- What is required of a call: a session bean is materialized under its primary, unless the scope
    is stopped. -/
def Proper {U : Type*} (w : World U) : Call → Prop
  | .materializeSession n p => (w.scope n).scopeState ≠ .stopped ∧
    Wiring.lifetimeOf w.context p = some .session ∧ Wiring.primaryOf w.context p = p
  | _ => True

/-! ## Rules -/

section Rules

variable {U : Type*} {w w' : World U} {o : Outcome U} {b b' : SessionBounds.State}

theorem Reaches.refl (hs : b.context.core.started = true) : Reaches b (frame b) b :=
  ⟨.refl b, rfl, hs, fun _ _ h => h⟩

theorem Reaches.trans {b₁ b₂ : SessionBounds.State} {fr fr' : ScopeId → Frame}
    (h : Reaches b fr b₁) (h' : Reaches b₁ fr' b₂) : Reaches b fr' b₂ :=
  ⟨h.leads.trans h'.leads, h'.frames, h'.started,
    fun d slot hd => h'.slotOf d slot (h.slotOf d slot hd)⟩

/-- One step, which leaves the descriptors. -/
theorem Reaches.single {a : SessionBounds.Action} {fr : ScopeId → Frame}
    (hs : b.context.core.started = true) (hstep : steps.step b a = some b')
    (hframe : frame b' = fr) (hcore : b'.context.core = b.context.core) : Reaches b fr b' := by
  refine ⟨.single trivial hstep, hframe, hcore ▸ hs, fun d slot hd => ?_⟩
  rw [SessionBounds.State.slotOf, hcore]
  exact hd

theorem Reaches.frame_at {n : ScopeId} {fr : Frame} (h : Reaches b (update (frame b) n fr) b') :
    frame b' n = fr := by
  rw [h.frames, Function.update_self]

theorem Follows.sweep_at {n : ScopeId} {fr : Frame} (h : Follows w b) (hframe : frame b n = fr) :
    fr.stopping = false → fr.sweep = none := hframe ▸ h.sweep n

theorem Follows.scope (h : Follows w b) (n : ScopeId) : b.scope n = w.scope n :=
  congrFun (congrArg BeanContext.scopes h.context) n

theorem Follows.find (h : Follows w b) (n : ScopeId) (d : DescriptorId) :
    b.find n d = w.find n d := by
  rw [SessionBounds.State.find, World.find, h.scope n, SessionBounds.State.slotOf, h.context]

theorem Follows.congr (h : Follows w b) (hcontext : w'.context = w.context)
    (hclaims : w'.materializing = w.materializing) : Follows w' b :=
  ⟨h.context.trans hcontext.symm, h.started, fun n p => by rw [hclaims]; exact h.claims n p,
    h.sweep⟩

theorem Follows.reaches (h : Follows w b) (hr : Reaches b (frame b) b')
    (hcontext : b'.context = w'.context) (hclaims : w'.materializing = w.materializing) :
    Follows w' b' := by
  refine ⟨hcontext, hr.started, fun n p => ?_, fun n => ?_⟩
  · rw [hr.frames, hclaims]
    exact h.claims n p
  · rw [hr.frames]
    exact h.sweep n

/-- What touches neither root nor scopes takes no step. -/
theorem Runs.of_same (hcontext : w'.context = w.context)
    (hclaims : w'.materializing = w.materializing) (e : Option Stop) : Runs w ⟨w', e⟩ :=
  ⟨fun b hb _ => ⟨b, .refl hb.started, hb.congr hcontext hclaims, hclaims⟩⟩

/-- The computation begins with something that takes no step. -/
theorem Runs.of_congr (h : Runs w' o) (hcontext : w'.context = w.context)
    (hclaims : w'.materializing = w.materializing) : Runs w o := by
  refine ⟨fun b hb hreturns => ?_⟩
  obtain ⟨b', hr, hb', hm⟩ := h.follows b (hb.congr hcontext hclaims) hreturns
  exact ⟨b', hr, hb', hm.trans hclaims⟩

/-- One computation after another. -/
theorem Runs.trans {o' : Outcome U} (ho : Runs w o) (hreturns : Returns o.failure)
    (ho' : Runs o.state o') : Runs w o' := by
  refine ⟨fun b hb hreturns' => ?_⟩
  obtain ⟨b₁, hr₁, hb₁, hm₁⟩ := ho.follows b hb hreturns
  obtain ⟨b₂, hr₂, hb₂, hm₂⟩ := ho'.follows b₁ hb₁ hreturns'
  exact ⟨b₂, hr₁.frames ▸ hr₁.trans hr₂, hb₂, hm₂.trans hm₁⟩

theorem Runs.andThen {f : World U → Outcome U} (ho : Runs w o)
    (hf : o.failure = none → Runs o.state (f o.state)) : Runs w (o.andThen f) := by
  cases hfail : o.failure with
  | some e => rwa [Attempt.andThen_of_fail hfail]
  | none =>
    rw [Attempt.andThen_of_ok hfail]
    exact ho.trans (by rw [hfail]; trivial) (hf hfail)

theorem Runs.forEach {α : Type*} {f : World U → α → Outcome U} (hf : ∀ w x, Runs w (f w x))
    (l : List α) (w : World U) : Runs w (Attempt.forEach f l w) := by
  induction l generalizing w with
  | nil => exact .of_same rfl rfl none
  | cons x l ih => exact (hf w x).andThen fun _ => ih _

/-- An exception does not leave a function that is `noexcept`. -/
theorem failure_of_escape (h : Returns (o.mapFailure Stop.escape).failure) :
    o.failure = none := by
  cases hfail : o.failure with
  | none => rfl
  | some e =>
    rw [Attempt.mapFailure, hfail] at h
    cases e <;> exact h.elim

theorem Runs.escape (ho : Runs w o) : Runs w (o.mapFailure Stop.escape) := by
  refine ⟨fun b hb hreturns => ho.follows b hb ?_⟩
  rw [failure_of_escape hreturns]
  trivial

end Rules

/-! ## Steps of a scope -/

section Scope

variable {U : Type*} {w w' w'' : World U} {o : Outcome U} {b b' : SessionBounds.State}
  {n : ScopeId} {fr fr' : Frame} {d : DescriptorId} {mem : Addr}

/-- One step, of one scope. -/
theorem Leaves.single {a : SessionBounds.Action} (hb : Follows w b)
    (hstep : steps.step b a = some b') (hframe : frame b' = update (frame b) n fr)
    (hcore : b'.context.core = b.context.core) (hcontext : b'.context = w'.context)
    (hclaims : w'.materializing = w.materializing)
    (hmaterializing : fr.materializing = (frame b n).materializing)
    (hsweep : fr.stopping = false → fr.sweep = none) : Leaves w b n fr w' := by
  refine ⟨b', .single hb.started hstep hframe hcore, ⟨hcontext, hcore ▸ hb.started, ?_, ?_⟩,
    hclaims⟩
  · intro k p
    rw [hframe, hclaims, ← hb.claims k p]
    by_cases hk : k = n
    · subst hk
      rw [Function.update_self, hmaterializing]
    · rw [Function.update_of_ne hk]
  · intro k
    rw [hframe]
    by_cases hk : k = n
    · subst hk
      rw [Function.update_self]
      exact hsweep
    · rw [Function.update_of_ne hk]
      exact hb.sweep k

/-- One run after another. -/
theorem Leaves.trans (h : Leaves w b n fr w')
    (h' : ∀ b', Follows w' b' → Reaches b (update (frame b) n fr) b' → Leaves w' b' n fr' w'') :
    Leaves w b n fr' w'' := by
  obtain ⟨b₁, hr₁, hb₁, hm₁⟩ := h
  obtain ⟨b₂, hr₂, hb₂, hm₂⟩ := h' b₁ hb₁ hr₁
  refine ⟨b₂, ?_, hb₂, hm₂.trans hm₁⟩
  rw [hr₁.frames, Function.update_idem] at hr₂
  exact hr₁.trans hr₂

theorem Runs.leaves (h : Runs w o) (hb : Follows w b) (hreturns : Returns o.failure)
    (hframe : frame b n = fr) : Leaves w b n fr o.state := by
  obtain ⟨b', hr, hb', hm⟩ := h.follows b hb hreturns
  rw [← Function.update_eq_self n (frame b), hframe] at hr
  exact ⟨b', hr, hb', hm⟩

/-- What is under way in the scope is again what has been before. -/
theorem Runs.of_leaves (n : ScopeId)
    (h : ∀ b, Follows w b → Returns o.failure → Leaves w b n (frame b n) o.state) : Runs w o := by
  refine ⟨fun b hb hreturns => ?_⟩
  obtain ⟨b', hr, hb', hm⟩ := h b hb hreturns
  rw [Function.update_eq_self] at hr
  exact ⟨b', hr, hb', hm⟩

/-- A stop begins. -/
theorem beginStop_leaves (hb : Follows w b) (hrunning : (w.scope n).scopeState = .running)
    (defer : Bool) : Leaves w b n
      { frame b n with
        sweep := some ⟨(w.scope n).sessionStore.insertionOrder.reverse, none, defer⟩
        stopping := true } (w.setScope n (w.scope n).beginStop) := by
  have hrunning' : (b.scope n).scopeState = .running := hb.scope n ▸ hrunning
  refine Leaves.single hb (a := .stopScope n defer) (if_pos hrunning') ?_ rfl ?_ rfl rfl nofun
  · rw [hb.scope n]
    exact frame_move
  · rw [hb.scope n]
    exact congrArg (fun c : BeanContext => c.setScope n _) hb.context

/-- A stop returns, and no sweep is under way. -/
theorem finishStop_leaves {defer : Bool} (hb : Follows w b)
    (hframe : frame b n = { fr with sweep := some ⟨[], none, defer⟩, stopping := true }) :
    Leaves w b n { fr with sweep := none, stopping := false } (w.finishStop n defer) := by
  have hact : (b.activity n).sweep = some ⟨[], none, defer⟩ := congrArg Frame.sweep hframe
  have hstep : steps.step b (.stopReturns n) = some (b.move n ((b.scope n).finishStop defer)
      ((b.activity n).setSweep none)) := by
    simp only [steps, SessionMemory.sessionsStep, SessionBounds.step, hact]
  refine Leaves.single hb hstep (frame_move.trans (congrArg (update _ n) ?_)) rfl ?_ ?_
    (by rw [hframe]) fun _ => rfl
  · calc frameOf ((b.scope n).finishStop defer) _
        = { frame b n with sweep := none, stopping := false } := rfl
      _ = { fr with sweep := none, stopping := false } := by rw [hframe]
  · rw [hb.scope n]
    refine (congrArg (fun c : BeanContext => c.setScope n _) hb.context).trans ?_
    cases defer <;> rfl
  · cases defer <;> rfl

/-- A stop has destroyed an instance. -/
theorem destroyed_leaves {l : List DescriptorId} {defer : Bool} {slot : Option SessionSlot}
    (hb : Follows w b)
    (hframe : frame b n = { fr with sweep := some ⟨l, some (d, mem), defer⟩ })
    (hstopping : fr.stopping = true) (hslot : b.slotOf d = slot) :
    Leaves w b n { fr with sweep := some ⟨l, none, defer⟩ }
      ((if defer then w.retireDeallocation n d mem else w).nullSlot n slot) := by
  have hact : (b.activity n).sweep = some ⟨l, some (d, mem), defer⟩ := congrArg Frame.sweep hframe
  have hstep : steps.step b (.destroyed n) =
      some (SessionBounds.clearStep b n d mem ⟨l, some (d, mem), defer⟩) := by
    simp only [steps, SessionMemory.sessionsStep, SessionBounds.step, hact]
  refine Leaves.single hb hstep ((frame_access_move d).trans (congrArg (update _ n) ?_)) rfl ?_ ?_
    ?_ ?_
  · calc frameOf (SessionBounds.clearSlot (b.scope n) (b.slotOf d) d mem defer) _
        = { frame b n with sweep := some ⟨l, none, defer⟩ } := by cases defer <;> rfl
      _ = { fr with sweep := some ⟨l, none, defer⟩ } := by rw [hframe]
  · change b.context.setScope n (SessionBounds.clearSlot (b.context.scopes n) (b.slotOf d) d mem
      defer) = _
    rw [hslot, hb.context]
    cases defer with
    | false => rfl
    | true =>
      simp only [if_true, World.nullSlot, World.retireDeallocation, World.setScope, World.scope,
        BeanContext.setScope, Function.update_self, Function.update_idem]
      rfl
  · cases defer <;> rfl
  · rw [hframe]
  · exact fun h => Bool.noConfusion (hstopping.symm.trans h)

/-- A start begins. -/
theorem beginStart_leaves (hb : Follows w b) (hstopped : (w.scope n).scopeState = .stopped) :
    Leaves w b n
      { frame b n with starts := (w.scope n).pendingRuntimeSessions :: (frame b n).starts }
      (w.setScope n ((w.scope n).beginStart w.context.core.sessionSlotCount)) := by
  have hstopped' : (b.scope n).scopeState = .stopped := hb.scope n ▸ hstopped
  refine Leaves.single hb (a := .startScope n) (if_pos hstopped')
    (frame_move.trans (congrArg (update _ n) ?_)) rfl ?_ rfl rfl (hb.sweep n)
  · calc frameOf ((b.scope n).beginStart b.context.core.sessionSlotCount) _
        = { frame b n with
            starts := (b.scope n).pendingRuntimeSessions :: (frame b n).starts } := rfl
      _ = _ := by rw [hb.scope n]
  · change b.context.setScope n ((b.scope n).beginStart b.context.core.sessionSlotCount) = _
    rw [hb.scope n, hb.context]
    rfl

theorem starts_eq_cons {l : List PendingRuntimeSession}
    {outer : List (List PendingRuntimeSession)} (h : (frame b n).starts = l :: outer) :
    ∃ changed outer', (b.activity n).starts = ⟨l, changed⟩ :: outer' ∧
      outer'.map SessionBounds.Start.rest = outer := by
  obtain ⟨⟨rest, changed⟩, outer', hstarts, rfl, houter⟩ := List.map_eq_cons_iff.mp h
  exact ⟨changed, outer', hstarts, houter⟩

/-- A start stores the next pending instance. -/
theorem store_leaves {psb : PendingRuntimeSession} {rest : List PendingRuntimeSession}
    {outer : List (List PendingRuntimeSession)} (hb : Follows w b)
    (hframe : frame b n = { fr with starts := (psb :: rest) :: outer }) :
    Leaves w b n { fr with starts := rest :: outer } (w.store n psb) := by
  obtain ⟨changed, outer', hstarts, houter⟩ := starts_eq_cons (congrArg Frame.starts hframe)
  have hstep : steps.step b (.storeNext n) =
      some (SessionBounds.storeStep b n psb ⟨rest, changed⟩ outer') := by
    simp only [steps, SessionMemory.sessionsStep, SessionBounds.step, hstarts]
  refine Leaves.single hb hstep ((frame_access_move psb.descId).trans (congrArg (update _ n) ?_))
    rfl ?_ rfl (by rw [hframe]) (hb.sweep_at hframe :)
  · calc frameOf ((b.scope n).storePending (b.slotOf psb.descId) psb) _
        = { frame b n with starts := rest :: outer'.map SessionBounds.Start.rest } := rfl
      _ = { fr with starts := rest :: outer } := by rw [hframe, houter]
  · change b.context.setScope n ((b.scope n).storePending (b.slotOf psb.descId) psb) = _
    rw [hb.scope n, SessionBounds.State.slotOf, hb.context]
    rfl

/-- A start passes on an exception of a listener. -/
theorem throws_leaves {rest : List PendingRuntimeSession}
    {outer : List (List PendingRuntimeSession)} (hb : Follows w b)
    (hframe : frame b n = { fr with starts := rest :: outer }) :
    Leaves w b n { fr with starts := outer } w := by
  obtain ⟨changed, outer', hstarts, houter⟩ := starts_eq_cons (congrArg Frame.starts hframe)
  have hstep : steps.step b (.startThrows n) =
      some (b.setActivity n ((b.activity n).setStarts outer')) := by
    simp only [steps, SessionMemory.sessionsStep, SessionBounds.step, hstarts]
  refine Leaves.single hb hstep (frame_setActivity.trans (congrArg (update _ n) ?_)) rfl hb.context
    rfl (by rw [hframe]) (hb.sweep_at hframe :)
  calc frameOf (b.scope n) _
      = { frame b n with starts := outer'.map SessionBounds.Start.rest } := rfl
    _ = { fr with starts := outer } := by rw [hframe, houter]

/-- A start returns, and the scope is running. -/
theorem returns_leaves {outer : List (List PendingRuntimeSession)} (hb : Follows w b)
    (hframe : frame b n = { fr with starts := [] :: outer }) (hstopping : fr.stopping = false) :
    Leaves w b n { fr with starts := outer } (w.setScope n (w.scope n).finishStart) := by
  obtain ⟨changed, outer', hstarts, houter⟩ := starts_eq_cons (congrArg Frame.starts hframe)
  have hstep : steps.step b (.startReturns n) = some (SessionBounds.returnStep b n outer') := by
    simp only [steps, SessionMemory.sessionsStep, SessionBounds.step, hstarts]
  refine Leaves.single hb hstep (frame_move.trans (congrArg (update _ n) ?_)) rfl ?_ rfl
    (by rw [hframe]) (hb.sweep_at hframe :)
  · calc frameOf (b.scope n).finishStart ((b.activity n).setStarts outer').change
        = { frame b n with
            starts := outer'.map SessionBounds.Start.rest
            stopping := false } := frameOf_change
      _ = { fr with starts := outer } := by rw [houter, hframe, ← hstopping]
  · change b.context.setScope n (b.scope n).finishStart = _
    rw [hb.scope n, hb.context]
    rfl

/-- A binding, whether it is accepted or refused. -/
theorem bind_runs (type : CppType) (name : String) (priority : ℤ) (object : Addr) (w : World U)
    (e : Option Stop) : Runs w ⟨w.bind n type name priority object, e⟩ := by
  refine ⟨fun b hb _ => ?_⟩
  have hclaims : (w.bind n type name priority object).materializing = w.materializing := by
    unfold World.bind
    dsimp only
    split_ifs <;> rfl
  obtain ⟨hgrows, hstates⟩ := Sessions.bindSession_grows hb.started n type name priority object
  -- The scopes keep their states, and the starts under way what is left of their vectors.
  have hframe : frame (b.setContext (b.context.bindSession n type name priority object).state) =
      frame b := frame_setContext hstates
  obtain ⟨b', hstep, hframe', hcontext⟩ : ∃ b',
      steps.step b (.bindSession n type name priority object) = some b' ∧ frame b' = frame b ∧
        b'.context = (b.context.bindSession n type name priority object).state := by
    simp only [steps, SessionMemory.sessionsStep, SessionBounds.step]
    cases (b.context.bindSession n type name priority object).failure with
    | some e => exact ⟨_, rfl, hframe, rfl⟩
    | none =>
      refine ⟨_, rfl, ?_⟩
      unfold SessionBounds.State.accept
      split_ifs
      · exact ⟨hframe, rfl⟩
      · refine ⟨(frame_setActivity.trans ?_).trans hframe, rfl⟩
        rw [frameOf_change]
        exact Function.update_eq_self ..
  have hr : Reaches b (frame b) b' := by
    refine ⟨.single trivial hstep, hframe', hcontext ▸ hgrows.started, fun d slot hd => ?_⟩
    rw [SessionBounds.State.slotOf, hcontext]
    exact hgrows.slotOf hd
  have hcontext' : b'.context = (w.bind n type name priority object).context := by
    rw [hcontext, hb.context]
    rfl
  exact ⟨b', hr, hb.reaches hr hcontext' hclaims, hclaims⟩

/-- A constructor begins. -/
theorem claim_reaches {p : DescriptorId} (hb : Follows w b)
    (hproper : Proper w (.materializeSession n p)) (hfind : w.find n p = none)
    (hstopping : (w.scope n).scopeState ≠ .stopping)
    (hbound : ¬w.context.core.descriptors[p]?.any (fun desc => desc.origin == .runtimeBinding) =
      true) (hclaimed : (p, n) ∉ w.materializing) :
    ∃ b', Reaches b (update (frame b) n
      { frame b n with materializing := p :: (frame b n).materializing }) b' ∧
        Follows (w.claim n p) b' := by
  obtain ⟨hstopped, hlifetime, hprimary⟩ := hproper
  have hrunning : (b.scope n).scopeState = .running := by
    rw [hb.scope n]
    cases hstate : (w.scope n).scopeState with
    | running => rfl
    | stopped => exact absurd hstate hstopped
    | stopping => exact absurd hstate hstopping
  have hprimary' : b.primaryOf p = p := by
    rw [SessionBounds.State.primaryOf, hb.context]
    exact hprimary
  have hstep : steps.step b (.materialize n p) = some (b.setActivity n
      ((b.activity n).setMaterializing (p :: (b.activity n).materializing))) := by
    refine (if_pos ⟨hrunning, ?_, ?_, ?_, ?_⟩).trans (by rw [hprimary'])
    · rw [hb.context]
      exact hlifetime
    · rw [hprimary', hb.find]
      exact hfind
    · rw [hprimary', SessionBounds.State.bound, hb.context]
      exact Bool.eq_false_of_not_eq_true hbound
    · rw [hprimary']
      exact fun hmem => hclaimed ((hb.claims n p).mp hmem)
  have hr := Reaches.single hb.started hstep frame_setActivity rfl
  refine ⟨_, hr, ⟨hb.context, hb.started, fun k q => ?_, fun k => ?_⟩⟩
  · rw [hr.frames, World.claim, List.mem_cons, ← hb.claims k q, Prod.mk.injEq]
    by_cases hk : k = n
    · subst hk
      rw [Function.update_self, and_iff_left rfl]
      exact List.mem_cons
    · rw [Function.update_of_ne hk, or_iff_right fun h => hk h.2]
  · rw [hr.frames]
    by_cases hk : k = n
    · subst hk
      rw [Function.update_self]
      exact hb.sweep k
    · rw [Function.update_of_ne hk]
      exact hb.sweep k

/-- A constructor has returned or thrown. -/
theorem endClaim_reaches {b'' : SessionBounds.State} {p : DescriptorId}
    {a : SessionBounds.Action} {sc : ScopedContext} (hr : Reaches b (update (frame b) n
      { frame b n with materializing := p :: (frame b n).materializing }) b')
    (hstep : p ∈ (b'.activity n).materializing → steps.step b' a = some b'')
    (hframe : frame b'' = update (frame b') n (frameOf sc ((b'.activity n).setMaterializing
      ((b'.activity n).materializing.erase p)))) (hstate : sc.scopeState = (b'.scope n).scopeState)
    (hcore : b''.context.core = b'.context.core) : Reaches b (frame b) b'' := by
  have hframe' := congrFun hr.frames n
  rw [Function.update_self] at hframe'
  have hmaterializing : (b'.activity n).materializing = p :: (frame b n).materializing :=
    congrArg Frame.materializing hframe'
  refine hr.trans (.single hr.started (hstep ?_) (hframe.trans ?_) hcore)
  · rw [hmaterializing]
    exact List.mem_cons_self
  · have hsame : frameOf sc ((b'.activity n).setMaterializing ((b'.activity n).materializing.erase
        p)) = frame b n := by
      calc frameOf sc ((b'.activity n).setMaterializing ((b'.activity n).materializing.erase p))
          = { frame b' n with materializing := (b'.activity n).materializing.erase p } := by
            rw [frameOf, hstate]
            rfl
        _ = { frame b n with materializing := (frame b n).materializing } := by
            rw [hframe', hmaterializing, List.erase_cons_head]
    rw [hsame, hr.frames, Function.update_idem, Function.update_eq_self]

end Scope

/-! ## User code -/

/-- User code changes the root and its scopes by steps and by proper calls only. -/
def Program.Plain {U : Type*} (call : Call → World U → Outcome U) : Program U → World U → Prop
  | .done, _ | .throws _, _ => True
  | .look k, w => (k w.visible).Plain call w
  | .act f k, w => Runs w (.ok (w.act f)) ∧ k.Plain call (w.act f)
  | .call c k, w => Proper w c ∧
    match (call c w).failure with
    | none => (k none).Plain call (call c w).state
    | some (.exception e) => (k (some e)).Plain call (call c w).state
    | some _ => True

/-- All code of the user does. -/
structure Code.Plain {U : Type*} (P : Code U) (call : Call → World U → Outcome U) : Prop where
  callback : ∀ k e bean w, (P.callback k e bean).Plain call w
  construct : ∀ r d w, (P.coldAt r d).construct.Plain call w
  postConstruct : ∀ r d f m w, (P.coldAt r d).postConstruct = some f → (f m).Plain call w
  preDestroy : ∀ r d f m w, (P.coldAt r d).preDestroy = some f → (f m).Plain call w
  destroy : ∀ r d m w, ((P.coldAt r d).destroy m).Plain call w

section Act

variable {U : Type*} {w : World U} {f : World U → World U}

/-- What user code changes of its own. -/
theorem act_runs (hcontext : (f w.visible).context = w.visible.context)
    (hclaims : (f w.visible).materializing = w.materializing) : Runs w (.ok (w.act f)) := by
  refine ⟨fun b hb _ => ⟨b, .refl hb.started, hb.congr ?_ hclaims, hclaims⟩⟩
  have hscopes : (fun n => setRetired ((f w.visible).scope n) (w.retired n)) =
      w.context.scopes := by
    funext n
    rw [World.scope, hcontext]
    rfl
  rw [World.act, hscopes, hcontext]
  rfl

/-- A call on the root depends on what user code sees. -/
theorem exec_forget (b : BeanContext) {call : BeanContext.Call} (hroot : rootCall call = true) :
    ((forget b).exec call).state = forget (b.exec call).state := by
  have hcore : (forget b).core = b.core := rfl
  have hdefaults : ∀ n, ((forget b).scopes n).scopedDefaults = (b.scopes n).scopedDefaults :=
    fun n => rfl
  cases call with
  | discover | bindSingleton | start => rfl
  | defaultNamed scope type name =>
    simp only [BeanContext.exec, BeanContext.defaultNamed, hcore]
    split_ifs
    · rfl
    · rfl
    · split
      · rfl
      · cases scope with
        | none => rfl
        | some n =>
          simp only [Attempt.ok_state, forget_setScope]
          rfl
  | clearDefaultNamed scope type =>
    simp only [BeanContext.exec, BeanContext.clearDefaultNamed, hcore]
    split_ifs
    · rfl
    · split
      · rfl
      · cases scope with
        | none => rfl
        | some n =>
          simp only [hdefaults]
          split_ifs
          · rfl
          · simp only [Attempt.ok_state, forget_setScope]
            rfl
  | bindSession | startScope | stopScope | restartScope => cases hroot

/-- A call on the root. -/
theorem act_root_runs {call : BeanContext.Call} (hroot : rootCall call = true)
    (hcontext : (f w.visible).context = (w.visible.context.exec call).state)
    (hclaims : (f w.visible).materializing = w.materializing) : Runs w (.ok (w.act f)) := by
  refine ⟨fun b hb _ => ?_⟩
  obtain ⟨hgrows, hsame⟩ := Sessions.exec_root (hb.context ▸ hb.started) hroot
  have hact : (w.act f).context = (w.context.exec call).state := by
    have hvisible : (f w.visible).context = forget (w.context.exec call).state :=
      hcontext.trans (exec_forget w.context hroot)
    have hscopes : (fun n => setRetired ((f w.visible).scope n) (w.retired n)) =
        (w.context.exec call).state.scopes := by
      funext n
      rw [World.scope, hvisible, World.retired, World.scope, ← (hsame n).sessionStore]
      rfl
    rw [World.act, hscopes, hvisible]
    rfl
  -- The step is that of the call, and the scopes keep their sessions.
  have hstep : steps.step b (.root call) = some (b.setContext (b.context.exec call).state) :=
    if_pos hroot
  rw [← hb.context] at hgrows hsame hact
  have hr : Reaches b (frame b) (b.setContext (b.context.exec call).state) :=
    ⟨.single trivial hstep, frame_setContext fun k => (hsame k).scopeState, hgrows.started,
      fun d slot hd => hgrows.slotOf hd⟩
  exact ⟨_, hr, hb.reaches hr hact.symm hclaims, hclaims⟩

end Act

section UserCode

variable {U : Type*} {P : Code U} {call : Call → World U → Outcome U} {n : ScopeId}
  {d : DescriptorId} (hcall : ∀ c w, Proper w c → Runs w (call c w))

include hcall

theorem Program.runs (p : Program U) (w : World U) (hp : p.Plain call w) :
    Runs w (p.eval call w) := by
  induction p generalizing w with
  | done => exact .of_same rfl rfl none
  | throws e => exact .of_same rfl rfl _
  | look k ih => exact ih _ w hp
  | act f k ih =>
    obtain ⟨hact, hk⟩ := hp
    exact hact.andThen fun _ => ih (w.act f) hk
  | call c k ih =>
    rw [Program.Plain] at hp
    obtain ⟨hproper, hk⟩ := hp
    have hc := hcall c w hproper
    rw [Program.eval]
    cases hfail : (call c w).failure with
    | none =>
      rw [hfail] at hk
      exact hc.trans (by rw [hfail]; trivial) (ih none _ hk)
    | some e =>
      rw [hfail] at hk
      cases e with
      | exception e => exact hc.trans (by rw [hfail]; trivial) (ih (some e) _ hk)
      | terminate => exact ⟨fun b hb hreturns => hreturns.elim⟩
      | stackOverflow => exact ⟨fun b hb hreturns => hreturns.elim⟩

theorem runHook_runs {hook : Option (Addr → Program U)}
    (hhook : ∀ f m w, hook = some f → (f m).Plain call w) (e : Entry) (mem : Addr) (w : World U) :
    Runs w (runHook call hook e mem w) := by
  cases hook with
  | none => exact .of_same rfl rfl none
  | some f => exact (Program.runs hcall _ _ (hhook f mem _ rfl)).of_congr rfl rfl

variable (hP : P.Plain call)

include hP

theorem invoke_runs (e : Event) (bean : AnyBean) (w : World U) (ve : ViewEntry) :
    Runs w (invoke P call e bean w ve) :=
  (Program.runs hcall _ _ (hP.callback ..)).of_congr rfl rfl

theorem dispatch_runs (e : Event) (bean : AnyBean) (w : World U) :
    Runs w (dispatch P call e bean w) :=
  .forEach (invoke_runs hcall hP e bean) _ w

theorem runDestroy_runs (r : Registry) (d : DescriptorId) (mem : Addr) (w : World U) :
    Runs w (runDestroy call (P.coldAt r d) d mem w) :=
  (Program.runs hcall _ _ (hP.destroy ..)).of_congr rfl rfl

theorem announceBound_runs (n : ScopeId) (d : DescriptorId) (mem : Addr) (w : World U) :
    Runs w (announceBound P call n d mem w) :=
  (dispatch_runs hcall hP ..).andThen fun _ => dispatch_runs hcall hP ..

theorem runPreDestroy_runs (r : Registry) (d : DescriptorId) (mem : Addr) (w : World U) :
    Runs w (runHook call (P.coldAt r d).preDestroy (.preDestroy d mem) mem w) :=
  runHook_runs hcall (fun f m w hf => hP.preDestroy r d f m w hf) ..

/-- The events and the hook of a bean that has been constructed. -/
theorem creation_runs (r : Registry) (d : DescriptorId) (mem : Addr) (w : World U) (e e' : Event)
    (bean : AnyBean) : Runs w (((dispatch P call e bean w).andThen
      (runHook call (P.coldAt r d).postConstruct (.postConstruct d mem) mem)).andThen
        (dispatch P call e' bean)) := by
  refine ((dispatch_runs hcall hP ..).andThen fun _ => ?_).andThen fun _ =>
    dispatch_runs hcall hP ..
  exact runHook_runs hcall (fun f m w hf => hP.postConstruct r d f m w hf) ..

/-- The events, the hook and the destructor of a bean. -/
theorem destruction_runs (r : Registry) (d : DescriptorId) (mem : Addr) (w : World U)
    (before after : Bool) (e e' : Event) (bean : AnyBean) :
    Runs w ((((if before then dispatch P call e bean w else .ok w).andThen
      (runHook call (P.coldAt r d).preDestroy (.preDestroy d mem) mem)).andThen fun w =>
        if after then dispatch P call e' bean w else .ok w).andThen
          (runDestroy call (P.coldAt r d) d mem)) := by
  have hdispatch : ∀ (c : Bool) e w, Runs w (if c then dispatch P call e bean w else .ok w) := by
    intro c e w
    cases c with
    | true => exact dispatch_runs hcall hP e bean w
    | false => exact .of_same rfl rfl none
  exact (((hdispatch before e w).andThen fun _ => runPreDestroy_runs hcall hP ..).andThen
    fun _ => hdispatch after e' _).andThen fun _ => runDestroy_runs hcall hP ..

/-- The hook and the destructor of a bean. -/
theorem quietDestruction_runs (r : Registry) (d : DescriptorId) (mem : Addr) (w : World U) :
    Runs w ((runHook call (P.coldAt r d).preDestroy (.preDestroy d mem) mem w).andThen
      (runDestroy call (P.coldAt r d) d mem)) :=
  (runPreDestroy_runs hcall hP ..).andThen fun _ => runDestroy_runs hcall hP ..

theorem executeDestructionLifecycle_runs (d : DescriptorId) (mem : Addr)
    (emitterScope : Option NameId) (w : World U) :
    Runs w (executeDestructionLifecycle P call d mem emitterScope w) := by
  unfold executeDestructionLifecycle
  refine Runs.escape (Runs.andThen ?_ fun _ => ?_)
  · dsimp only
    by_cases h : (w.listeners.store.hasListeners .preDestroy ||
        w.listeners.store.hasListeners .destroyed) = true
    · rw [if_pos h]
      exact destruction_runs hcall hP w.context.core ..
    · rw [if_neg h]
      exact quietDestruction_runs hcall hP w.context.core ..
  · cases emitterScope <;> refine Runs.of_same ?_ ?_ none <;> rfl

theorem destroyWithoutDeallocation_runs (n : ScopeId) (d : DescriptorId) (mem : Addr)
    (w : World U) : Runs w (destroyWithoutDeallocation P call n d mem (w.coldAt P d) w) := by
  unfold destroyWithoutDeallocation
  refine Runs.escape ?_
  dsimp only
  by_cases h : (w.listeners.store.hasListeners .preDestroy ||
      w.listeners.store.hasListeners .destroyed) = true
  · rw [if_pos h]
    exact destruction_runs hcall hP w.context.core ..
  · rw [if_neg h]
    exact quietDestruction_runs hcall hP w.context.core ..

/-! ## Calls -/

/-- A stop destroys the next instance of its sweep, or passes over a descriptor. -/
theorem sweepNext_leaves {b : SessionBounds.State} {fr : Frame} {l : List DescriptorId}
    {defer : Bool} {w : World U} (hb : Follows w b)
    (hframe : frame b n = { fr with sweep := some ⟨d :: l, none, defer⟩ })
    (hstopping : fr.stopping = true) (hok : (sweepNext P call n defer w d).failure = none) :
    Leaves w b n { fr with sweep := some ⟨l, none, defer⟩ }
      (sweepNext P call n defer w d).state := by
  have hact : (b.activity n).sweep = some ⟨d :: l, none, defer⟩ := congrArg Frame.sweep hframe
  have hfind : b.find n d = (w.scope n).sessionStore.find (w.context.core.sessionSlotOf d) :=
    hb.find n d
  have hstep : steps.step b (.destroyNext n) = some (SessionBounds.destroyStep b n d l defer) := by
    simp only [steps, SessionMemory.sessionsStep, SessionBounds.step, hact]
  have hnext : Leaves w b n { fr with sweep := some ⟨l, (b.find n d).map (d, ·), defer⟩ } w := by
    refine Leaves.single hb hstep (frame_setActivity.trans (congrArg (update _ n) ?_)) rfl
      hb.context rfl ?_ ?_
    · calc frameOf (b.scope n) _
          = { frame b n with sweep := some ⟨l, (b.find n d).map (d, ·), defer⟩ } := rfl
        _ = { fr with sweep := some ⟨l, (b.find n d).map (d, ·), defer⟩ } := by rw [hframe]
    · rw [hframe]
    · exact fun h => Bool.noConfusion (hstopping.symm.trans h)
  unfold sweepNext at hok ⊢
  dsimp only at hok ⊢
  rw [← hfind] at hok ⊢
  cases hm : b.find n d with
  | none =>
    rw [hm] at hnext
    exact hnext
  | some mem =>
    rw [hm] at hnext hok
    dsimp only at hok ⊢
    obtain ⟨slot, hslot, -⟩ := SessionMemory.find_eq_some hm
    have hslot' : w.context.core.sessionSlotOf d = some slot := hb.context ▸ hslot
    obtain ⟨hdestroyed, -⟩ := Attempt.andThen_failure_eq_none.mp hok
    rw [Attempt.andThen_of_ok hdestroyed, hslot']
    refine hnext.trans fun b₁ hb₁ hr₁ => ?_
    have hframe₁ : frame b₁ n = { fr with sweep := some ⟨l, some (d, mem), defer⟩ } := hr₁.frame_at
    have hreturns : ∀ o : Outcome U, o.failure = none → Returns o.failure :=
      fun o ho => by rw [ho]; trivial
    cases defer with
    | false =>
      rw [if_neg Bool.false_ne_true] at hdestroyed ⊢
      refine ((executeDestructionLifecycle_runs hcall hP d mem (some n) w).leaves hb₁
        (hreturns _ hdestroyed) hframe₁).trans fun b₂ hb₂ hr₂ => ?_
      exact destroyed_leaves hb₂ hr₂.frame_at hstopping
        (hr₂.slotOf d slot (hr₁.slotOf d slot hslot))
    | true =>
      rw [if_pos rfl] at hdestroyed ⊢
      obtain ⟨hdestroyed, -⟩ := Attempt.andThen_failure_eq_none.mp hdestroyed
      rw [Attempt.andThen_of_ok hdestroyed]
      refine ((destroyWithoutDeallocation_runs hcall hP n d mem w).leaves hb₁
        (hreturns _ hdestroyed) hframe₁).trans fun b₂ hb₂ hr₂ => ?_
      exact destroyed_leaves hb₂ hr₂.frame_at hstopping
        (hr₂.slotOf d slot (hr₁.slotOf d slot hslot))

/-- A stop destroys what is left of its sweep. -/
theorem sweep_leaves {b : SessionBounds.State} (fr : Frame) {defer : Bool}
    (l : List DescriptorId) {w : World U} (hb : Follows w b)
    (hframe : frame b n = { fr with sweep := some ⟨l, none, defer⟩ })
    (hstopping : fr.stopping = true)
    (hok : (Attempt.forEach (sweepNext P call n defer) l w).failure = none) :
    Leaves w b n { fr with sweep := some ⟨[], none, defer⟩ }
      (Attempt.forEach (sweepNext P call n defer) l w).state := by
  induction l generalizing w b with
  | nil => exact (Runs.of_same rfl rfl none).leaves hb trivial hframe
  | cons d l ih =>
    obtain ⟨hfirst, hrest, heq⟩ := Attempt.forEach_cons_eq_none hok
    rw [heq]
    refine (sweepNext_leaves hcall hP hb hframe hstopping hfirst).trans fun b' hb' hr => ?_
    exact ih hb' hr.frame_at hrest

/-- `Registry::stopScope`, in a running scope. -/
theorem stopScope_runs {w : World U} (hrunning : (w.scope n).scopeState = .running) (defer : Bool) :
    Runs w (stopScope P call n defer w) := by
  refine Runs.of_leaves n fun b hb hreturns => ?_
  have hok := failure_of_escape hreturns
  obtain ⟨hswept, -⟩ := Attempt.andThen_failure_eq_none.mp hok
  have hstate : (stopScope P call n defer w).state = (Attempt.forEach (sweepNext P call n defer)
      (w.scope n).sessionStore.insertionOrder.reverse
        (w.setScope n (w.scope n).beginStop)).state.finishStop n defer :=
    congrArg Attempt.state (Attempt.andThen_of_ok hswept)
  rw [hstate]
  have hstopping : (frame b n).stopping = false := by
    rw [frame, frameOf, hb.scope n, hrunning]
    rfl
  refine (beginStop_leaves hb hrunning defer).trans fun b₁ hb₁ hr₁ => ?_
  refine (sweep_leaves hcall hP { frame b n with stopping := true } _ hb₁ hr₁.frame_at rfl
    hswept).trans fun b₂ hb₂ hr₂ => ?_
  -- No sweep was under way before, as the scope was not stopping.
  have hsame : { frame b n with sweep := none, stopping := false } = frame b n := by
    rw [← hb.sweep n hstopping, ← hstopping]
  exact hsame ▸ finishStop_leaves hb₂ hr₂.frame_at

theorem stop_runs (w : World U) : Runs w (stop P call n w) := by
  unfold stop
  split_ifs with h
  · exact .of_same rfl rfl none
  · exact stopScope_runs hcall hP (not_not.mp h) false

/-- A start stores the instances that are left and returns, unless a listener throws. -/
theorem stores_leaves {b : SessionBounds.State} (fr : Frame) (l : List PendingRuntimeSession)
    {outer : List (List PendingRuntimeSession)} {w : World U} {o : Outcome U} (hb : Follows w b)
    (hframe : frame b n = { fr with starts := l :: outer }) (hstopping : fr.stopping = false)
    (ho : o = (Attempt.forEach (fun w psb => announceBound P call n psb.descId psb.boundInstance
      (w.store n psb)) l w).andThen fun w => .ok (w.setScope n (w.scope n).finishStart))
    (hreturns : Returns o.failure) : Leaves w b n { fr with starts := outer } o.state := by
  subst ho
  induction l generalizing w b with
  | nil => exact returns_leaves hb hframe hstopping
  | cons psb l ih =>
    have hstored : Leaves w b n { fr with starts := l :: outer } (w.store n psb) :=
      store_leaves hb hframe
    have hannounced := announceBound_runs hcall hP n psb.descId psb.boundInstance (w.store n psb)
    rw [Attempt.forEach] at hreturns ⊢
    refine hstored.trans fun b₁ hb₁ hr₁ => ?_
    cases hfail : (announceBound P call n psb.descId psb.boundInstance (w.store n psb)).failure with
    | some e =>
      rw [Attempt.andThen_of_fail hfail, Attempt.andThen_of_fail hfail] at hreturns ⊢
      refine (hannounced.leaves hb₁ hreturns hr₁.frame_at).trans fun b₂ hb₂ hr₂ => ?_
      exact throws_leaves hb₂ hr₂.frame_at
    | none =>
      rw [Attempt.andThen_of_ok hfail] at hreturns ⊢
      have hreturns' : Returns (announceBound P call n psb.descId psb.boundInstance
          (w.store n psb)).failure := by rw [hfail]; trivial
      refine (hannounced.leaves hb₁ hreturns' hr₁.frame_at).trans fun b₂ hb₂ hr₂ => ?_
      exact ih hb₂ hr₂.frame_at hreturns

/-- `ScopedContext::start`. -/
theorem start_runs (w : World U) : Runs w (start P call n w) := by
  unfold start
  split_ifs
  · exact .of_same rfl rfl _
  · cases hstate : (w.scope n).scopeState with
    | running | stopping => exact .of_same rfl rfl _
    | stopped =>
      refine Runs.of_leaves n fun b hb hreturns => ?_
      have hstopping : (frame b n).stopping = false := by
        rw [frame, frameOf, hb.scope n, hstate]
        rfl
      refine (beginStart_leaves hb hstate).trans fun b₁ hb₁ hr₁ => ?_
      exact stores_leaves hcall hP (frame b n) _ hb₁ hr₁.frame_at hstopping rfl hreturns

theorem restart_runs (w : World U) : Runs w (restart P call n w) := by
  refine Runs.andThen ?_ fun _ => start_runs hcall hP _
  split_ifs with h
  · exact stopScope_runs hcall hP h true
  · exact stop_runs hcall hP w

/-- `ScopedContext::bindSession`. -/
theorem bindSession_runs (type : CppType) (name : String) (priority : ℤ) (object : Addr)
    (w : World U) : Runs w (bindSession P call n type name priority object w) := by
  unfold bindSession
  split
  · exact bind_runs ..
  · split_ifs
    · exact bind_runs ..
    · exact (bind_runs type name priority object w none).trans trivial
        (announceBound_runs hcall hP ..)

/-- `Registry::materializeSessionInstance`. -/
theorem materializeSessionInstance_runs {p : DescriptorId} {w : World U}
    (hproper : Proper w (.materializeSession n p)) :
    Runs w (materializeSessionInstance P call n p w) := by
  unfold materializeSessionInstance
  split_ifs with hfind hstopping hbound hclaimed
  · exact .of_same rfl rfl _
  · exact .of_same rfl rfl _
  · exact .of_same rfl rfl _
  · exact .of_same rfl rfl _
  dsimp only
  refine ⟨fun b hb hreturns => ?_⟩
  have hnone : w.find n p = none := Option.not_isSome_iff_eq_none.mp hfind
  obtain ⟨b₁, hr₁, hb₁⟩ := claim_reaches hb hproper hnone hstopping hbound hclaimed
  have hconstruct := Program.runs hcall (w.coldAt P p).construct (w.claim n p) (hP.construct ..)
  have hrun : Returns ((w.coldAt P p).construct.eval call (w.claim n p)).failure → ∃ b₂,
      Reaches b (update (frame b) n
        { frame b n with materializing := p :: (frame b n).materializing }) b₂ ∧
        b₂.context = ((w.coldAt P p).construct.eval call (w.claim n p)).state.context ∧
          ((w.coldAt P p).construct.eval call (w.claim n p)).state.materializing =
            (p, n) :: w.materializing := by
    intro hreturns
    obtain ⟨b₂, hr₂, hb₂, hm₂⟩ := hconstruct.follows b₁ hb₁ hreturns
    exact ⟨b₂, hr₁.frames ▸ hr₁.trans hr₂, hb₂.context, hm₂⟩
  cases hfail : ((w.coldAt P p).construct.eval call (w.claim n p)).failure with
  | some e =>
    rw [Attempt.andThen_of_fail ((Attempt.rethrow_failure ..).trans hfail),
      Attempt.rethrow_of_fail hfail] at hreturns ⊢
    obtain ⟨b₂, hr₂, hcontext, hclaims⟩ := hrun hreturns
    have hr := endClaim_reaches hr₂ (a := .constructorThrows n p) (fun hmem => if_pos hmem)
      frame_setActivity rfl rfl
    have hclaims' : (((w.coldAt P p).construct.eval call (w.claim n p)).state.endClaim n
        p).materializing = w.materializing := by
      rw [World.endClaim, hclaims, List.erase_cons_head]
    exact ⟨_, hr, hb.reaches hr hcontext hclaims', hclaims'⟩
  | none =>
    rw [Attempt.rethrow_of_ok hfail, Attempt.andThen_of_ok hfail] at hreturns ⊢
    obtain ⟨b₂, hr₂, hcontext, hclaims⟩ := hrun (by rw [hfail]; trivial)
    generalize ((w.coldAt P p).construct.eval call (w.claim n p)).state = w₂ at *
    have hr := endClaim_reaches hr₂ (a := .constructed n p w₂.nextAddr) (fun hmem => if_pos hmem)
      (frame_access_move p) rfl rfl
    have hcontext' : (SessionBounds.constructedStep b₂ n p w₂.nextAddr).context =
        (w₂.constructed n p).context := by
      change b₂.context.setScope n ((b₂.context.scopes n).storePending
        (b₂.context.core.sessionSlotOf p) ⟨p, w₂.nextAddr⟩) = _
      rw [hcontext]
      rfl
    have hclaims' : (w₂.constructed n p).materializing = w.materializing := by
      change w₂.materializing.erase (p, n) = _
      rw [hclaims, List.erase_cons_head]
    obtain ⟨b₄, hr₄, hb₄, hm₄⟩ := (creation_runs hcall hP w.context.core p w₂.nextAddr _ _ _
      _).follows _ (hb.reaches hr hcontext' hclaims') hreturns
    exact ⟨b₄, hr.frames ▸ hr.trans hr₄, hb₄, hm₄.trans hclaims'⟩

end UserCode

/-- Every call is followed by a run of steps, however deep user code calls again. -/
theorem exec_runs {U : Type*} {P : Code U} (hP : ∀ depth, P.Plain (exec P depth)) (depth : ℕ)
    (c : Call) (w : World U) (hproper : Proper w c) : Runs w (exec P depth c w) := by
  induction depth generalizing c w with
  | zero => exact ⟨fun b hb hreturns => hreturns.elim⟩
  | succ depth ih =>
    cases c with
    | startScope n => exact start_runs ih (hP depth) w
    | stopScope n => exact stop_runs ih (hP depth) w
    | restartScope n => exact restart_runs ih (hP depth) w
    | bindSession n type name priority object => exact bindSession_runs ih (hP depth) ..
    | materializeSession n p => exact materializeSessionInstance_runs ih (hP depth) hproper
    | dispatch e bean => exact dispatch_runs ih (hP depth) ..

/-- A call that is made when nothing is under way is a run of steps, after which nothing is under
    way. -/
theorem exec_leads {U : Type*} {P : Code U} (hP : ∀ depth, P.Plain (exec P depth)) {depth : ℕ}
    {c : Call} {w : World U} (hproper : Proper w c) (hs : w.context.core.started = true)
    (hidle : w.materializing = []) (hreturns : Returns (exec P depth c w).failure) :
    ∃ b, steps.Leads (fun _ _ => True) { context := w.context } b ∧
      b.context = (exec P depth c w).state.context ∧ ∀ n, (b.activity n).starts = [] ∧
        (b.activity n).sweep = none ∧ (b.activity n).materializing = [] := by
  have hb : Follows w { context := w.context } := by
    refine ⟨rfl, hs, fun n p => ?_, fun n _ => rfl⟩
    rw [hidle]
    exact iff_of_false List.not_mem_nil List.not_mem_nil
  obtain ⟨b, hr, hb', -⟩ := (exec_runs hP depth c w hproper).follows _ hb hreturns
  refine ⟨b, hr.leads, hb'.context, fun n => ?_⟩
  have hframe : frame b n = ⟨[], none, [], _⟩ := congrFun hr.frames n
  exact ⟨List.map_eq_nil_iff.mp (congrArg Frame.starts hframe), congrArg Frame.sweep hframe,
    congrArg Frame.materializing hframe⟩

end Ctorium.Restart
