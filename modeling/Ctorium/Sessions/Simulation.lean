import Ctorium.Sessions.Bounds

/-!
# The calls on scopes and their steps

`BeanContext` takes a call on a scope as a whole. In `Sessions` and in `SessionBounds` the calls
are made of steps, and other code runs in between; `SessionBounds` also lets the starts of a scope
nest, and notes the accesses to the array. Both are connected here with what comes before.

* `SessionBounds.leads_exec`: every call on a root or a scope is a run of steps, in which each start
  goes on with the vector that it began with.
* `Sessions.exists_bounds`: what a run of `Sessions` does to the root and its scopes, a run of
  `SessionBounds` does, too, if no listener binds on the scope whose start has called it.
* `SessionBounds.slotsDistinct_execAll`, `Sessions.slotsDistinct_of_leads`: so the session slots are
  distinct and below the count here, too.
-/

namespace Ctorium.SessionBounds

open Function (update)
open Sessions (rootCall)

variable {s : State} {n : ScopeId}

/-! ## Calls as a whole -/

/-- What has no instance is passed over. -/
theorem destroyInstance_of_none {sc : ScopedContext} {slot : Option SessionSlot}
    (h : sc.sessionStore.find slot = none) (d : DescriptorId) (deferDeallocation : Bool) :
    sc.destroyInstance slot d deferDeallocation = sc := by
  rw [ScopedContext.destroyInstance, h]

theorem destroyInstance_of_some {sc : ScopedContext} {slot : Option SessionSlot} {m : Addr}
    (h : sc.sessionStore.find slot = some m) (d : DescriptorId) (deferDeallocation : Bool) :
    sc.destroyInstance slot d deferDeallocation = clearSlot sc slot d m deferDeallocation := by
  rw [ScopedContext.destroyInstance, h, clearSlot]
  cases deferDeallocation <;> rfl

theorem setScope_self (b : BeanContext) (n : ScopeId) : b.setScope n (b.scopes n) = b := by
  rw [BeanContext.setScope, Function.update_eq_self]

theorem setScope_setScope (b : BeanContext) (n : ScopeId) (sc sc' : ScopedContext) :
    (b.setScope n sc).setScope n sc' = b.setScope n sc' := by
  simp only [BeanContext.setScope, Function.update_idem]

/-- The scope has got so far, with what is under way in it and the accesses that there have been. -/
def State.at (s : State) (n : ScopeId) (sc : ScopedContext) (act : Activity)
    (accesses : List Access) : State :=
  { s.move n sc act with accesses := accesses }

section At

variable {sc sc' : ScopedContext} {act act' : Activity} {accesses : List Access}

theorem setActivity_eq_at : s.setActivity n act = s.at n (s.scope n) act s.accesses := by
  simp only [State.at, State.move, State.setActivity, State.setContext, State.scope, setScope_self]

theorem at_scope : (s.at n sc act accesses).scope n = sc := Function.update_self ..

theorem at_activity : (s.at n sc act accesses).activity n = act := Function.update_self ..

theorem at_find (d : DescriptorId) :
    (s.at n sc act accesses).find n d = sc.sessionStore.find (s.slotOf d) := by
  rw [State.find, at_scope]
  rfl

theorem at_move : (s.at n sc act accesses).move n sc' act' = s.at n sc' act' accesses := by
  simp only [State.at, State.move, State.setActivity, State.setContext, setScope_setScope,
    Function.update_idem]

theorem at_setActivity :
    (s.at n sc act accesses).setActivity n act' = s.at n sc act' accesses := by
  simp only [State.at, State.move, State.setActivity, State.setContext, Function.update_idem]

theorem at_access_move (d : DescriptorId) :
    ((s.at n sc act accesses).access n d).move n sc' act' = s.at n sc' act'
      (accesses ++ [⟨s.slotOf d, sc.sessionStore.instancesSize⟩]) := by
  simp only [State.at, State.access, State.move, State.setActivity, State.setContext, State.scope,
    BeanContext.setScope, Function.update_idem, Function.update_self]
  rfl

end At

/-- A start stores the instances that are left. -/
theorem leads_stores (outer : List Start) (l : List PendingRuntimeSession) (sc : ScopedContext)
    (accesses : List Access) : ∃ accesses', machine.Leads GoesOn
      (s.at n sc ((s.activity n).setStarts (⟨l, false⟩ :: outer)) accesses)
      (s.at n (l.foldl (fun sc psb => sc.storePending (s.slotOf psb.descId) psb) sc)
        ((s.activity n).setStarts (⟨[], false⟩ :: outer)) accesses') := by
  induction l generalizing sc accesses with
  | nil => exact ⟨accesses, .refl _⟩
  | cons psb rest ih =>
    have hstep : machine.step (s.at n sc ((s.activity n).setStarts (⟨psb :: rest, false⟩ :: outer))
        accesses) (.storeNext n) =
          some (s.at n (sc.storePending (s.slotOf psb.descId) psb)
            ((s.activity n).setStarts (⟨rest, false⟩ :: outer))
            (accesses ++ [⟨s.slotOf psb.descId, sc.sessionStore.instancesSize⟩])) := by
      simp only [machine, step, at_activity, Activity.setStarts, storeStep, at_access_move,
        at_scope]
      rfl
    have hgoes : GoesOn (s.at n sc ((s.activity n).setStarts (⟨psb :: rest, false⟩ :: outer))
        accesses) (.storeNext n) := by
      intro f hf
      rw [at_activity] at hf
      exact Option.some.inj hf ▸ rfl
    obtain ⟨accesses', hleads⟩ := ih (sc.storePending (s.slotOf psb.descId) psb) _
    exact ⟨accesses', (Machine.Leads.single hgoes hstep).trans hleads⟩

/-- A stop destroys the instances that are left. -/
theorem leads_sweep (deferDeallocation : Bool) (l : List DescriptorId) (sc : ScopedContext)
    (accesses : List Access) : ∃ accesses', machine.Leads GoesOn
      (s.at n sc ((s.activity n).setSweep (some ⟨l, none, deferDeallocation⟩)) accesses)
      (s.at n (l.foldl (fun sc d => sc.destroyInstance (s.slotOf d) d deferDeallocation) sc)
        ((s.activity n).setSweep (some ⟨[], none, deferDeallocation⟩)) accesses') := by
  induction l generalizing sc accesses with
  | nil => exact ⟨accesses, .refl _⟩
  | cons d rest ih =>
    have hnext : machine.step (s.at n sc ((s.activity n).setSweep
        (some ⟨d :: rest, none, deferDeallocation⟩)) accesses) (.destroyNext n) =
          some (s.at n sc ((s.activity n).setSweep (some ⟨rest,
            (sc.sessionStore.find (s.slotOf d)).map (d, ·), deferDeallocation⟩)) accesses) := by
      simp only [machine, step, at_activity, Activity.setSweep, destroyStep, at_find,
        at_setActivity]
    rw [List.foldl_cons]
    cases hfind : sc.sessionStore.find (s.slotOf d) with
    | none =>
      rw [hfind] at hnext
      rw [destroyInstance_of_none hfind]
      obtain ⟨accesses', hleads⟩ := ih sc accesses
      exact ⟨accesses', (Machine.Leads.single trivial hnext).trans hleads⟩
    | some m =>
      rw [hfind] at hnext
      rw [destroyInstance_of_some hfind]
      obtain ⟨accesses', hleads⟩ := ih (clearSlot sc (s.slotOf d) d m deferDeallocation)
        (accesses ++ [⟨s.slotOf d, sc.sessionStore.instancesSize⟩])
      refine ⟨accesses', (Machine.Leads.single trivial hnext).trans
        ((Machine.Leads.single (a := .destroyed n) trivial ?_).trans hleads)⟩
      simp only [machine, step, at_activity, Activity.setSweep, Option.map_some, clearStep,
        at_access_move, at_scope]
      rfl

/-- The state after a call that is over. -/
def State.after (s : State) (b : BeanContext) (accesses : List Access) : State :=
  { s.setContext b with accesses := accesses }

theorem at_idle (hidle : s.activity n = {}) (sc : ScopedContext) (accesses : List Access) :
    s.at n sc {} accesses = s.after (s.context.setScope n sc) accesses := by
  have hactivity : update s.activity n {} = s.activity := by rw [← hidle, Function.update_eq_self]
  simp only [State.at, State.after, State.move, State.setActivity, State.setContext, hactivity]

/-- `ScopedContext::start`. -/
theorem leads_runScopeStart (hidle : s.activity n = {})
    (hstopped : (s.scope n).scopeState = .stopped) : ∃ accesses,
      machine.Leads GoesOn s (s.after (s.context.runScopeStart n) accesses) := by
  obtain ⟨accesses, hstores⟩ := leads_stores (s := s) (n := n) []
    (s.scope n).pendingRuntimeSessions
      ((s.scope n).beginStart s.context.core.sessionSlotCount) s.accesses
  have hbegin : machine.step s (.startScope n) =
      some (s.at n ((s.scope n).beginStart s.context.core.sessionSlotCount)
        ((s.activity n).setStarts (⟨(s.scope n).pendingRuntimeSessions, false⟩ :: []))
          s.accesses) := by
    simp only [machine, step, hstopped, if_true, hidle]
    rfl
  refine ⟨accesses, (Machine.Leads.single trivial hbegin).trans (hstores.trans ?_)⟩
  refine .single (a := .startReturns n) (fun f hf => ?_) ?_
  · rw [at_activity] at hf
    exact Option.some.inj hf ▸ rfl
  · simp only [machine, step, at_activity, Activity.setStarts, returnStep, at_scope, at_move]
    rw [hidle]
    exact congrArg some (at_idle hidle _ _)

/-- `Registry::stopScope`. -/
theorem leads_runScopeStop (hidle : s.activity n = {})
    (hrunning : (s.scope n).scopeState = .running) (deferDeallocation : Bool) : ∃ accesses,
      machine.Leads GoesOn s (s.after (s.context.runScopeStop n deferDeallocation) accesses) := by
  obtain ⟨accesses, hsweep⟩ := leads_sweep (s := s) (n := n) deferDeallocation
    (s.scope n).sessionStore.insertionOrder.reverse (s.scope n).beginStop s.accesses
  have hbegin : machine.step s (.stopScope n deferDeallocation) =
      some (s.at n (s.scope n).beginStop ((s.activity n).setSweep
        (some ⟨(s.scope n).sessionStore.insertionOrder.reverse, none, deferDeallocation⟩))
          s.accesses) := by
    simp only [machine, step, hrunning, hidle, true_and, if_true]
    rfl
  refine ⟨accesses, (Machine.Leads.single trivial hbegin).trans (hsweep.trans ?_)⟩
  refine .single (a := .stopReturns n) trivial ?_
  simp only [machine, step, at_activity, Activity.setSweep, at_scope, at_move]
  rw [hidle]
  exact congrArg some (at_idle hidle _ _)

theorem leads_startScope (hidle : s.activity n = {}) : ∃ accesses,
    machine.Leads GoesOn s (s.after (s.context.startScope n).state accesses) := by
  unfold BeanContext.startScope
  cases s.context.core.started with
  | false => exact ⟨s.accesses, .refl s⟩
  | true =>
    cases hstate : (s.context.scopes n).scopeState with
    | running | stopping => exact ⟨s.accesses, .refl s⟩
    | stopped => exact leads_runScopeStart hidle hstate

theorem leads_stopScope (hidle : s.activity n = {}) : ∃ accesses,
    machine.Leads GoesOn s (s.after (s.context.stopScope n) accesses) := by
  unfold BeanContext.stopScope
  split_ifs with hrunning
  · exact leads_runScopeStop hidle hrunning false
  · exact ⟨s.accesses, .refl s⟩

theorem leads_restartScope (hidle : s.activity n = {}) : ∃ accesses,
    machine.Leads GoesOn s (s.after (s.context.restartScope n).state accesses) := by
  unfold BeanContext.restartScope
  split_ifs with hrunning
  · obtain ⟨stopped, hstop⟩ := leads_runScopeStop hidle hrunning true
    obtain ⟨accesses, hstart⟩ := leads_startScope (n := n)
      (s := s.after (s.context.runScopeStop n true) stopped) hidle
    exact ⟨accesses, hstop.trans hstart⟩
  · obtain ⟨stopped, hstop⟩ := leads_stopScope hidle
    obtain ⟨accesses, hstart⟩ := leads_startScope (n := n)
      (s := s.after (s.context.stopScope n) stopped) hidle
    exact ⟨accesses, hstop.trans hstart⟩

/-- Every call on a root or a scope is a run of its steps, when nothing else is under way. -/
theorem leads_exec (hidle : ∀ n, s.activity n = {}) (call : BeanContext.Call) : ∃ accesses,
    machine.Leads GoesOn s (s.after (s.context.exec call).state accesses) := by
  have hroot : rootCall call = true → ∃ accesses,
      machine.Leads GoesOn s (s.after (s.context.exec call).state accesses) := fun h =>
    ⟨s.accesses, .single (a := .root call) trivial (if_pos h)⟩
  cases call with
  | discover | bindSingleton | defaultNamed | clearDefaultNamed | start => exact hroot rfl
  | bindSession n type name priority object =>
    have hactivity : update s.activity n (s.activity n).change = s.activity := by
      rw [hidle, Activity.change, List.map_nil, ← hidle n, Function.update_eq_self]
    obtain ⟨accesses, hstep⟩ : ∃ accesses,
        machine.step s (.bindSession n type name priority object) =
          some (s.after (s.context.bindSession n type name priority object).state accesses) := by
      simp only [machine, step]
      cases (s.context.bindSession n type name priority object).failure with
      | some e => exact ⟨s.accesses, rfl⟩
      | none =>
        simp only [State.accept]
        split_ifs
        · exact ⟨_, rfl⟩
        · refine ⟨s.accesses, congrArg some ?_⟩
          simp only [State.after, State.setActivity, State.setContext, hactivity]
    exact ⟨accesses, .single (a := .bindSession n type name priority object) trivial hstep⟩
  | startScope n => exact leads_startScope (hidle n)
  | stopScope n => exact leads_stopScope (hidle n)
  | restartScope n => exact leads_restartScope (hidle n)

/-- Calls one after another. -/
theorem leads_execAll (hidle : ∀ n, s.activity n = {}) (calls : List BeanContext.Call) :
    ∃ accesses, machine.Leads GoesOn s (s.after (s.context.execAll calls) accesses) := by
  induction calls generalizing s with
  | nil => exact ⟨s.accesses, .refl s⟩
  | cons call calls ih =>
    obtain ⟨called, hcall⟩ := leads_exec hidle call
    obtain ⟨accesses, hcalls⟩ := ih (s := s.after (s.context.exec call).state called) hidle
    exact ⟨accesses, hcall.trans hcalls⟩

/-- After the first start of a root, no call makes two session beans share a slot. -/
theorem slotsDistinct_execAll (hinit : machine.Init s) (calls : List BeanContext.Call) :
    SlotsDistinct (s.context.execAll calls).core := by
  have hidle : ∀ n, s.activity n = {} := by
    obtain ⟨H, S, self, calls, -, -, -, rfl⟩ := hinit
    exact fun n => rfl
  obtain ⟨_, hcalls⟩ := leads_execAll hidle calls
  exact (Inv.reachable ((Machine.ReachableBy.init hinit).leads hcalls)).inBounds.slots

end Ctorium.SessionBounds

namespace Ctorium.Sessions

open SessionBounds (GoesOn)

/-! ## Steps -/

/-- What is under way, as `SessionBounds` has it: no start of the scope is nested in another one. -/
def Activity.toBounds (act : Activity) : SessionBounds.Activity where
  starts := act.starting.toList.map fun rest => ⟨rest, false⟩
  sweep := act.sweep.map fun sweep => ⟨sweep.order, none, sweep.deferDeallocation⟩
  materializing := act.materializing

/-- The root and its scopes, without the handles and the lives of the instances. -/
def State.toBounds (s : State) (accesses : List SessionBounds.Access) : SessionBounds.State where
  context := s.context
  activity n := (s.activity n).toBounds
  accesses := accesses

/-- No listener binds on the scope whose start has called it, and beans are materialized under
    their primaries. -/
def Plain (s : State) : Action → Prop
  | .bindSession n .. => (s.activity n).starting = none
  | .materialize _ p => s.primaryOf p = p
  | _ => True

/-- A run of `SessionBounds` leads there, of which the starts go on with their vectors. -/
def Leads (s : State) (accesses : List SessionBounds.Access) (t : State) : Prop :=
  ∃ accesses', SessionBounds.machine.Leads GoesOn (s.toBounds accesses) (t.toBounds accesses')

variable {s t : State} {n : ScopeId} {accesses : List SessionBounds.Access}

theorem toBounds_activity : (s.toBounds accesses).activity n = (s.activity n).toBounds := rfl

/-- The handles and the lives of the instances are not seen. -/
theorem toBounds_setActivity {act : Activity} (h : act.toBounds = (s.activity n).toBounds) :
    (s.setActivity n act).toBounds accesses = s.toBounds accesses := by
  have hmap : (fun k => (Function.update s.activity n act k).toBounds) =
      fun k => (s.activity k).toBounds := by
    funext k
    by_cases hk : k = n
    · rw [hk, Function.update_self, h]
    · rw [Function.update_of_ne hk]
  simp only [State.toBounds, State.setActivity, hmap]

theorem toBounds_bind (d : DescriptorId) (object : Addr) :
    (s.bind n d object).toBounds accesses = s.toBounds accesses := by
  unfold State.bind
  dsimp only
  split_ifs
  · exact toBounds_setActivity rfl
  · rfl

/-- One scope has moved on. -/
theorem toBounds_eq_at {sc : ScopedContext} {act : Activity}
    (hcontext : t.context = s.context.setScope n sc)
    (hactivity : t.activity = Function.update s.activity n act)
    (accesses' : List SessionBounds.Access) :
    t.toBounds accesses' = (s.toBounds accesses).at n sc act.toBounds accesses' := by
  have hmap : (fun k => (t.activity k).toBounds) =
      Function.update (fun k => (s.activity k).toBounds) n act.toBounds := by
    funext k
    rw [hactivity]
    exact Function.apply_update (fun _ => Activity.toBounds) ..
  simp only [State.toBounds, SessionBounds.State.at, SessionBounds.State.move,
    SessionBounds.State.setActivity, SessionBounds.State.setContext, hcontext, hmap]

theorem leads_of_move {a : SessionBounds.Action} {sc : ScopedContext} {act : Activity}
    (accesses' : List SessionBounds.Access) (hcontext : t.context = s.context.setScope n sc)
    (hactivity : t.activity = Function.update s.activity n act)
    (hgoes : GoesOn (s.toBounds accesses) a)
    (hstep : SessionBounds.step (s.toBounds accesses) a =
      some ((s.toBounds accesses).at n sc act.toBounds accesses')) : Leads s accesses t :=
  ⟨accesses', .single hgoes
    (hstep.trans (congrArg some (toBounds_eq_at hcontext hactivity accesses').symm))⟩

/-- What is under way in one scope has moved on. -/
theorem leads_of_setActivity {a : SessionBounds.Action} {act : Activity}
    (hcontext : t.context = s.context)
    (hactivity : t.activity = Function.update s.activity n act)
    (hgoes : GoesOn (s.toBounds accesses) a)
    (hstep : SessionBounds.step (s.toBounds accesses) a =
      some ((s.toBounds accesses).setActivity n act.toBounds)) : Leads s accesses t :=
  leads_of_move accesses (hcontext.trans (SessionBounds.setScope_self ..).symm) hactivity hgoes
    (hstep.trans (congrArg some SessionBounds.setActivity_eq_at))

/-- A binding: no start of the scope is under way, whose vector it would change. -/
theorem leads_of_bindSession {type : CppType} {name : String} {priority : ℤ} {object : Addr}
    (hstarting : (s.activity n).starting = none)
    (hstep : step s (.bindSession n type name priority object) = some t) : Leads s accesses t := by
  obtain ⟨-, hstep⟩ := Option.ite_none_right_eq_some.mp hstep
  have hstarts : (s.activity n).toBounds.starts = [] := by rw [Activity.toBounds, hstarting]; rfl
  have hcontext : (s.toBounds accesses).context = s.context := rfl
  cases hfail : (s.context.bindSession n type name priority object).failure with
  | some e =>
    simp only [hfail] at hstep
    obtain ⟨⟩ := Option.some.inj hstep
    refine ⟨accesses, .single (a := .bindSession n type name priority object) trivial ?_⟩
    simp only [SessionBounds.machine, SessionBounds.step, hcontext, hfail]
    rfl
  | none =>
    simp only [hfail] at hstep
    obtain ⟨⟩ := Option.some.inj hstep
    obtain ⟨accesses', hbounds⟩ : ∃ accesses', SessionBounds.machine.step (s.toBounds accesses)
        (.bindSession n type name priority object) = some ((s.setContext (s.context.bindSession n
          type name priority object).state).toBounds accesses') := by
      simp only [SessionBounds.machine, SessionBounds.step, hcontext, hfail,
        SessionBounds.State.accept]
      split_ifs
      · exact ⟨_, rfl⟩
      · refine ⟨accesses, congrArg some ?_⟩
        have hchange : ∀ act : SessionBounds.Activity, act.starts = [] → act.change = act := by
          rintro ⟨⟩ rfl
          rfl
        have hactivity : Function.update (s.toBounds accesses).activity n
            ((s.toBounds accesses).activity n).change = (s.toBounds accesses).activity := by
          rw [toBounds_activity, hchange _ hstarts, ← toBounds_activity, Function.update_eq_self]
        simp only [SessionBounds.State.setActivity, SessionBounds.State.setContext, hactivity]
        rfl
    refine ⟨accesses', .single (a := .bindSession n type name priority object) trivial ?_⟩
    rw [toBounds_bind]
    exact hbounds

/-- The instance that is destroyed next, or what has been left by an exception. -/
theorem leads_of_destroyNext (hstep : step s (.destroyNext n) = some t) : Leads s accesses t := by
  rw [step] at hstep
  split at hstep
  · rename_i d rest deferDeallocation hs
    obtain ⟨⟩ := Option.some.inj hstep
    have hsweep : (s.activity n).toBounds.sweep = some ⟨d :: rest, none, deferDeallocation⟩ := by
      rw [Activity.toBounds, hs]
      rfl
    have hnext : SessionBounds.machine.step (s.toBounds accesses) (.destroyNext n) =
        some ((s.toBounds accesses).at n (s.scope n) ((s.activity n).toBounds.setSweep (some ⟨rest,
          (s.find n d).map (d, ·), deferDeallocation⟩)) accesses) := by
      simp only [SessionBounds.machine, SessionBounds.step, toBounds_activity, hsweep,
        SessionBounds.destroyStep, SessionBounds.setActivity_eq_at]
      rfl
    cases hfind : s.find n d with
    | none =>
      rw [hfind] at hnext
      refine leads_of_move (a := .destroyNext n) accesses rfl rfl trivial ?_
      rw [SessionBounds.destroyInstance_of_none hfind]
      exact hnext
    | some m =>
      rw [hfind] at hnext
      refine ⟨accesses ++ [⟨s.slotOf d, (s.scope n).sessionStore.instancesSize⟩],
        (Machine.Leads.single (a := .destroyNext n) trivial hnext).trans
          (.single (a := .destroyed n) trivial ?_)⟩
      rw [toBounds_eq_at (s := s) (t := destroyStep s n d ⟨rest, deferDeallocation⟩) rfl rfl,
        SessionBounds.destroyInstance_of_some hfind]
      simp only [SessionBounds.machine, SessionBounds.step, SessionBounds.at_activity,
        SessionBounds.Activity.setSweep, SessionBounds.clearStep, SessionBounds.at_access_move,
        SessionBounds.at_scope]
      rfl
  · cases hstep

/-- Every step of `Sessions` is a run of steps of `SessionBounds`, of which a start goes on with
    the vector that it began with. -/
theorem leads_of_step {a : Action} (hplain : Plain s a) (hstep : step s a = some t) :
    Leads s accesses t := by
  cases a with
  | root call =>
    obtain ⟨hroot, ⟨⟩⟩ := Option.ite_none_right_eq_some.mp hstep
    exact ⟨accesses, .single (a := .root call) trivial (if_pos hroot)⟩
  | resolveScope key =>
    obtain ⟨⟩ := Option.some.inj hstep
    exact ⟨accesses, .single (a := .resolveScope key) trivial rfl⟩
  | bindSession n type name priority object => exact leads_of_bindSession hplain hstep
  | startScope n =>
    obtain ⟨⟨hstopped, hstarting⟩, ⟨⟩⟩ := Option.ite_none_right_eq_some.mp hstep
    have hstarts : (s.activity n).toBounds.starts = [] := by rw [Activity.toBounds, hstarting]; rfl
    refine leads_of_move (a := .startScope n) accesses rfl rfl trivial ((if_pos hstopped).trans ?_)
    rw [toBounds_activity, hstarts]
    rfl
  | storeNext n =>
    rw [step] at hstep
    split at hstep
    · rename_i psb rest hstarting
      obtain ⟨⟩ := Option.some.inj hstep
      have hstarts : (s.activity n).toBounds.starts = [⟨psb :: rest, false⟩] := by
        rw [Activity.toBounds, hstarting]
        rfl
      refine leads_of_move (a := .storeNext n)
        (accesses ++ [⟨s.slotOf psb.descId, (s.scope n).sessionStore.instancesSize⟩]) rfl rfl
          (fun f hf => ?_) ?_
      · rw [toBounds_activity, hstarts] at hf
        exact Option.some.inj hf ▸ rfl
      · simp only [SessionBounds.step, toBounds_activity, hstarts]
        rfl
    · cases hstep
  | startReturns n =>
    obtain ⟨hstarting, ⟨⟩⟩ := Option.ite_none_right_eq_some.mp hstep
    have hstarts : (s.activity n).toBounds.starts = [⟨[], false⟩] := by
      rw [Activity.toBounds, hstarting]
      rfl
    refine leads_of_move (a := .startReturns n) accesses rfl rfl (fun f hf => ?_) ?_
    · rw [toBounds_activity, hstarts] at hf
      exact Option.some.inj hf ▸ rfl
    · simp only [SessionBounds.step, toBounds_activity, hstarts]
      rfl
  | startThrows n =>
    obtain ⟨hstarting, ⟨⟩⟩ := Option.ite_none_right_eq_some.mp hstep
    obtain ⟨rest, hrest⟩ := Option.isSome_iff_exists.mp hstarting
    have hstarts : (s.activity n).toBounds.starts = [⟨rest, false⟩] := by
      rw [Activity.toBounds, hrest]
      rfl
    refine leads_of_setActivity (a := .startThrows n) rfl rfl trivial ?_
    simp only [SessionBounds.step, toBounds_activity, hstarts]
    rfl
  | stopScope n deferDeallocation =>
    obtain ⟨⟨hrunning, hquiet⟩, ⟨⟩⟩ := Option.ite_none_right_eq_some.mp hstep
    have hmaterializing : (s.activity n).materializing = [] :=
      List.isEmpty_iff.mp (Bool.and_eq_true_iff.mp hquiet).1
    exact leads_of_move (a := .stopScope n deferDeallocation) accesses rfl rfl trivial
      (if_pos ⟨hrunning, hmaterializing⟩)
  | destroyNext n => exact leads_of_destroyNext hstep
  | stopReturns n =>
    rw [step] at hstep
    split at hstep
    · rename_i deferDeallocation hs
      obtain ⟨⟩ := Option.some.inj hstep
      have hsweep : (s.activity n).toBounds.sweep = some ⟨[], none, deferDeallocation⟩ := by
        rw [Activity.toBounds, hs]
        rfl
      refine leads_of_move (a := .stopReturns n) accesses rfl rfl trivial ?_
      simp only [SessionBounds.step, toBounds_activity, hsweep]
      rfl
    · cases hstep
  | materialize n p =>
    obtain ⟨⟨hrunning, hlifetime, hfind, hmaterialize⟩, ⟨⟩⟩ :=
      Option.ite_none_right_eq_some.mp hstep
    have hprimary : (s.toBounds accesses).primaryOf p = p := hplain
    obtain ⟨hbound, hmem⟩ : s.bound p = false ∧ p ∉ (s.activity n).materializing := by
      unfold materializeSession at hmaterialize
      split_ifs at hmaterialize with hbound hmem
      exact ⟨Bool.eq_false_of_not_eq_true hbound, hmem⟩
    refine leads_of_setActivity (a := .materialize n p) rfl rfl trivial ?_
    simp only [SessionBounds.step, hprimary]
    exact (if_pos ⟨hrunning, hlifetime, hfind, hbound, hmem⟩).trans rfl
  | constructed n p m =>
    obtain ⟨⟨hmem, -⟩, ⟨⟩⟩ := Option.ite_none_right_eq_some.mp hstep
    refine leads_of_move (a := .constructed n p m)
      (accesses ++ [⟨s.slotOf p, (s.scope n).sessionStore.instancesSize⟩]) rfl rfl trivial ?_
    exact (if_pos hmem).trans rfl
  | constructorThrows n p =>
    obtain ⟨hmem, ⟨⟩⟩ := Option.ite_none_right_eq_some.mp hstep
    exact leads_of_setActivity (a := .constructorThrows n p) rfl rfl trivial (if_pos hmem)
  | returns n p m =>
    obtain ⟨-, ⟨⟩⟩ := Option.ite_none_right_eq_some.mp hstep
    have hsame : (s.setActivity n ((s.activity n).setReturning
        ((s.activity n).returning.erase (p, m)))).toBounds accesses = s.toBounds accesses :=
      toBounds_setActivity rfl
    exact ⟨accesses, hsame ▸ .refl _⟩
  | resolve n type nameId d =>
    obtain ⟨-, ⟨⟩⟩ := Option.ite_none_right_eq_some.mp hstep
    exact ⟨accesses, .refl _⟩
  | inject scopeName type nameId d =>
    obtain ⟨-, ⟨⟩⟩ := Option.ite_none_right_eq_some.mp hstep
    exact ⟨accesses, .single (a := .resolveScope scopeName) trivial rfl⟩
  | cast h uid =>
    obtain ⟨-, hstep⟩ := Option.ite_none_right_eq_some.mp hstep
    split at hstep
    · obtain ⟨⟩ := Option.some.inj hstep
      exact ⟨accesses, .refl _⟩
    · cases hstep
  | observe n p =>
    obtain ⟨-, ⟨⟩⟩ := Option.ite_none_right_eq_some.mp hstep
    exact ⟨accesses, .refl _⟩
  | observeBound n d =>
    rw [step] at hstep
    split at hstep
    · obtain ⟨-, ⟨⟩⟩ := Option.ite_none_right_eq_some.mp hstep
      exact ⟨accesses, .refl _⟩
    · cases hstep

/-! ## Runs -/

/-- A run whose starts are not disturbed is followed by one of `SessionBounds`. -/
theorem exists_bounds (h : machine.Leads Plain s t) : Leads s accesses t := by
  induction h with
  | refl => exact ⟨accesses, .refl _⟩
  | tail _ hlast ih =>
    obtain ⟨_, hfollowed⟩ := ih
    obtain ⟨a, hplain, hstep⟩ := hlast
    obtain ⟨accesses', hlast⟩ := leads_of_step hplain hstep
    exact ⟨accesses', hfollowed.trans hlast⟩

/-- After the first start of a root, the session slots stay distinct and below their count. -/
theorem slotsDistinct_of_leads (hinit : SessionBounds.machine.Init (s.toBounds []))
    (h : machine.Leads Plain s t) : SessionBounds.SlotsDistinct t.context.core := by
  have hleads : Leads s [] t := exists_bounds h
  obtain ⟨_, hfollowed⟩ := hleads
  have hreach := (Machine.ReachableBy.init hinit).leads hfollowed
  exact (SessionBounds.Inv.reachable hreach).inBounds.slots

end Ctorium.Sessions
