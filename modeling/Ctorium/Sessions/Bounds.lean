import Ctorium.Registry.Lifetimes
import Ctorium.Sessions.Tracking

/-!
# Session slots in bounds

Session slots are numbered over all descriptors of a root, while the array of a scope is
sized when the scope is started, and grown only by a binding in the running scope. A
start stores the pending instances one by one and dispatches the creation events of each,
so that listeners run before the scope is `Running`; they may call any function of the
root and of its scopes, also of the scope that is being started. A start iterates over
the vector of pending bindings itself: a binding that a listener makes then is appended
to it, and a further start of the scope that a listener makes clears it.

* `slots_in_bounds`: in every run in which a start goes on only with the vector that it
  began with, the slots of session beans are distinct and below the count, and all
  accesses lie in the array;
* `restarted_in_start_out_of_bounds`: a listener that starts and stops the scope whose
  start has called it leaves a running scope without an array.

`Sessions.Simulation` shows that the steps of `Sessions` are runs of these.
-/

namespace Ctorium.SessionBounds

open Function (update)
open Sessions (Grows SameSession Bound rootCall boundSession)

/-! ## State -/

/-- A start under way. -/
structure Start where
  /-- The pending bindings that it has not stored yet. -/
  rest : List PendingRuntimeSession
  /-- The vector of pending bindings has been changed since the start began. -/
  changed : Bool := false
  deriving DecidableEq

/-- A stop under way: the descriptors whose instances are still to be destroyed, the next one
    first, and the instance that is being destroyed. -/
structure Sweep where
  order : List DescriptorId
  destroying : Option (DescriptorId × Addr) := none
  deferDeallocation : Bool
  deriving DecidableEq

/-- What is under way in a scope. -/
structure Activity where
  /-- The starts under way, the innermost first. -/
  starts : List Start := []
  sweep : Option Sweep := none
  /-- The primaries whose constructors are running. -/
  materializing : List DescriptorId := []

/-- An access of `SessionStore::store` or `nullSlot` to the array, of the size that the store has
    at this moment. -/
structure Access where
  slot : Option SessionSlot
  size : ℕ
  deriving DecidableEq

/-- The access lies in the array. -/
def Access.InBounds (access : Access) : Prop := ∃ slot, access.slot = some slot ∧ slot < access.size

instance (access : Access) : Decidable access.InBounds :=
  decidable_of_iff (∃ slot ∈ access.slot, slot < access.size) Iff.rfl

/-- The state of a root with its scopes, and the accesses to the arrays that there have been. -/
structure State where
  context : BeanContext
  activity : ScopeId → Activity := fun _ => {}
  accesses : List Access := []

namespace State

variable (s : State)

def scope (n : ScopeId) : ScopedContext := s.context.scopes n

def slotOf (d : DescriptorId) : Option SessionSlot := s.context.core.sessionSlotOf d

def primaryOf (d : DescriptorId) : DescriptorId := Wiring.primaryOf s.context d

/-- The descriptor is of a bound instance. -/
def bound (d : DescriptorId) : Bool :=
  s.context.core.descriptors[d]?.any fun desc => desc.origin == .runtimeBinding

/-- The instance that the store of the scope has for a descriptor. -/
def find (n : ScopeId) (d : DescriptorId) : Option Addr :=
  (s.scope n).sessionStore.find (s.slotOf d)

def setContext (b : BeanContext) : State := { s with context := b }

def setActivity (n : ScopeId) (act : Activity) : State :=
  { s with activity := update s.activity n act }

/-- A scope moves on. -/
def move (n : ScopeId) (sc : ScopedContext) (act : Activity) : State :=
  (s.setContext (s.context.setScope n sc)).setActivity n act

/-- The store of a scope accesses the slot of a descriptor. -/
def access (n : ScopeId) (d : DescriptorId) : State :=
  { s with accesses := s.accesses ++ [⟨s.slotOf d, (s.scope n).sessionStore.instancesSize⟩] }

end State

/-! ## Steps -/

/-- The vector of pending bindings changes. -/
def Activity.change (act : Activity) : Activity :=
  { act with starts := act.starts.map fun f => { f with changed := true } }

def Activity.setStarts (act : Activity) (starts : List Start) : Activity :=
  { act with starts := starts }

def Activity.setSweep (act : Activity) (sweep : Option Sweep) : Activity :=
  { act with sweep := sweep }

def Activity.setMaterializing (act : Activity) (materializing : List DescriptorId) : Activity :=
  { act with materializing := materializing }

/-- The steps of the calls on a root and its scopes, and of the callbacks that they dispatch. -/
inductive Action
  | root (call : BeanContext.Call)
  | resolveScope (key : String)
  | bindSession (n : ScopeId) (type : CppType) (name : String) (priority : ℤ) (object : Addr)
  /-- `ScopedContext::start` begins, stores the next pending instance, returns, or passes on an
      exception of a listener. -/
  | startScope (n : ScopeId)
  | storeNext (n : ScopeId)
  | startReturns (n : ScopeId)
  | startThrows (n : ScopeId)
  /-- `Registry::stopScope` begins, for a stop or a restart, begins to destroy the next instance,
      has destroyed it, or returns. -/
  | stopScope (n : ScopeId) (deferDeallocation : Bool)
  | destroyNext (n : ScopeId)
  | destroyed (n : ScopeId)
  | stopReturns (n : ScopeId)
  /-- A materialization of a session bean begins, and its constructor returns the object at `m`
      or throws. -/
  | materialize (n : ScopeId) (d : DescriptorId)
  | constructed (n : ScopeId) (p : DescriptorId) (m : Addr)
  | constructorThrows (n : ScopeId) (p : DescriptorId)

/-- A binding that is accepted: the instance is stored in a running scope, and is pending in
    another one. -/
def State.accept (s : State) (n : ScopeId) (d : DescriptorId) : State :=
  if (s.scope n).scopeState = .running then s.access n d
  else s.setActivity n (s.activity n).change

/-- The instance has been destroyed: its memory is retired if it is to be kept, and its slot is
    cleared. -/
def clearSlot (sc : ScopedContext) (slot : Option SessionSlot) (d : DescriptorId) (m : Addr)
    (deferDeallocation : Bool) : ScopedContext :=
  let retired := if deferDeallocation then sc.sessionStore.retireDeallocation d m
    else sc.sessionStore
  { sc with sessionStore := retired.nullSlot slot }

/-- A start stores the next pending instance. -/
def storeStep (s : State) (n : ScopeId) (psb : PendingRuntimeSession) (start : Start)
    (outer : List Start) : State :=
  (s.access n psb.descId).move n ((s.scope n).storePending (s.slotOf psb.descId) psb)
    ((s.activity n).setStarts (start :: outer))

/-- A start returns, and has cleared the pending bindings. -/
def returnStep (s : State) (n : ScopeId) (outer : List Start) : State :=
  s.move n (s.scope n).finishStart ((s.activity n).setStarts outer).change

/-- A stop begins with the next instance. One that is not stored is passed over. -/
def destroyStep (s : State) (n : ScopeId) (d : DescriptorId) (order : List DescriptorId)
    (deferDeallocation : Bool) : State :=
  s.setActivity n ((s.activity n).setSweep
    (some ⟨order, (s.find n d).map (d, ·), deferDeallocation⟩))

/-- A stop has destroyed an instance. -/
def clearStep (s : State) (n : ScopeId) (d : DescriptorId) (m : Addr) (sweep : Sweep) : State :=
  (s.access n d).move n (clearSlot (s.scope n) (s.slotOf d) d m sweep.deferDeallocation)
    ((s.activity n).setSweep (some { sweep with destroying := none }))

/-- The constructor has returned: the instance is stored, and the claim ends. -/
def constructedStep (s : State) (n : ScopeId) (p : DescriptorId) (m : Addr) : State :=
  (s.access n p).move n ((s.scope n).storePending (s.slotOf p) ⟨p, m⟩)
    ((s.activity n).setMaterializing ((s.activity n).materializing.erase p))

/-- One step. A step that is not enabled has no successor; calls that a scope refuses because of
    its state change nothing, and are no steps. A scope is not stopped while one of its beans is
    being constructed. -/
def step (s : State) : Action → Option State
  | .root call => if rootCall call then some (s.setContext (s.context.exec call).state) else none
  | .resolveScope key => some (s.setContext (s.context.withCore
      (s.context.core.withNames (s.context.core.nameInterning.intern key).2)))
  | .bindSession n type name priority object =>
    let attempt := s.context.bindSession n type name priority object
    match attempt.failure with
    | none => some ((s.setContext attempt.state).accept n
        (boundSession s.context type name priority).1)
    | some _ => some (s.setContext attempt.state)
  | .startScope n =>
    if (s.scope n).scopeState = .stopped then
      some (s.move n ((s.scope n).beginStart s.context.core.sessionSlotCount)
        ((s.activity n).setStarts (⟨(s.scope n).pendingRuntimeSessions, false⟩ ::
          (s.activity n).starts)))
    else none
  | .storeNext n =>
    match (s.activity n).starts with
    | ⟨psb :: rest, changed⟩ :: outer => some (storeStep s n psb ⟨rest, changed⟩ outer)
    | _ => none
  | .startReturns n =>
    match (s.activity n).starts with
    | ⟨[], _⟩ :: outer => some (returnStep s n outer)
    | _ => none
  | .startThrows n =>
    match (s.activity n).starts with
    | _ :: outer => some (s.setActivity n ((s.activity n).setStarts outer))
    | [] => none
  | .stopScope n deferDeallocation =>
    if (s.scope n).scopeState = .running ∧ (s.activity n).materializing = [] then
      some (s.move n (s.scope n).beginStop ((s.activity n).setSweep
        (some ⟨(s.scope n).sessionStore.insertionOrder.reverse, none, deferDeallocation⟩)))
    else none
  | .destroyNext n =>
    match (s.activity n).sweep with
    | some ⟨d :: order, none, deferDeallocation⟩ =>
      some (destroyStep s n d order deferDeallocation)
    | _ => none
  | .destroyed n =>
    match (s.activity n).sweep with
    | some ⟨order, some (d, m), deferDeallocation⟩ =>
      some (clearStep s n d m ⟨order, some (d, m), deferDeallocation⟩)
    | _ => none
  | .stopReturns n =>
    match (s.activity n).sweep with
    | some ⟨[], none, deferDeallocation⟩ =>
      some (s.move n ((s.scope n).finishStop deferDeallocation) ((s.activity n).setSweep none))
    | _ => none
  | .materialize n d =>
    if (s.scope n).scopeState = .running ∧ Wiring.lifetimeOf s.context d = some .session ∧
        s.find n (s.primaryOf d) = none ∧ s.bound (s.primaryOf d) = false ∧
        s.primaryOf d ∉ (s.activity n).materializing then
      some (s.setActivity n
        ((s.activity n).setMaterializing (s.primaryOf d :: (s.activity n).materializing)))
    else none
  | .constructed n p m =>
    if p ∈ (s.activity n).materializing then some (constructedStep s n p m) else none
  | .constructorThrows n p =>
    if p ∈ (s.activity n).materializing then
      some (s.setActivity n
        ((s.activity n).setMaterializing ((s.activity n).materializing.erase p)))
    else none

/-- The runs begin when a first start of a root has succeeded. Types have been discovered before,
    and instances may have been bound on the scopes. -/
def machine : Machine State Action where
  Init s := ∃ H S self calls, BeanContext.DiscoversTypes H calls ∧
    ((BeanContext.fresh S self).execAll calls).core.started = false ∧
    ((BeanContext.fresh S self).execAll calls).start.failure = none ∧
    s = { context := ((BeanContext.fresh S self).execAll calls).start.state }
  step := step

/-- All session beans of the registry have slots below the count, and no two have the same. -/
structure SlotsDistinct (r : Registry) : Prop where
  below : ∀ d, r.descriptors[d]?.map Descriptor.lifetime = some .session →
    ∃ slot, r.sessionSlotOf d = some slot ∧ slot < r.sessionSlotCount
  distinct : ∀ d d' slot, r.sessionSlotOf d = some slot → r.sessionSlotOf d' = some slot → d = d'

/-- The session slots are in bounds, and so have been all accesses. -/
structure InBounds (s : State) : Prop where
  slots : SlotsDistinct s.context.core
  accesses : ∀ access ∈ s.accesses, access.InBounds

/-- A start goes on, with its next instance or to its end, only if the vector of pending bindings
    has not been changed since it began. -/
def GoesOn (s : State) : Action → Prop
  | .storeNext n => ∀ f ∈ (s.activity n).starts.head?, f.changed = false
  | .startReturns n => ∀ f ∈ (s.activity n).starts.head?, f.changed = false
  | _ => True

instance (s : State) (a : Action) : Decidable (GoesOn s a) := by
  unfold GoesOn
  split <;> infer_instance

/-! ## Places in an array -/

/-- The bean has a slot, and a place in the array. -/
def HasPlace (r : Registry) (ss : SessionStore) (d : DescriptorId) : Prop :=
  ∃ slot, r.sessionSlotOf d = some slot ∧ slot < ss.instancesSize

/-- All session beans but the bound ones have a place in the array. -/
def Sized (r : Registry) (ss : SessionStore) : Prop :=
  ∀ d, r.sessionSlotOf d ≠ none → ¬Bound r d → HasPlace r ss d

section Places

variable {r r' : Registry} {ss ss' : SessionStore} {d : DescriptorId}

theorem HasPlace.mono (h : HasPlace r ss d) (hsize : ss.instancesSize ≤ ss'.instancesSize) :
    HasPlace r ss' d := by
  obtain ⟨slot, hslot, hlt⟩ := h
  exact ⟨slot, hslot, hlt.trans_le hsize⟩

theorem Sized.mono (h : Sized r ss) (hsize : ss.instancesSize ≤ ss'.instancesSize) :
    Sized r ss' := fun d hslot hbound => (h d hslot hbound).mono hsize

theorem HasPlace.grow (h : HasPlace r ss d) (hgrows : Grows r r') : HasPlace r' ss d := by
  obtain ⟨slot, hslot, hlt⟩ := h
  exact ⟨slot, hgrows.slotOf hslot, hlt⟩

/-- Beans that the root gets later are bound ones. -/
theorem Sized.grow (h : Sized r ss) (hgrows : Grows r r') : Sized r' ss := by
  intro d hslot hbound
  obtain ⟨slot, hslot⟩ := Option.ne_none_iff_exists'.mp hslot
  rcases hgrows.slotOf_cases hslot with hold | ⟨-, -, hnew⟩
  · have hne : r.sessionSlotOf d ≠ none := hold ▸ nofun
    exact (h d hne fun hb => hbound ((hgrows.bound_iff hne).mpr hb)).grow hgrows
  · exact absurd hnew hbound

/-- A fresh array has a place for every session bean that there is. -/
theorem hasPlace_resize (hbelow : r.SlotsBelow) (ss : SessionStore)
    (hslot : r.sessionSlotOf d ≠ none) : HasPlace r (ss.resize r.sessionSlotCount) d := by
  obtain ⟨slot, hslot⟩ := Option.ne_none_iff_exists'.mp hslot
  exact ⟨slot, hslot, hbelow.lt_of_slotOf hslot⟩

/-- An array that is grown for a bean has a place for it. -/
theorem hasPlace_growAndStore (ss : SessionStore) (hslot : r.sessionSlotOf d ≠ none) (m : Addr) :
    HasPlace r (ss.growAndStore (r.sessionSlotOf d) d m) d := by
  obtain ⟨slot, hslot⟩ := Option.ne_none_iff_exists'.mp hslot
  refine ⟨slot, hslot, ?_⟩
  rw [hslot]
  exact (Nat.lt_succ_self slot).trans_le (le_max_right _ _)

theorem hasPlace_of_find {m : Addr} (h : ss.find (r.sessionSlotOf d) = some m) :
    HasPlace r ss d := by
  cases hslot : r.sessionSlotOf d with
  | none =>
    rw [hslot] at h
    cases h
  | some slot =>
    rw [hslot, SessionStore.find] at h
    split_ifs at h with hlt
    exact ⟨slot, hslot, hlt⟩

end Places

/-! ## The invariant -/

/-- The array of a scope fits what is under way in it. -/
structure Fits (r : Registry) (sc : ScopedContext) (act : Activity) : Prop where
  /-- A start that can go on has places for what it still has to store. -/
  starts : ∀ f ∈ act.starts, f.changed = false → sc.scopeState = .stopped ∧
    Sized r sc.sessionStore ∧ ∀ psb ∈ f.rest, HasPlace r sc.sessionStore psb.descId
  live : sc.scopeState ≠ .stopped → Sized r sc.sessionStore
  sweep : ∀ sweep, act.sweep = some sweep → sc.scopeState = .stopping ∧
    ∀ d m, sweep.destroying = some (d, m) → HasPlace r sc.sessionStore d
  materializing : ∀ p ∈ act.materializing, sc.scopeState = .running ∧
    r.sessionSlotOf p ≠ none ∧ ¬Bound r p

section Fits

variable {r r' : Registry} {sc sc' : ScopedContext} {act : Activity}

/-- Nothing of the scope changes while the root and other scopes move on. -/
theorem Fits.frame (h : Fits r sc act) (hgrows : Grows r r') (hsame : SameSession sc sc') :
    Fits r' sc' act := by
  obtain ⟨hstore, -, hstate⟩ := hsame
  refine ⟨fun f hf hc => ?_, ?_, fun sweep hs => ?_, fun p hp => ?_⟩
  · rw [hstate, hstore]
    obtain ⟨hstopped, hsized, hrest⟩ := h.starts f hf hc
    exact ⟨hstopped, hsized.grow hgrows, fun psb hpsb => (hrest psb hpsb).grow hgrows⟩
  · rw [hstate, hstore]
    exact fun hs => (h.live hs).grow hgrows
  · rw [hstate, hstore]
    obtain ⟨hstopping, hplace⟩ := h.sweep sweep hs
    exact ⟨hstopping, fun d m hd => (hplace d m hd).grow hgrows⟩
  · rw [hstate]
    obtain ⟨hrunning, hslot, hbound⟩ := h.materializing p hp
    exact ⟨hrunning, hgrows.slotOf_ne_none hslot,
      fun hb => hbound ((hgrows.bound_iff hslot).mp hb)⟩

/-- A binding on a scope that is not running. -/
theorem Fits.bindPending (h : Fits r sc act) (psbs : List PendingRuntimeSession) :
    Fits r { sc with pendingRuntimeSessions := psbs } act.change := by
  refine ⟨fun f hf hc => ?_, h.live, h.sweep, h.materializing⟩
  obtain ⟨f', -, rfl⟩ := List.mem_map.mp hf
  cases hc

/-- A binding on a running scope. -/
theorem Fits.bindRunning (h : Fits r sc act) (hrunning : sc.scopeState = .running)
    {ss : SessionStore} (hsize : sc.sessionStore.instancesSize ≤ ss.instancesSize) :
    Fits r { sc with sessionStore := ss } act := by
  refine ⟨fun f hf hc => ?_, fun hs => (h.live hs).mono hsize, fun sweep hs => ?_,
    h.materializing⟩
  · have hstopped := (h.starts f hf hc).1
    rw [hrunning] at hstopped
    cases hstopped
  · have hstopping := (h.sweep sweep hs).1
    rw [hrunning] at hstopping
    cases hstopping

/-- In a stopped scope, nothing but starts is under way. -/
theorem Fits.idle (h : Fits r sc act) (hstopped : sc.scopeState = .stopped) :
    act.sweep = none ∧ act.materializing = [] := by
  constructor
  · by_contra hsome
    obtain ⟨sweep, hs⟩ := Option.ne_none_iff_exists'.mp hsome
    have hstopping := (h.sweep sweep hs).1
    rw [hstopped] at hstopping
    cases hstopping
  · refine List.eq_nil_iff_forall_not_mem.mpr fun p hp => ?_
    have hrunning := (h.materializing p hp).1
    rw [hstopped] at hrunning
    cases hrunning

/-- A start begins. -/
theorem Fits.start (h : Fits r sc act) (hbelow : r.SlotsBelow)
    (hpending : ∀ psb ∈ sc.pendingRuntimeSessions, r.sessionSlotOf psb.descId ≠ none)
    (hstopped : sc.scopeState = .stopped) : Fits r (sc.beginStart r.sessionSlotCount)
      (act.setStarts (⟨sc.pendingRuntimeSessions, false⟩ :: act.starts)) := by
  have hsized : Sized r (sc.sessionStore.resize r.sessionSlotCount) :=
    fun d hslot _ => hasPlace_resize hbelow _ hslot
  obtain ⟨hsweep, hmaterializing⟩ := h.idle hstopped
  refine ⟨fun f hf hc => ⟨hstopped, hsized, ?_⟩, fun _ => hsized, fun sweep hs => ?_,
    fun p hp => ?_⟩
  · rcases List.mem_cons.mp hf with rfl | hf
    · exact fun psb hpsb => hasPlace_resize hbelow _ (hpending psb hpsb)
    · intro psb hpsb
      obtain ⟨slot, hslot, -⟩ := (h.starts f hf hc).2.2 psb hpsb
      exact hasPlace_resize hbelow _ (hslot ▸ nofun)
  · rw [Activity.setStarts, hsweep] at hs
    cases hs
  · rw [Activity.setStarts, hmaterializing] at hp
    cases hp

/-- The starts that are left when one of them has gone on. -/
theorem Fits.setStarts (h : Fits r sc act) {starts : List Start}
    (hstarts : ∀ f ∈ starts, ∃ f' ∈ act.starts, f.changed = f'.changed ∧ f.rest ⊆ f'.rest)
    (hstore : sc'.sessionStore.instancesSize = sc.sessionStore.instancesSize)
    (hstate : sc'.scopeState = sc.scopeState) : Fits r sc' (act.setStarts starts) := by
  refine ⟨fun f hf hc => ?_, ?_, fun sweep hs => ?_, fun p hp => ?_⟩
  · obtain ⟨f', hf', hchanged, hrest⟩ := hstarts f hf
    obtain ⟨hstopped, hsized, hplaces⟩ := h.starts f' hf' (hchanged ▸ hc)
    exact ⟨hstate.trans hstopped, hsized.mono hstore.ge,
      fun psb hpsb => (hplaces psb (hrest hpsb)).mono hstore.ge⟩
  · rw [hstate]
    exact fun hs => (h.live hs).mono hstore.ge
  · obtain ⟨hstopping, hplace⟩ := h.sweep sweep hs
    exact ⟨hstate.trans hstopping, fun d m hd => (hplace d m hd).mono hstore.ge⟩
  · rw [hstate]
    exact h.materializing p hp

/-- A start returns. -/
theorem Fits.returns (h : Fits r sc act) {outer : List Start}
    (hstarts : act.starts = ⟨[], false⟩ :: outer) :
    Fits r sc.finishStart (act.setStarts outer).change := by
  obtain ⟨hstopped, hsized, -⟩ := h.starts ⟨[], false⟩ (hstarts ▸ List.mem_cons_self) rfl
  obtain ⟨hsweep, hmaterializing⟩ := h.idle hstopped
  refine ⟨fun f hf hc => ?_, fun _ => hsized, fun sweep hs => ?_, fun p hp => ?_⟩
  · obtain ⟨f', -, rfl⟩ := List.mem_map.mp hf
    cases hc
  · exact absurd (hsweep.symm.trans hs) nofun
  · exact absurd (hmaterializing ▸ hp) List.not_mem_nil

/-- No start of a scope that is not stopped can go on. -/
theorem Fits.changed (h : Fits r sc act) (hstate : sc.scopeState ≠ .stopped) :
    ∀ f ∈ act.starts, f.changed ≠ false := fun f hf hc => hstate (h.starts f hf hc).1

/-- A stop begins. -/
theorem Fits.stop (h : Fits r sc act) (hrunning : sc.scopeState = .running)
    (hmaterializing : act.materializing = []) (order : List DescriptorId)
    (deferDeallocation : Bool) :
    Fits r sc.beginStop (act.setSweep (some ⟨order, none, deferDeallocation⟩)) := by
  have hlive : sc.scopeState ≠ .stopped := hrunning ▸ nofun
  refine ⟨fun f hf hc => absurd hc (h.changed hlive f hf), fun _ => h.live hlive,
    fun sweep hs => ?_, fun p hp => ?_⟩
  · obtain rfl := Option.some.inj hs
    exact ⟨rfl, nofun⟩
  · exact absurd (hmaterializing ▸ hp) List.not_mem_nil

/-- A stop goes on. -/
theorem Fits.setSweep (h : Fits r sc act) {sweep sweep' : Sweep} (hsweep : act.sweep = some sweep)
    (hsize : sc'.sessionStore.instancesSize = sc.sessionStore.instancesSize)
    (hstate : sc'.scopeState = sc.scopeState)
    (hplace : ∀ d m, sweep'.destroying = some (d, m) → HasPlace r sc.sessionStore d) :
    Fits r sc' (act.setSweep (some sweep')) := by
  have hstopping := (h.sweep sweep hsweep).1
  have hlive : sc.scopeState ≠ .stopped := hstopping ▸ nofun
  refine ⟨fun f hf hc => absurd hc (h.changed hlive f hf), fun _ => (h.live hlive).mono hsize.ge,
    fun sweep'' hs => ?_, fun p hp => ?_⟩
  · obtain rfl := Option.some.inj hs
    exact ⟨hstate.trans hstopping, fun d m hd => (hplace d m hd).mono hsize.ge⟩
  · rw [hstate]
    exact h.materializing p hp

/-- A stop returns. -/
theorem Fits.stopReturns (h : Fits r sc act) {sweep : Sweep} (hsweep : act.sweep = some sweep)
    (deferDeallocation : Bool) :
    Fits r (sc.finishStop deferDeallocation) (act.setSweep none) := by
  have hstopping := (h.sweep sweep hsweep).1
  refine ⟨fun f hf hc => absurd hc (h.changed (hstopping ▸ nofun) f hf), fun hs => absurd rfl hs,
    nofun, fun p hp => ?_⟩
  have hrunning := (h.materializing p hp).1
  rw [hstopping] at hrunning
  cases hrunning

/-- Constructors begin and end in a running scope. -/
theorem Fits.setMaterializing (h : Fits r sc act) {materializing : List DescriptorId}
    (hsize : sc'.sessionStore.instancesSize = sc.sessionStore.instancesSize)
    (hstate : sc'.scopeState = sc.scopeState)
    (hmat : ∀ p ∈ materializing, sc.scopeState = .running ∧ r.sessionSlotOf p ≠ none ∧
      ¬Bound r p) : Fits r sc' (act.setMaterializing materializing) := by
  refine ⟨fun f hf hc => ?_, ?_, fun sweep hs => ?_, ?_⟩
  · obtain ⟨hstopped, hsized, hrest⟩ := h.starts f hf hc
    exact ⟨hstate.trans hstopped, hsized.mono hsize.ge,
      fun psb hpsb => (hrest psb hpsb).mono hsize.ge⟩
  · rw [hstate]
    exact fun hs => (h.live hs).mono hsize.ge
  · obtain ⟨hstopping, hplace⟩ := h.sweep sweep hs
    exact ⟨hstate.trans hstopping, fun d m hd => (hplace d m hd).mono hsize.ge⟩
  · rw [hstate]
    exact hmat

/-- A bean that is being constructed has a place. -/
theorem Fits.hasPlace (h : Fits r sc act) {p : DescriptorId} (hp : p ∈ act.materializing) :
    HasPlace r sc.sessionStore p := by
  obtain ⟨hrunning, hslot, hbound⟩ := h.materializing p hp
  exact h.live (hrunning ▸ nofun) p hslot hbound

end Fits

/-- What holds in every state that a run reaches whose starts go on properly. -/
structure Inv (s : State) : Prop where
  started : s.context.core.started = true
  indexed : s.context.core.Indexed
  slotted : s.context.Slotted
  numbered : s.context.Numbered
  linked : ∀ d, Wiring.lifetimeOf s.context d = some .session →
    Wiring.lifetimeOf s.context (Wiring.primaryOf s.context d) = some .session
  fits : ∀ n, Fits s.context.core (s.context.scopes n) (s.activity n)
  accesses : ∀ access ∈ s.accesses, access.InBounds

section Inv

variable {s t : State} {n : ScopeId}

theorem Inv.slotOf_iff (h : Inv s) {d : DescriptorId} :
    s.slotOf d ≠ none ↔ Wiring.lifetimeOf s.context d = some .session :=
  h.numbered.core.slotOf_iff h.started

theorem Inv.inBounds (h : Inv s) : InBounds s := by
  refine ⟨⟨fun d hd => ?_, h.numbered.core.distinct⟩, h.accesses⟩
  obtain ⟨slot, hslot⟩ := Option.ne_none_iff_exists'.mp
    ((h.numbered.core.slotOf_iff h.started).mpr hd)
  exact ⟨slot, hslot, h.slotted.below.lt_of_slotOf hslot⟩

/-- Pending instances are of beans with a slot. -/
theorem Inv.pending (h : Inv s) : ∀ psb ∈ (s.scope n).pendingRuntimeSessions,
    s.slotOf psb.descId ≠ none := by
  intro psb hpsb
  refine h.slotOf_iff.mpr ?_
  exact (List.getElem?_map ..).symm.trans (h.numbered.pending n psb hpsb)

/-- The root has moved on. -/
theorem Inv.grow (h : Inv s) {b : BeanContext} (hgrows : Grows s.context.core b.core)
    (hindexed : b.core.Indexed) (hslotted : b.Slotted) (hnumbered : b.Numbered)
    (hsame : ∀ n, SameSession (s.context.scopes n) (b.scopes n)) : Inv (s.setContext b) :=
  ⟨hgrows.started, hindexed, hslotted, hnumbered, hgrows.linked h.linked,
    fun n => (h.fits n).frame hgrows (hsame n), h.accesses⟩

theorem Inv.root (h : Inv s) {call : BeanContext.Call} (hroot : rootCall call = true) :
    Inv (s.setContext (s.context.exec call).state) := by
  obtain ⟨hgrows, hsame⟩ := Sessions.exec_root h.started hroot
  exact h.grow hgrows (BeanContext.exec_indexed h.indexed call)
    (h.slotted.exec h.indexed call) (h.numbered.exec h.slotted.below call) hsame

theorem Inv.internName (h : Inv s) (name : String) :
    Inv (s.setContext (s.context.withCore
      (s.context.core.withNames (s.context.core.nameInterning.intern name).2))) := by
  have hcore := h.numbered.core
  exact h.grow (.of_descriptors_eq h.started rfl rfl) (h.indexed.internName name)
    (h.slotted.withCore h.slotted.below le_rfl le_rfl id)
    (h.numbered.withCore ⟨hcore.1, hcore.2, hcore.3, hcore.4, hcore.5⟩ (List.prefix_refl _))
    fun _ => .refl _

/-- What is under way in a scope moves on. -/
theorem Inv.setActivity (h : Inv s) {act : Activity}
    (hfits : Fits s.context.core (s.context.scopes n) act) : Inv (s.setActivity n act) := by
  refine ⟨h.started, h.indexed, h.slotted, h.numbered, h.linked, fun n' => ?_, h.accesses⟩
  change Fits _ _ (update s.activity n act n')
  by_cases hn : n' = n
  · subst hn
    rwa [Function.update_self]
  · rw [Function.update_of_ne hn]
    exact h.fits n'

/-- A scope moves on. -/
theorem Inv.move (h : Inv s) {sc : ScopedContext} {act : Activity}
    (hsc : sc.Slotted s.context.core.sessionSlotCount s.context.core.descriptors.length)
    (hpending : sc.pendingRuntimeSessions = (s.context.scopes n).pendingRuntimeSessions ∨
      sc.pendingRuntimeSessions = [])
    (hfits : Fits s.context.core sc act) : Inv (s.move n sc act) := by
  have hidle : s.context.core.started = false →
      sc.scopeState = .stopped ∧ ∀ slot, sc.sessionStore.instances slot = none := fun hs => by
    rw [h.started] at hs
    cases hs
  refine ⟨h.started, h.indexed, h.slotted.setScope n hsc hidle,
    h.numbered.setScope_of_eq n hpending, h.linked, fun n' => ?_, h.accesses⟩
  change Fits _ (update s.context.scopes n sc n') (update s.activity n act n')
  by_cases hn : n' = n
  · subst hn
    rwa [Function.update_self, Function.update_self]
  · rw [Function.update_of_ne hn, Function.update_of_ne hn]
    exact h.fits n'

/-- The array is accessed at the place of a bean. -/
theorem Inv.access (h : Inv s) {d : DescriptorId}
    (hplace : HasPlace s.context.core (s.scope n).sessionStore d) : Inv (s.access n d) :=
  ⟨h.started, h.indexed, h.slotted, h.numbered, h.linked, h.fits,
    List.forall_mem_append.mpr ⟨h.accesses, List.forall_mem_singleton.mpr hplace⟩⟩

/-! ## Bindings -/

/-- The root has got a descriptor, and a scope an instance of it. -/
theorem Inv.place (h : Inv s) {b : BeanContext} {sc : ScopedContext}
    (hgrows : Grows s.context.core b.core) (hscopes : b.scopes = s.context.scopes)
    (hcontext : t.context = b.setScope n sc)
    (hactivity : ∀ n' ≠ n, t.activity n' = s.activity n') (haccesses : t.accesses = s.accesses)
    (hindexed : b.core.Indexed) (hslotted : (b.setScope n sc).Slotted)
    (hnumbered : (b.setScope n sc).Numbered) (hfits : Fits b.core sc (t.activity n)) : Inv t := by
  refine ⟨?_, ?_, hcontext ▸ hslotted, hcontext ▸ hnumbered, ?_, fun n' => ?_,
    haccesses ▸ h.accesses⟩
  · rw [hcontext]
    exact hgrows.started
  · rw [hcontext]
    exact hindexed
  · rw [hcontext]
    exact hgrows.linked h.linked
  · rw [hcontext]
    change Fits b.core (update b.scopes n sc n') _
    by_cases hn : n' = n
    · subst hn
      rwa [Function.update_self]
    · rw [Function.update_of_ne hn, hactivity n' hn, hscopes]
      exact (h.fits n').frame hgrows (.refl _)

/-- A scope accepts the instance of a binding. -/
theorem Inv.accept (h : Inv s) {b b' : BeanContext} {d : DescriptorId} {object : Addr}
    (hgrows : Grows s.context.core b.core) (hscopes : b.scopes = s.context.scopes)
    (hslot : b.core.sessionSlotOf d ≠ none) (hplace : b.placeSession n d object = .ok b')
    (hindexed : b'.core.Indexed) (hslotted : b'.Slotted) (hnumbered : b'.Numbered) :
    Inv ((s.setContext b').accept n d) := by
  have hfits : Fits b.core (b.scopes n) (s.activity n) :=
    (h.fits n).frame hgrows (hscopes ▸ .refl _)
  rcases Sessions.placeSession_cases b n d object with
    ⟨e, heq⟩ | ⟨-, ⟨hstate, heq⟩ | ⟨hrunning, -, heq⟩⟩
  -- A refused binding is no `.ok`.
  · rw [heq] at hplace
    cases hplace
  -- Not running: the binding waits for the next start.
  · obtain rfl : _ = b' := congrArg Attempt.state (heq.symm.trans hplace)
    have hsc := Sessions.scopes_setScope_self b n { b.scopes n with
      pendingRuntimeSessions := (b.scopes n).pendingRuntimeSessions ++ [⟨d, object⟩] }
    have haccept : (s.setContext (b.setScope n _)).accept n d = _ :=
      if_neg fun hrunning => hstate ((congrArg ScopedContext.scopeState hsc).symm.trans hrunning)
    rw [Attempt.ok_state, haccept]
    refine h.place hgrows hscopes rfl (fun n' hn => Function.update_of_ne hn ..) rfl hindexed
      hslotted hnumbered ?_
    change Fits b.core _ (update s.activity n _ n)
    rw [Function.update_self]
    exact hfits.bindPending _
  -- Running: the vector grows over every slot before the instance is stored.
  · obtain rfl : _ = b' := congrArg Attempt.state (heq.symm.trans hplace)
    have hsc := Sessions.scopes_setScope_self b n { b.scopes n with
      sessionStore := (b.scopes n).sessionStore.growAndStore (b.core.sessionSlotOf d) d object }
    have haccept : (s.setContext (b.setScope n _)).accept n d = _ :=
      if_pos ((congrArg ScopedContext.scopeState hsc).trans hrunning)
    rw [Attempt.ok_state, haccept]
    have hinv : Inv (s.setContext (b.setScope n _)) := h.place hgrows hscopes rfl
      -- The store before the read back; the read back is then inside.
      (fun _ _ => rfl) rfl hindexed hslotted hnumbered
      (hfits.bindRunning hrunning (le_max_left _ _))
    refine hinv.access ?_
    change HasPlace b.core ((b.setScope n _).scopes n).sessionStore d
    rw [hsc]
    exact hasPlace_growAndStore _ hslot object

/-- The descriptor of a binding has a slot. -/
theorem boundSession_slot {b : BeanContext} {type : CppType} {name : String} {priority : ℤ}
    (hstarted : (boundSession b type name priority).2.started = true)
    (hnumbered : (boundSession b type name priority).2.Numbered) :
    (boundSession b type name priority).2.sessionSlotOf (boundSession b type name priority).1 ≠
      none := by
  obtain ⟨desc, hdesc, hlifetime, -⟩ := ((b.core.internSession type name).sessionDescriptor_spec
    (b.core.sessionType type).1 (b.core.nameInterning.intern name).1 priority).2.2
  refine (hnumbered.slotOf_iff hstarted).mpr ?_
  exact (congrArg (Option.map Descriptor.lifetime) hdesc).trans (congrArg some hlifetime)

/-- A binding is refused, or is accepted after the root has got its descriptor. -/
theorem Inv.bindSession (h : Inv s) {type : CppType} {name : String} {priority : ℤ} {object : Addr}
    (hstep : step s (.bindSession n type name priority object) = some t) : Inv t := by
  have hslotted := h.slotted.exec h.indexed (.bindSession n type name priority object)
  have hnumbered := h.numbered.exec h.slotted.below (.bindSession n type name priority object)
  have hindexed := BeanContext.exec_indexed h.indexed (.bindSession n type name priority object)
  simp only [BeanContext.exec] at hslotted hnumbered hindexed
  have hgrows : Grows s.context.core
      (s.context.withCore (boundSession s.context type name priority).2).core :=
    Sessions.boundSession_grows h.started type name priority
  -- Every refusal keeps the scopes and at most interns or registers.
  have hrefused : ∀ core e, s.context.bindSession n type name priority object =
      .fail (s.context.withCore core) e → Grows s.context.core core → Inv t := by
    intro core e heq hg
    rw [step, heq] at hstep
    rw [heq] at hslotted hnumbered hindexed
    rw [← Option.some.inj hstep]
    exact h.grow hg hindexed hslotted hnumbered fun _ => .refl _
  rcases Sessions.bindSession_cases s.context n type name priority object with
    ⟨e, core, heq, hcore⟩ | heq
  · refine hrefused core e heq ?_
    rcases hcore with rfl | rfl
    · exact .of_descriptors_eq h.started rfl rfl
    · exact .of_descriptors_eq h.started rfl rfl
  -- Accepted: the new descriptor has a slot, since the started root counts its sessions.
  · have hcore : (s.context.bindSession n type name priority object).state.core =
        (boundSession s.context type name priority).2 := by
      rw [heq, BeanContext.placeSession_core, BeanContext.withCore]
    have hslot := boundSession_slot hgrows.started (hcore ▸ hnumbered.core)
    rcases Sessions.placeSession_cases (s.context.withCore (boundSession s.context type name
      priority).2) n (boundSession s.context type name priority).1 object with
        ⟨e, hplace⟩ | ⟨-, hcases⟩
    · exact hrefused _ e (heq.trans hplace) hgrows
    · obtain ⟨b, hplace⟩ : ∃ b, (s.context.withCore (boundSession s.context type name
          priority).2).placeSession n (boundSession s.context type name priority).1 object =
            .ok b := by
        rcases hcases with ⟨-, hplace⟩ | ⟨-, -, hplace⟩
        · exact ⟨_, hplace⟩
        · exact ⟨_, hplace⟩
      rw [heq, hplace] at hslotted hnumbered hindexed
      rw [step, heq, hplace] at hstep
      rw [← Option.some.inj hstep]
      exact h.accept hgrows rfl hslot hplace hindexed hslotted hnumbered

/-! ## Starts, stops and materializations -/

theorem Inv.storeNext (h : Inv s) {psb : PendingRuntimeSession} {rest : List PendingRuntimeSession}
    {outer : List Start} (hstarts : (s.activity n).starts = ⟨psb :: rest, false⟩ :: outer) :
    Inv (storeStep s n psb ⟨rest, false⟩ outer) := by
  obtain ⟨-, -, hplaces⟩ := (h.fits n).starts _ (hstarts ▸ List.mem_cons_self) rfl
  have hplace := hplaces psb List.mem_cons_self
  refine (h.access hplace).move ((h.slotted.scopes n).storePending
    (fun _ => h.slotted.below.lt_of_slotOf) psb) (.inl rfl)
    ((h.fits n).setStarts (fun f hf => ?_) rfl rfl)
  rcases List.mem_cons.mp hf with rfl | hf
  · exact ⟨⟨psb :: rest, false⟩, hstarts ▸ List.mem_cons_self, rfl, List.subset_cons_self ..⟩
  · exact ⟨f, hstarts ▸ List.mem_cons_of_mem _ hf, rfl, List.Subset.refl _⟩

theorem slotted_clearSlot {sc : ScopedContext} {count length : ℕ} (h : sc.Slotted count length)
    (slot : Option SessionSlot) (d : DescriptorId) (m : Addr) (deferDeallocation : Bool) :
    (clearSlot sc slot d m deferDeallocation).Slotted count length := by
  refine ⟨fun k hk => h.stored k fun hnone => hk ?_, h.pending⟩
  cases slot with
  | none => cases deferDeallocation <;> exact hnone
  | some slot =>
    cases deferDeallocation <;>
      · change update sc.sessionStore.instances slot none k = none
        by_cases heq : k = slot
        · rw [heq, Function.update_self]
        · rwa [Function.update_of_ne heq]

theorem instancesSize_clearSlot (sc : ScopedContext) (slot : Option SessionSlot)
    (d : DescriptorId) (m : Addr) (deferDeallocation : Bool) :
    (clearSlot sc slot d m deferDeallocation).sessionStore.instancesSize =
      sc.sessionStore.instancesSize := by
  cases slot <;> cases deferDeallocation <;> rfl

theorem Inv.clearStep (h : Inv s) {d : DescriptorId} {m : Addr} {sweep : Sweep}
    (hsweep : (s.activity n).sweep = some sweep) (hdestroying : sweep.destroying = some (d, m)) :
    Inv (clearStep s n d m sweep) := by
  have hplace := ((h.fits n).sweep sweep hsweep).2 d m hdestroying
  exact (h.access hplace).move (slotted_clearSlot (h.slotted.scopes n) _ d m _) (.inl rfl)
    ((h.fits n).setSweep hsweep (instancesSize_clearSlot ..) rfl nofun)

theorem Inv.constructedStep (h : Inv s) {p : DescriptorId}
    (hp : p ∈ (s.activity n).materializing) (m : Addr) : Inv (constructedStep s n p m) :=
  (h.access ((h.fits n).hasPlace hp)).move
    ((h.slotted.scopes n).storePending (fun _ => h.slotted.below.lt_of_slotOf) ⟨p, m⟩)
    (.inl rfl) ((h.fits n).setMaterializing rfl rfl
      fun p' hp' => (h.fits n).materializing p' (List.mem_of_mem_erase hp'))

/-! ## Runs -/

/-- Every step that goes on properly keeps the invariant. -/
theorem Inv.step (h : Inv s) {a : Action} (hgoes : GoesOn s a)
    (hstep : SessionBounds.step s a = some t) : Inv t := by
  cases a with
  | root call =>
    obtain ⟨hroot, heq⟩ := Option.ite_none_right_eq_some.mp hstep
    exact Option.some.inj heq ▸ h.root hroot
  | resolveScope key => exact Option.some.inj hstep ▸ h.internName key
  | bindSession n type name priority object => exact h.bindSession hstep
  | startScope n =>
    obtain ⟨hstopped, heq⟩ := Option.ite_none_right_eq_some.mp hstep
    rw [← Option.some.inj heq]
    exact h.move ((h.slotted.scopes n).beginStart _) (.inl rfl)
      ((h.fits n).start h.slotted.below h.pending hstopped)
  | storeNext n =>
    rw [SessionBounds.step] at hstep
    split at hstep
    · next psb rest changed outer hstarts =>
      -- Nobody resized the vector meanwhile, or the run would not go on here.
      obtain rfl : changed = false := hgoes ⟨psb :: rest, changed⟩ (by rw [hstarts]; rfl)
      exact Option.some.inj hstep ▸ h.storeNext hstarts
    · cases hstep
  | startReturns n =>
    rw [SessionBounds.step] at hstep
    split at hstep
    · next changed outer hstarts =>
      obtain rfl : changed = false := hgoes ⟨[], changed⟩ (by rw [hstarts]; rfl)
      rw [← Option.some.inj hstep]
      exact h.move (h.slotted.scopes n).finishStart (.inr rfl) ((h.fits n).returns hstarts)
    · cases hstep
  | startThrows n =>
    rw [SessionBounds.step] at hstep
    split at hstep
    -- The innermost start is unwound; the ones around it keep their lists.
    · next start outer hstarts =>
      rw [← Option.some.inj hstep]
      refine h.setActivity ((h.fits n).setStarts (fun f hf => ?_) rfl rfl)
      exact ⟨f, hstarts ▸ List.mem_cons_of_mem _ hf, rfl, List.Subset.refl _⟩
    · cases hstep
  | stopScope n deferDeallocation =>
    obtain ⟨⟨hrunning, hmaterializing⟩, heq⟩ := Option.ite_none_right_eq_some.mp hstep
    rw [← Option.some.inj heq]
    exact h.move ⟨(h.slotted.scopes n).stored, (h.slotted.scopes n).pending⟩ (.inl rfl)
      ((h.fits n).stop hrunning hmaterializing _ _)
  | destroyNext n =>
    rw [SessionBounds.step] at hstep
    split at hstep
    -- What the sweep reads next was found inside the vector.
    · next d order deferDeallocation hsweep =>
      rw [← Option.some.inj hstep]
      refine h.setActivity ((h.fits n).setSweep hsweep rfl rfl fun d' m hd => ?_)
      obtain ⟨m', hfind, heq⟩ := Option.map_eq_some_iff.mp hd
      obtain ⟨rfl, rfl⟩ := Prod.mk.inj heq
      exact hasPlace_of_find hfind
    · cases hstep
  | destroyed n =>
    rw [SessionBounds.step] at hstep
    split at hstep
    · next order d m deferDeallocation hsweep =>
      exact Option.some.inj hstep ▸ h.clearStep hsweep rfl
    · cases hstep
  | stopReturns n =>
    rw [SessionBounds.step] at hstep
    split at hstep
    · next deferDeallocation hsweep =>
      rw [← Option.some.inj hstep]
      exact h.move ((h.slotted.scopes n).finishStop _) (.inl rfl)
        ((h.fits n).stopReturns hsweep deferDeallocation)
    · cases hstep
  | materialize n d =>
    obtain ⟨⟨hrunning, hsession, -, hbound, -⟩, heq⟩ := Option.ite_none_right_eq_some.mp hstep
    rw [← Option.some.inj heq]
    -- A claim is only made while the scope runs, for a discovered session.
    refine h.setActivity ((h.fits n).setMaterializing rfl rfl (List.forall_mem_cons.mpr
      ⟨⟨hrunning, h.slotOf_iff.mpr (h.linked d hsession), fun ⟨desc, hdesc, horigin⟩ => ?_⟩,
        (h.fits n).materializing⟩))
    rw [State.bound, hdesc, Option.any_some, horigin] at hbound
    cases hbound
  | constructed n p m =>
    obtain ⟨hp, heq⟩ := Option.ite_none_right_eq_some.mp hstep
    exact Option.some.inj heq ▸ h.constructedStep hp m
  | constructorThrows n p =>
    obtain ⟨-, heq⟩ := Option.ite_none_right_eq_some.mp hstep
    rw [← Option.some.inj heq]
    exact h.setActivity ((h.fits n).setMaterializing rfl rfl
      fun p' hp' => (h.fits n).materializing p' (List.mem_of_mem_erase hp'))

/-- A start that succeeds has started the registry. -/
theorem started_of_start_succeeds {b : BeanContext} (hnot : b.core.started = false)
    (hok : b.start.failure = none) : b.start.state.core.started = true := by
  rcases Registry.start_cases b.core b.self with
    ⟨hstarted, -⟩ | ⟨_, -, -, heq⟩ | ⟨-, -, heq⟩
  · rw [hnot] at hstarted
    cases hstarted
  · rw [BeanContext.start, heq]
    rfl
  · rw [BeanContext.start, heq] at hok ⊢
    change (Registry.merge _ _).state.registry.started = true
    rw [(Registry.merge_of_ok hok).2.2.2]
    rfl

theorem Inv.init (h : machine.Init s) : Inv s := by
  obtain ⟨H, S, self, calls, hcalls, hnot, hok, rfl⟩ := h
  have hlinked := BeanContext.linkedByLifetime_execAll S self hcalls
  have hreach : ((BeanContext.fresh S self).execAll calls).Reachable := ⟨S, self, calls, rfl⟩
  set b := (BeanContext.fresh S self).execAll calls with hb
  have hstart : b.start.state.Reachable := by
    refine ⟨S, self, calls ++ [.start], Eq.symm ?_⟩
    rw [BeanContext.execAll, List.foldl_append]
    rfl
  refine ⟨started_of_start_succeeds hnot hok, hstart.sound.indexed, hstart.slotted,
    hstart.numbered, fun d => BeanContext.lifetimeOf_primaryOf (hlinked.start b.self).linked,
    fun n => ?_, (by rintro _ ⟨⟩)⟩
  have hstopped : (b.scopes n).scopeState = .stopped := (hreach.slotted.idle hnot n).1
  exact ⟨(by rintro _ ⟨⟩), fun hs => absurd hstopped hs, (by rintro _ ⟨⟩), (by rintro _ ⟨⟩)⟩

theorem Inv.reachable (h : machine.ReachableBy GoesOn s) : Inv s :=
  h.invariant (fun _ => .init) fun _ _ _ hs hgoes hstep => hs.step hgoes hstep

end Inv

/-- A session bean. -/
def cart : InjectionPoints.DiscoveredEntity :=
  .annotatedType ⟨"app::Cart", 1⟩ [] { lifetime := .session, hasLifetimeMarker := true } {}

def cartCalls : List BeanContext.Call :=
  [.discover (InjectionPoints.makeAllDescriptors InjectionPoints.lengths [cart])]

def cartState : State := { context := (BeanContext.execAll .initial cartCalls).start.state }

theorem cartState_init : machine.Init cartState := by
  refine ⟨InjectionPoints.lengths, .insertion, 0, cartCalls, fun cds hcds =>
    ⟨[cart], ?_⟩, rfl, rfl, rfl⟩
  exact BeanContext.Call.discover.inj (List.mem_singleton.mp hcds)

/-- A token is stored by the start of a scope, a badge is bound in the running scope, which grows
    the array, and a cart is materialized. A restart sizes the array for all three. -/
def cartCycle : List Action :=
  [.resolveScope "user", .bindSession 1 ⟨"app::Token", 3⟩ "" 0 100, .startScope 1, .storeNext 1,
    .startReturns 1, .bindSession 1 ⟨"app::Badge", 4⟩ "" 0 101, .materialize 1 0,
    .constructed 1 0 102, .stopScope 1 true, .destroyNext 1, .destroyed 1, .destroyNext 1,
    .destroyed 1, .destroyNext 1, .destroyed 1, .stopReturns 1, .startScope 1, .startReturns 1,
    .materialize 1 0, .constructed 1 0 103]

/-- A listener of the token that the start of a scope stores starts this scope, which stores the
    token again, and stops it. Then the start that has called it returns. -/
def restartedInStart : List Action :=
  [.resolveScope "user", .bindSession 1 ⟨"app::Token", 3⟩ "" 0 100, .startScope 1, .storeNext 1,
    .startScope 1, .storeNext 1, .startReturns 1, .stopScope 1 false, .destroyNext 1, .destroyed 1,
    .destroyNext 1, .stopReturns 1, .startReturns 1, .materialize 1 0, .constructed 1 0 101]

end Ctorium.SessionBounds
