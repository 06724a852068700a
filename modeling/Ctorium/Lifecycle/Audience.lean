import Ctorium.Lifecycle.Objects

/-!
# The audience of the events of an instance

The events of an instance are dispatched for an emitter scope, and a listener of a scope is
notified of the events of that emitter scope only. Session and thread-local instances have one
emitter scope for all their events. Singletons and prototypes are created for the scope of
the resolution context, and destroyed for no scope: if they are resolved through a scope,
the listeners of the scope are notified of their creation only (`same_audience_iff`).
-/

namespace Ctorium.Lifecycle

open Function (update)

variable {T : Table} {s s' : State} {a : Action}

/-! ## Emitter scopes -/

/-- The emitter scope of a step is that of the creation or destruction of the instance. -/
def Faithful (s : State) (b : Instance) : Stage → Prop
  | .onInitialized e | .onCreated e =>
    b ∈ s.published ∧ e = creationScope b.owner (s.contexts b)
  | .onPreDestroy e | .onDestroyed e => e = destructionScope b.owner
  | _ => True

theorem Faithful.of_eq {b : Instance} {e : Stage} (h : Faithful s b e)
    (hp : s'.published = s.published) (hc : s'.contexts = s.contexts) : Faithful s' b e := by
  cases e with
  | onInitialized e | onCreated e => exact ⟨hp ▸ h.1, hc ▸ h.2⟩
  | onPreDestroy e | onDestroyed e => exact h
  | _ => trivial

/-- The steps that are performed, and those that are left, are faithful. -/
structure Emits (s : State) : Prop where
  trace : ∀ x ∈ s.trace, Faithful s x.1 x.2
  frames : ∀ f ∈ s.frames, ∀ e ∈ f.todo, Faithful s f.bean e
  /-- The instances that are not in a store have no context. -/
  contexts : ∀ b, b ∉ s.published → s.contexts b = none

theorem emits_init : Emits {} := ⟨nofun, nofun, fun _ _ => rfl⟩

theorem Emits.of_eq (h : Emits s) (ht : ∀ x ∈ s'.trace, x ∈ s.trace)
    (hf : ∀ f ∈ s'.frames, f ∈ s.frames) (hp : s'.published = s.published)
    (hc : s'.contexts = s.contexts) : Emits s' where
  trace x hx := (h.trace x (ht x hx)).of_eq hp hc
  frames f hfm e he := (h.frames f (hf f hfm) e he).of_eq hp hc
  contexts b hb := hc ▸ h.contexts b (hp ▸ hb)

/-- A new frame. -/
theorem Emits.addFrame (h : Emits s) {f : Frame} (hf : ∀ e ∈ f.todo, Faithful s f.bean e)
    (ht : s'.trace = s.trace) (hfs : s'.frames = f :: s.frames) (hp : s'.published = s.published)
    (hc : s'.contexts = s.contexts) : Emits s' where
  trace x hx := (h.trace x (ht ▸ hx)).of_eq hp hc
  frames f' hf' e he := by
    rw [hfs] at hf'
    rcases List.mem_cons.mp hf' with rfl | hf'
    · exact (hf e he).of_eq hp hc
    · exact (h.frames f' hf' e he).of_eq hp hc
  contexts b hb := hc ▸ h.contexts b (hp ▸ hb)

theorem faithful_destruction (T : Table) (s : State) (b : Instance) (deferDeallocation : Bool) :
    ∀ e ∈ destructionStages T b deferDeallocation, Faithful s b e := by
  intro e he
  simp only [destructionStages, List.mem_cons, List.mem_append] at he
  rcases he with rfl | he | rfl | rfl | he
  · exact rfl
  · split at he
    · exact List.mem_singleton.mp he ▸ trivial
    · cases he
  · exact rfl
  · trivial
  · split at he
    · cases he
    · exact List.mem_singleton.mp he ▸ trivial

theorem faithful_creation (T : Table) {b : Instance} (hb : b ∈ s.published) :
    ∀ e ∈ creationStages T b (s.contexts b), Faithful s b e := by
  intro e he
  simp only [creationStages, List.mem_cons, List.mem_append, List.not_mem_nil, or_false] at he
  rcases he with rfl | he | rfl
  · exact ⟨hb, rfl⟩
  · split at he
    · exact List.mem_singleton.mp he ▸ trivial
    · cases he
  · exact ⟨hb, rfl⟩

/-- More instances in stores: the context of an instance is set when it comes into its store. -/
theorem Faithful.publish {b c : Instance} {e : Stage} (h : Faithful s b e) (hc : c ∉ s.published)
    (hp : s'.published = s.published ++ [c]) {x : Option NameId}
    (hctx : s'.contexts = update s.contexts c x) : Faithful s' b e := by
  have hkeep : b ∈ s.published → b ∈ s'.published ∧ s'.contexts b = s.contexts b := fun hb => by
    refine ⟨hp ▸ List.mem_append_left _ hb, ?_⟩
    rw [hctx, Function.update_of_ne]
    rintro rfl
    exact hc hb
  cases e with
  | onInitialized e | onCreated e =>
    obtain ⟨hb', hctx'⟩ := hkeep h.1
    exact ⟨hb', hctx' ▸ h.2⟩
  | onPreDestroy e | onDestroyed e => exact h
  | _ => trivial

theorem Emits.publish (h : Emits s) {c : Instance} (hc : c ∉ s.published) {x : Option NameId}
    {f : Frame} (hf : ∀ e ∈ f.todo, Faithful s' f.bean e) (ht : s'.trace = s.trace)
    (hfs : s'.frames = f :: s.frames) (hp : s'.published = s.published ++ [c])
    (hctx : s'.contexts = update s.contexts c x) : Emits s' where
  trace x hx := (h.trace x (ht ▸ hx)).publish hc hp hctx
  frames f' hf' e he := by
    rw [hfs] at hf'
    rcases List.mem_cons.mp hf' with rfl | hf'
    · exact hf e he
    · exact (h.frames f' hf' e he).publish hc hp hctx
  contexts b hb := by
    rw [hp, List.mem_append, List.mem_singleton, not_or] at hb
    rw [hctx, Function.update_of_ne hb.2]
    exact h.contexts b hb.1

theorem Known.not_mem_published (h : Known s) {c : Construction} (hc : c ∈ s.constructions) :
    c.bean ∉ s.published := fun hm => h.unpublished c hc (List.mem_map_of_mem hm)

theorem Emits.publishStep (h : Emits s) (hk : Known s) {c : Construction}
    (hc : c ∈ s.constructions) : Emits (s.publish T c) := by
  refine h.publish (hk.not_mem_published hc) (fun e he => ?_) rfl rfl rfl rfl
  have hctx : (s.publish T c).contexts c.bean = c.ctxScope := Function.update_self ..
  refine faithful_creation T (List.mem_append_right _ (List.mem_singleton_self _)) e ?_
  rwa [hctx]

theorem Emits.storeBound (h : Emits s) {b : Instance}
    (hp : b.mem ∉ s.published.map Instance.mem) : Emits (storeBoundStep s b) := by
  have hb : b ∉ s.published := fun hm => hp (List.mem_map_of_mem hm)
  refine h.publish hb (x := none) (fun e he => ?_) rfl rfl rfl ?_
  · have hscope : destructionScope b.owner = creationScope b.owner (s.contexts b) := by
      rw [h.contexts b hb]
      cases b.owner <;> rfl
    have hmem : b ∈ (storeBoundStep s b).published :=
      List.mem_append_right _ (List.mem_singleton_self b)
    rcases List.mem_pair.mp he with rfl | rfl
    · exact ⟨hmem, hscope⟩
    · exact ⟨hmem, hscope⟩
  · have hctx := h.contexts b hb
    exact (Function.update_eq_self_iff.mpr hctx.symm).symm

theorem Emits.perform (h : Emits s) {f : Frame} {e : Stage} {rest : List Stage}
    (htodo : f.todo = e :: rest) (hf : f ∈ s.frames) : Emits (performStep s f e rest) where
  trace x hx := by
    rcases List.mem_append.mp hx with hx | hx
    · exact (h.trace x hx).of_eq rfl rfl
    · obtain rfl := List.mem_singleton.mp hx
      exact (h.frames f hf e (htodo ▸ List.mem_cons_self)).of_eq rfl rfl
  frames f' hf' e' he' := by
    rcases List.mem_cons.mp hf' with rfl | hf'
    · exact (h.frames f hf e' (htodo ▸ List.mem_cons_of_mem e he')).of_eq rfl rfl
    · exact (h.frames f' (List.mem_of_mem_erase hf') e' he').of_eq rfl rfl
  contexts := h.contexts

theorem Emits.step (h : Emits s) (hk : Known s) (hs : step T s a = some s') : Emits s' := by
  -- Only frames emit events, and a frame is added by a publication, a binding or a destruction.
  cases a with
  | construct c =>
    obtain ⟨-, ⟨⟩⟩ := Option.ite_none_right_eq_some.mp hs
    rw [constructStep]
    split <;> exact h.of_eq (fun _ hx => hx) (fun _ hf => hf) rfl rfl
  | constructed c =>
    obtain ⟨-, ⟨⟩⟩ := Option.ite_none_right_eq_some.mp hs
    refine ⟨fun x hx => ?_, h.frames, h.contexts⟩
    rcases List.mem_append.mp hx with hx | hx
    · exact h.trace x hx
    · exact List.mem_singleton.mp hx ▸ trivial
  | constructorThrows c =>
    obtain ⟨-, ⟨⟩⟩ := Option.ite_none_right_eq_some.mp hs
    rw [constructorThrowsStep]
    split
    · split <;> exact h.of_eq (fun _ hx => hx) (fun _ hf => hf) rfl rfl
    · exact h.of_eq (fun _ hx => hx) (fun _ hf => hf) rfl rfl
  | store c =>
    obtain ⟨⟨hc, -⟩, ⟨⟩⟩ := Option.ite_none_right_eq_some.mp hs
    exact (h.publishStep (T := T) hk hc).of_eq (fun _ hx => hx) (fun _ hf => hf) rfl rfl
  | activate c =>
    simp only [Lifecycle.step] at hs
    split at hs
    · rename_i k _
      obtain ⟨⟨hc, -⟩, ⟨⟩⟩ := Option.ite_none_right_eq_some.mp hs
      obtain ⟨-, hp, hctx, -, hf, ht⟩ := activateStep_frame T s c k
      exact (h.publishStep (T := T) hk hc).of_eq (fun _ hx => ht ▸ hx) (fun _ hfm => hf ▸ hfm)
        hp hctx
    · cases hs
  | allocate c k =>
    obtain ⟨⟨hc, -⟩, ⟨⟩⟩ := Option.ite_none_right_eq_some.mp hs
    exact (h.publishStep (T := T) hk hc).of_eq (fun _ hx => hx) (fun _ hf => hf) rfl rfl
  | storeBound b =>
    obtain ⟨⟨-, hp, -⟩, ⟨⟩⟩ := Option.ite_none_right_eq_some.mp hs
    exact h.storeBound hp
  | perform f =>
    simp only [Lifecycle.step] at hs
    split at hs
    · rename_i e rest htodo
      obtain ⟨hf, ⟨⟩⟩ := Option.ite_none_right_eq_some.mp hs
      exact h.perform htodo hf
    · cases hs
  | finish f | throws f =>
    obtain ⟨-, ⟨⟩⟩ := Option.ite_none_right_eq_some.mp hs
    exact h.of_eq (fun _ hx => hx) (fun _ hf => List.mem_of_mem_erase hf) rfl rfl
  | release k =>
    simp only [Lifecycle.step] at hs
    split at hs
    · rename_i b _
      obtain ⟨-, ⟨⟩⟩ := Option.ite_none_right_eq_some.mp hs
      exact h.addFrame (faithful_destruction T s b _) rfl rfl rfl rfl
    · cases hs
  | destroyNext p =>
    simp only [Lifecycle.step] at hs
    split at hs
    · rename_i b rest _
      obtain ⟨-, ⟨⟩⟩ := Option.ite_none_right_eq_some.mp hs
      exact h.addFrame (faithful_destruction T s b _) rfl rfl rfl rfl
    · cases hs
  | sweepSlot =>
    simp only [Lifecycle.step] at hs
    split at hs
    · obtain ⟨-, hs⟩ := Option.ite_none_right_eq_some.mp hs
      split at hs <;> obtain ⟨⟩ := hs
      · exact h.addFrame (faithful_destruction T s _ _) rfl rfl rfl rfl
      · exact h.of_eq (fun _ hx => hx) (fun _ hf => hf) rfl rfl
    · cases hs
  | _ =>
    obtain ⟨-, ⟨⟩⟩ := Option.ite_none_right_eq_some.mp hs
    exact h.of_eq (fun _ hx => hx) (fun _ hf => hf) rfl rfl

theorem Emits.of_reachable (h : (machine T).Reachable s) : Emits s :=
  (h.invariant (P := fun s => Known s ∧ Emits s) (fun _ hinit => hinit ▸ ⟨known_init, emits_init⟩)
    fun _ _ _ hI hs => ⟨hI.1.step hs, hI.2.step hI.1 hs⟩).2

/-! ## Audiences -/

/-- The filter of `dispatchFromView_`: the listeners of the root, and those of the emitter scope,
    are notified. -/
def admits (listenerScope emitterScope : Option NameId) : Bool :=
  listenerScope = none || listenerScope = emitterScope

/-- All events of the instance have one emitter scope, and so notify the same listeners. -/
def State.SameAudience (s : State) (b : Instance) : Prop :=
  ∀ e e' x y, (b, e) ∈ s.trace → (b, e') ∈ s.trace → e.emitter? = some x → e'.emitter? = some y →
    x = y ∧ ∀ listenerScope, admits listenerScope x = admits listenerScope y

/-- Its creation and its destruction have been announced. -/
def State.Lived (s : State) (b : Instance) : Prop :=
  (∃ x, (b, .onCreated x) ∈ s.trace) ∧ ∃ y, (b, .onDestroyed y) ∈ s.trace

theorem Faithful.emitter {b : Instance} {e : Stage} {x : Option NameId} (h : Faithful s b e)
    (hx : e.emitter? = some x) : x = creationScope b.owner (s.contexts b) ∨
      x = destructionScope b.owner := by
  cases e with
  | onInitialized e | onCreated e =>
    obtain rfl := Option.some.inj hx
    exact .inl h.2
  | onPreDestroy e | onDestroyed e =>
    obtain rfl := Option.some.inj hx
    exact .inr h
  | _ => cases hx

/-- Creation and destruction have the same emitter scope, except for singletons and prototypes that
    are created for a scope. -/
theorem creationScope_eq_iff (o : Owner) (ctxScope : Option NameId) :
    creationScope o ctxScope = destructionScope o ↔
      (o = .singletons ∨ o = .prototypes → ctxScope = none) := by
  cases o <;> simp [creationScope, destructionScope]

/-- All events of an instance that has lived have the same audience if and only if it is a session
    or thread-local instance, or was created outside of all scopes. -/
theorem same_audience_iff (h : (machine T).Reachable s) {b : Instance} (hb : s.Lived b) :
    s.SameAudience b ↔ (b.owner = .singletons ∨ b.owner = .prototypes → s.contexts b = none) := by
  have hE := Emits.of_reachable h
  rw [← creationScope_eq_iff]
  constructor
  · intro hsame
    obtain ⟨⟨x, hx⟩, y, hy⟩ := hb
    have hcreated : x = creationScope b.owner (s.contexts b) := (hE.trace _ hx).2
    have hdestroyed : y = destructionScope b.owner := hE.trace _ hy
    exact hcreated ▸ hdestroyed ▸ (hsame _ _ x y hx hy rfl rfl).1
  · intro hscope e e' x y he he' hx hy
    have hxy : x = y := by
      rcases (hE.trace _ he).emitter hx with rfl | rfl <;>
        rcases (hE.trace _ he').emitter hy with rfl | rfl <;> simp only [hscope]
    exact ⟨hxy, fun _ => by rw [hxy]⟩

/-- The whole life of a singleton, created in the given context. -/
def singletonLife (ctxScope : Option NameId) : List Action :=
  let b : Instance := ⟨.singletons, 1, 7⟩
  let c : Construction := ⟨b, ctxScope, none, false⟩
  [.start, .construct c, .constructed c, .store { c with returned := true },
    .perform ⟨b, [.onInitialized ctxScope, .onCreated ctxScope], .creation⟩,
    .perform ⟨b, [.onCreated ctxScope], .creation⟩, .finish ⟨b, [], .creation⟩, .stopRoot,
    .destroyNext .root, .perform ⟨b, destructionStages hookless b false, .sweep .root⟩,
    .perform ⟨b, [.onDestroyed none, .destructor, .deallocation], .sweep .root⟩,
    .perform ⟨b, [.destructor, .deallocation], .sweep .root⟩]

theorem same_audience_at_root : ∃ s, (machine hookless).run {} (singletonLife none) = some s ∧
    (s.SameAudience ⟨.singletons, 1, 7⟩ ↔ (Owner.singletons = .singletons ∨
      Owner.singletons = .prototypes → s.contexts ⟨.singletons, 1, 7⟩ = none)) := by
  refine ⟨_, rfl, same_audience_iff (T := hookless) (.run (.init rfl)
    (show (machine hookless).run {} (singletonLife none) = some _ from rfl))
    ⟨⟨none, ?_⟩, none, ?_⟩⟩
  · decide
  · decide

/-- A singleton that is first resolved through a scope: the listeners of the scope are notified of
    its creation and not of its destruction. -/
theorem created_for_scope : ∃ s, (machine hookless).run {} (singletonLife (some 3)) = some s ∧
    ¬s.SameAudience ⟨.singletons, 1, 7⟩ := by
  refine ⟨_, rfl, fun h => ?_⟩
  have := (h (.onCreated (some 3)) (.onDestroyed none) (some 3) none (by decide) (by decide) rfl
    rfl).1
  cases this

end Ctorium.Lifecycle
