import Ctorium.Lib.Precedes
import Ctorium.Lifecycle.Objects

/-!
# Destruction in the reverse order of construction

Two instances of one store that are alive when a sweep of the store begins should be destroyed
in the reverse of the order in which their constructors returned.

* The stores in insertion order are swept from their end, which is the order that the claim
  asks for if each instance is stored after all that were constructed before it.
* The prototypes are swept from the highest slot. A prototype that is constructed in place has
  its slot before its constructor runs, so the prototypes that its constructor resolves have
  higher slots and are destroyed before it (`child_destroyed_first`).
* A prototype whose last handle goes while the root stops is destroyed at once, even if
  prototypes that were constructed later are still alive.

`destroyed_in_reverse` says that these are all exceptions.
-/

namespace Ctorium.Lifecycle

open Function (update)

variable {T : Table} {s s' : State} {a : Action}

/-! ## The order, and the steps that keep it -/

namespace State

variable (s : State)

/-- The constructor of `a` returned before that of `b`. -/
def Before (a b : Instance) : Prop := Precedes s.completed a.mem b.mem

/-- Of two instances that were alive when a sweep of their store began, the one that was constructed
    later is destroyed first. -/
def DestroysInReverse : Prop :=
  ∀ L ∈ s.sweeps, ∀ a ∈ L, ∀ b ∈ L, s.Before b a → b ∈ s.destructed → Precedes s.destructed a b

/-- The instance was constructed after all living instances in its store. -/
def Last (b : Instance) : Prop :=
  ∀ a ∈ s.published, a.owner = b.owner → a ∉ s.doomed → s.Before a b

/-- The slot is above those of all prototypes that are in use. -/
def Above (k : SlotId) : Prop :=
  ∀ k' < s.slotCount, ∀ slot ∈ s.slots k', slot.active = true → k' < k

/-- No constructor of an instance has returned that is not in the store yet. -/
def Settled (o : Owner) : Prop := ∀ c ∈ s.constructions, c.returned = true → c.bean.owner ≠ o

/-- All living prototypes but this one were constructed before it. -/
def LatestPrototype (b : Instance) : Prop :=
  ∀ a ∈ s.published, a.owner = .prototypes → a ∉ s.destructed → a ≠ b → s.Before a b

instance (a b : Instance) : Decidable (s.Before a b) := inferInstanceAs (Decidable (Precedes _ _ _))

instance (b : Instance) : Decidable (s.Last b) :=
  inferInstanceAs (Decidable (∀ a ∈ s.published, a.owner = b.owner → a ∉ s.doomed →
    s.Before a b))

instance (k : SlotId) : Decidable (s.Above k) :=
  inferInstanceAs (Decidable (∀ k' < s.slotCount, ∀ slot ∈ s.slots k', slot.active = true → k' < k))

instance (o : Owner) : Decidable (s.Settled o) :=
  inferInstanceAs (Decidable (∀ c ∈ s.constructions, c.returned = true → c.bean.owner ≠ o))

instance (b : Instance) : Decidable (s.LatestPrototype b) :=
  inferInstanceAs (Decidable (∀ a ∈ s.published, a.owner = .prototypes → a ∉ s.destructed →
    a ≠ b → s.Before a b))

end State

/-- The root is stopping, and may still have prototypes. -/
def Stop.active : Stop → Bool
  | .singletons | .prototypes _ => true
  | .idle | .threadLocals => false

def Role.releases : Role → Bool
  | .release _ => true
  | .creation | .sweep _ => false

/-- An instance comes into its store after all that were constructed before it, a prototype into
    a slot above theirs; a sweep begins, or goes on, when no instance is about to come into the
    store, or is being released from it; and while the root stops, a prototype is released only
    after those that were constructed later. -/
def Guard (s : State) : Action → Prop
  | .start => s.stop = .idle
  | .store c => s.Last c.bean
  | .activate c => s.Last c.bean ∧ ∀ k ∈ c.slot, s.Above k
  | .allocate c k => s.Last c.bean ∧ s.Above k
  | .storeBound b => s.Last b
  | .release k => s.stop.active = true → ∀ slot ∈ s.slots k, s.LatestPrototype slot.bean
  | .stopRoot => s.Settled .singletons ∧ s.Settled .prototypes
  | .sweepSlot => ∀ f ∈ s.frames, f.role.releases = true → .destructor ∉ f.todo
  | .collect threads => ∀ t ∈ threads, s.Settled (.threadLocal t)
  | .stopScope n _ => s.Settled (.session n)
  | .exitThread t => s.Settled (.threadLocal t)
  | _ => True

instance (s : State) : (a : Action) → Decidable (Guard s a)
  | .start => inferInstanceAs (Decidable (s.stop = .idle))
  | .store c => inferInstanceAs (Decidable (s.Last c.bean))
  | .activate c => inferInstanceAs (Decidable (s.Last c.bean ∧ ∀ k ∈ c.slot, s.Above k))
  | .allocate c k => inferInstanceAs (Decidable (s.Last c.bean ∧ s.Above k))
  | .storeBound b => inferInstanceAs (Decidable (s.Last b))
  | .release k => inferInstanceAs (Decidable (s.stop.active = true →
      ∀ slot ∈ s.slots k, s.LatestPrototype slot.bean))
  | .stopRoot => inferInstanceAs (Decidable (s.Settled .singletons ∧ s.Settled .prototypes))
  | .sweepSlot => inferInstanceAs (Decidable (∀ f ∈ s.frames, f.role.releases = true →
      .destructor ∉ f.todo))
  | .collect threads => inferInstanceAs (Decidable (∀ t ∈ threads, s.Settled (.threadLocal t)))
  | .stopScope n _ => inferInstanceAs (Decidable (s.Settled (.session n)))
  | .exitThread t => inferInstanceAs (Decidable (s.Settled (.threadLocal t)))
  | .construct _ | .constructed _ | .constructorThrows _ | .makeObject _ | .perform _ | .finish _
  | .throws _ | .destroyNext _ | .singletonsSwept | .rollbackReturns | .stopReturns | .startScope _
  | .scopeSwept _ => inferInstanceAs (Decidable True)

/-! ## Invariants -/

section Invariants

variable (completed : List Addr) (published doomed destructed : List Instance)
  (sweeps : List (List Instance)) (frames : List Frame)

/-- The order of construction, on instances. -/
def Earlier (a b : Instance) : Prop := Precedes completed a.mem b.mem

/-- The instances of a store that are alive came into it in the order of their construction, and
    so did those that were alive when a sweep began. -/
structure Sweeps : Prop where
  mem : ∀ L ∈ sweeps, ∀ a ∈ L, a ∈ published
  owner : ∀ L ∈ sweeps, ∀ a ∈ L, ∀ b ∈ L, a.owner = b.owner
  sorted : ∀ L ∈ sweeps, ∀ a ∈ L, ∀ b ∈ L, Precedes published a b → Earlier completed a b
  alive : ∀ a b, Precedes published a b → a.owner = b.owner → a ∉ doomed → b ∉ doomed →
    Earlier completed a b

/-- A store has its instances in the order in which they came into it, and with one of them all that
    came later. -/
structure Stores (stored : Owner → List Instance) : Prop where
  sublist : ∀ o, (stored o).Sublist published
  owner : ∀ o, ∀ b ∈ stored o, b.owner = o ∧ o ≠ .prototypes
  suffix : ∀ o, ∀ b ∈ stored o, ∀ a, Precedes published b a → a.owner = o → a ∈ stored o

/-- A sweep is destroying the instance. -/
def Framed (p : Sweeper) (a : Instance) : Prop :=
  ∃ f ∈ frames, f.bean = a ∧ f.role = .sweep p ∧ .destructor ∈ f.todo

/-- An instance in a queue was constructed after all living ones that its sweep found, apart from
    those that come before it in the queue. -/
structure Queues (queue : Sweeper → List Instance) : Prop where
  nodup : ∀ p, (queue p).Nodup
  doomed : ∀ p, ∀ b ∈ queue p, b ∈ doomed
  owner : ∀ p, ∀ b ∈ queue p, b.owner ≠ .prototypes
  order : ∀ p, ∀ b ∈ queue p, ∀ L ∈ sweeps, b ∈ L → ∀ a ∈ L, a ≠ b → a ∉ destructed →
    Earlier completed a b ∨ Precedes (queue p) a b ∨ Framed frames p a

/-- All living instances that a sweep found were constructed before `b`. -/
def Latest (b : Instance) : Prop :=
  ∀ L ∈ sweeps, b ∈ L → ∀ a ∈ L, a ≠ b → a ∉ destructed → Earlier completed a b

/-- An instance that is being destroyed is the latest of the living ones. -/
structure Frames : Prop where
  latest : ∀ f ∈ frames, .destructor ∈ f.todo →
    f.bean ∈ doomed ∧ Latest completed destructed sweeps f.bean
  creation : ∀ f ∈ frames, f.role = .creation → .destructor ∉ f.todo
  prototypes : ∀ f ∈ frames, f.bean.owner = .prototypes → .destructor ∈ f.todo →
    f.role = .sweep .root ∨ ∃ k, f.role = .release k
  decided : ∀ a ∈ doomed, a.owner = .prototypes →
    a ∈ destructed ∨ ∃ f ∈ frames, f.bean = a ∧ .destructor ∈ f.todo
  called : ∀ a ∈ destructed, a ∈ doomed

/-- The prototypes that are alive are in slots, in the order in which they came into them. -/
structure Slots (slots : SlotId → Option Slot) (slotCount : ℕ)
    (constructions : List Construction) : Prop where
  bound : ∀ k, slots k ≠ none → k < slotCount
  undoomed : ∀ k slot, slots k = some slot → slot.bean ∉ doomed
  active : ∀ k b, slots k = some ⟨b, true⟩ → b ∈ published ∧ b.owner = .prototypes
  sorted : ∀ k k' b b', slots k = some ⟨b, true⟩ → slots k' = some ⟨b', true⟩ → k < k' →
    Precedes published b b'
  slotOf : ∀ b ∈ published, b.owner = .prototypes → b ∉ doomed → ∃ k, slots k = some ⟨b, true⟩
  reserved : ∀ k b, slots k = some ⟨b, false⟩ →
    ∃ c ∈ constructions, c.bean = b ∧ c.slot = some k
  construction : ∀ c ∈ constructions, ∀ k, c.slot = some k →
    c.bean.owner = .prototypes ∧ (slots k = some ⟨c.bean, false⟩ ∨ c.bean ∈ doomed)
  undecided : ∀ c ∈ constructions, c.slot = none → c.bean ∉ doomed

/-- The prototypes that a sweep found and whose destruction is not decided are in slots that it has
    yet to visit. -/
structure Swept (slots : SlotId → Option Slot) (stop : Stop) (started : Bool) : Prop where
  idle : started = true → stop = .idle
  left : ∀ L ∈ sweeps, ∀ a ∈ L, a.owner = .prototypes → a ∉ doomed →
    stop = .singletons ∨ ∃ next, stop = .prototypes next ∧ ∃ k < next, slots k = some ⟨a, true⟩

end Invariants

/-- What holds in all states of a guarded run. -/
structure Inv (s : State) : Prop where
  known : Known s
  sweeps : Sweeps s.completed s.published s.doomed s.sweeps
  stores : Stores s.published s.stored
  queues : Queues s.completed s.doomed s.destructed s.sweeps s.frames s.queue
  frames : Frames s.completed s.doomed s.destructed s.sweeps s.frames
  slots : Slots s.published s.doomed s.slots s.slotCount s.constructions
  swept : Swept s.doomed s.sweeps s.slots s.stop s.started
  reverse : s.DestroysInReverse

theorem inv_init : Inv {} where
  known := known_init
  sweeps := ⟨nofun, nofun, nofun, fun _ _ h => absurd h not_precedes_nil⟩
  stores := ⟨fun _ => List.nil_sublist _, nofun, nofun⟩
  queues := ⟨fun _ => .nil, nofun, nofun, nofun⟩
  frames := ⟨nofun, nofun, nofun, nofun, nofun⟩
  slots := ⟨fun _ h => absurd rfl h, nofun, nofun, nofun, nofun, nofun, nofun, nofun⟩
  swept := ⟨nofun, nofun⟩
  reverse := nofun

/-! ## Growth -/

section Growth

variable {completed completed' : List Addr} {published doomed doomed' destructed destructed' :
  List Instance} {sweeps : List (List Instance)} {frames frames' : List Frame}
  {stored : Owner → List Instance} {queue : Sweeper → List Instance}

theorem Earlier.asymm {a b : Instance} (h : Earlier completed a b) (hc : completed.Nodup) :
    ¬Earlier completed b a := Precedes.asymm h hc

/-- The instances that a sweep finds when it begins are in one store, and their destruction is not
    decided. -/
def Found (published doomed L : List Instance) : Prop :=
  ∃ o, ∀ a ∈ L, a ∈ published ∧ a.owner = o ∧ a ∉ doomed

theorem State.Settled.found {o : Owner} (h : s.Settled o) :
    Found s.published s.doomed (s.alive o) := by
  refine ⟨o, fun a ha => ?_⟩
  obtain ⟨ha, hcond⟩ := List.mem_filter.mp ha
  obtain ⟨howner, hdoomed⟩ := of_decide_eq_true hcond
  refine ⟨(List.mem_append.mp ha).resolve_right fun hm => ?_, howner, hdoomed⟩
  obtain ⟨c, hc, rfl⟩ := List.mem_map.mp hm
  obtain ⟨hc, hr⟩ := List.mem_filter.mp hc
  exact h c hc hr howner

theorem Latest.mono {b : Instance} (h : Latest completed destructed sweeps b)
    (hcompleted : completed.Sublist completed') (hdestructed : destructed ⊆ destructed') :
    Latest completed' destructed' sweeps b := fun L hL hb a ha hne hd =>
  Precedes.mono (h L hL hb a ha hne fun hm => hd (hdestructed hm)) hcompleted

theorem Latest.begin {b : Instance} (h : Latest completed destructed sweeps b) (hb : b ∈ doomed)
    {new : List (List Instance)} (hnew : ∀ L ∈ new, Found published doomed L) :
    Latest completed destructed (new ++ sweeps) b := by
  intro L hL hbL
  rcases List.mem_append.mp hL with hL | hL
  · obtain ⟨o, hfound⟩ := hnew L hL
    exact absurd hb (hfound b hbL).2.2
  · exact h L hL hbL

theorem Sweeps.mono (h : Sweeps completed published doomed sweeps)
    (hcompleted : completed.Sublist completed') (hdoomed : doomed ⊆ doomed') :
    Sweeps completed' published doomed' sweeps where
  mem := h.mem
  owner := h.owner
  sorted L hL a ha b hb hab := Precedes.mono (h.sorted L hL a ha b hb hab) hcompleted
  alive a b hab howner ha hb := Precedes.mono
    (h.alive a b hab howner (fun hm => ha (hdoomed hm)) fun hm => hb (hdoomed hm)) hcompleted

theorem Sweeps.begin (h : Sweeps completed published doomed sweeps) {new : List (List Instance)}
    (hnew : ∀ L ∈ new, Found published doomed L) :
    Sweeps completed published doomed (new ++ sweeps) where
  mem L hL a ha := by
    rcases List.mem_append.mp hL with hL | hL
    · obtain ⟨o, hfound⟩ := hnew L hL
      exact (hfound a ha).1
    · exact h.mem L hL a ha
  owner L hL a ha b hb := by
    rcases List.mem_append.mp hL with hL | hL
    · obtain ⟨o, hfound⟩ := hnew L hL
      exact (hfound a ha).2.1.trans (hfound b hb).2.1.symm
    · exact h.owner L hL a ha b hb
  sorted L hL a ha b hb hab := by
    rcases List.mem_append.mp hL with hL | hL
    · obtain ⟨o, hfound⟩ := hnew L hL
      obtain ⟨-, hao, had⟩ := hfound a ha
      obtain ⟨-, hbo, hbd⟩ := hfound b hb
      exact h.alive a b hab (hao.trans hbo.symm) had hbd
    · exact h.sorted L hL a ha b hb hab
  alive := h.alive

/-- An instance comes into its store after all living ones. -/
theorem Sweeps.publish (h : Sweeps completed published doomed sweeps) {c : Instance}
    (hc : c ∉ published) (hlast : ∀ a ∈ published, a.owner = c.owner → a ∉ doomed →
      Earlier completed a c) : Sweeps completed (published ++ [c]) doomed sweeps where
  mem L hL a ha := List.mem_append_left _ (h.mem L hL a ha)
  owner := h.owner
  sorted L hL a ha b hb hab := by
    rcases precedes_concat_iff.mp hab with hab | ⟨-, rfl⟩
    · exact h.sorted L hL a ha b hb hab
    · exact absurd (h.mem L hL b hb) hc
  alive a b hab howner ha hb := by
    rcases precedes_concat_iff.mp hab with hab | ⟨hmem, rfl⟩
    · exact h.alive a b hab howner ha hb
    · exact hlast a hmem howner ha

theorem Stores.publish (h : Stores published stored) {c : Instance} (hc : c ∉ published)
    (howner : c.owner ≠ .prototypes) : Stores (published ++ [c])
      (update stored c.owner (stored c.owner ++ [c])) where
  sublist o := by
    rcases eq_or_ne o c.owner with rfl | hne
    · rw [Function.update_self]
      exact (h.sublist _).append_right [c]
    · rw [Function.update_of_ne hne]
      exact (h.sublist o).trans (List.sublist_append_left _ _)
  owner o b hb := by
    rcases eq_or_ne o c.owner with rfl | hne
    · rw [Function.update_self, List.mem_append, List.mem_singleton] at hb
      -- The store is kept in the order of publication, so the new bean comes last in both.
      rcases hb with hb | rfl
      · exact h.owner _ b hb
      · exact ⟨rfl, howner⟩
    · rw [Function.update_of_ne hne] at hb
      exact h.owner o b hb
  suffix o b hb a hab hao := by
    rcases eq_or_ne o c.owner with rfl | hne
    · rw [Function.update_self, List.mem_append, List.mem_singleton] at hb ⊢
      rcases precedes_concat_iff.mp hab with hold | ⟨-, rfl⟩
      · rcases hb with hb | rfl
        · exact .inl (h.suffix _ b hb a hold hao)
        · exact absurd hold.left_mem hc
      · exact .inr rfl
    · rw [Function.update_of_ne hne] at hb ⊢
      rcases precedes_concat_iff.mp hab with hab | ⟨-, rfl⟩
      · exact h.suffix o b hb a hab hao
      · exact absurd hao.symm hne

/-- A prototype comes into no store of this kind. -/
theorem Stores.publishPrototype (h : Stores published stored) {c : Instance}
    (howner : c.owner = .prototypes) : Stores (published ++ [c]) stored where
  sublist o := (h.sublist o).trans (List.sublist_append_left _ _)
  owner := h.owner
  suffix o b hb a hab hao := by
    rcases precedes_concat_iff.mp hab with hab | ⟨-, rfl⟩
    · exact h.suffix o b hb a hab hao
    · exact absurd (hao.symm.trans howner) (h.owner o b hb).2

/-- Stores are cleared. -/
theorem Stores.clear (h : Stores published stored) {stored' : Owner → List Instance}
    (hs : ∀ o, stored' o = stored o ∨ stored' o = []) : Stores published stored' where
  sublist o := by
    rcases hs o with heq | heq
    · exact heq ▸ h.sublist o
    -- Frames of before have decided about their own beans; the new one decides about `b`.
    · exact heq ▸ List.nil_sublist _
  owner o b hb := by
    rcases hs o with heq | heq
    · exact h.owner o b (heq ▸ hb)
    · rw [heq] at hb
      cases hb
  suffix o b hb a hab hao := by
    rcases hs o with heq | heq
    · exact heq ▸ h.suffix o b (heq ▸ hb) a hab hao
    · rw [heq] at hb
      cases hb

theorem Queues.mono (h : Queues completed doomed destructed sweeps frames queue)
    (hcompleted : completed.Sublist completed') (hdoomed : doomed ⊆ doomed')
    (hdestructed : destructed ⊆ destructed')
    (hframes : ∀ p a, a ∉ destructed' → Framed frames p a → Framed frames' p a) :
    Queues completed' doomed' destructed' sweeps frames' queue where
  nodup := h.nodup
  doomed p b hb := hdoomed (h.doomed p b hb)
  owner := h.owner
  order p b hb L hL hbL a ha hne hd := by
    rcases h.order p b hb L hL hbL a ha hne fun hm => hd (hdestructed hm) with hab | hab | hframed
    · exact .inl (Precedes.mono hab hcompleted)
    · exact .inr (.inl hab)
    · exact .inr (.inr (hframes p a hd hframed))

theorem Queues.begin (h : Queues completed doomed destructed sweeps frames queue)
    {new : List (List Instance)} (hnew : ∀ L ∈ new, Found published doomed L) :
    Queues completed doomed destructed (new ++ sweeps) frames queue where
  nodup := h.nodup
  doomed := h.doomed
  owner := h.owner
  order p b hb L hL hbL := by
    rcases List.mem_append.mp hL with hL | hL
    · obtain ⟨o, hfound⟩ := hnew L hL
      exact absurd (h.doomed p b hb) (hfound b hbL).2.2
    · exact h.order p b hb L hL hbL

theorem Framed.cons {p : Sweeper} {a : Instance} (h : Framed frames p a) (f : Frame) :
    Framed (f :: frames) p a := by
  obtain ⟨f', hf', hrest⟩ := h
  exact ⟨f', List.mem_cons_of_mem f hf', hrest⟩

theorem Frames.mono (h : Frames completed doomed destructed sweeps frames)
    (hcompleted : completed.Sublist completed') :
    Frames completed' doomed destructed sweeps frames where
  latest f hf hd := ⟨(h.latest f hf hd).1, (h.latest f hf hd).2.mono hcompleted fun _ hm => hm⟩
  creation := h.creation
  prototypes := h.prototypes
  decided := h.decided
  called := h.called

theorem Frames.begin (h : Frames completed doomed destructed sweeps frames)
    {new : List (List Instance)} (hnew : ∀ L ∈ new, Found published doomed L) :
    Frames completed doomed destructed (new ++ sweeps) frames where
  latest f hf hd := ⟨(h.latest f hf hd).1, (h.latest f hf hd).2.begin (h.latest f hf hd).1 hnew⟩
  creation := h.creation
  prototypes := h.prototypes
  decided := h.decided
  called := h.called

/-- Instances of other stores than that of the prototypes are doomed. -/
theorem Frames.doom (h : Frames completed doomed destructed sweeps frames) {bs : List Instance}
    (hbs : ∀ b ∈ bs, b.owner ≠ .prototypes) :
    Frames completed (doomed ++ bs) destructed sweeps frames where
  latest f hf hd := ⟨List.mem_append_left _ (h.latest f hf hd).1, (h.latest f hf hd).2⟩
  creation := h.creation
  prototypes := h.prototypes
  decided a ha howner :=
    h.decided a ((List.mem_append.mp ha).resolve_right fun hm => hbs a hm howner) howner
  called a ha := List.mem_append_left _ (h.called a ha)

/-- A creation begins to be announced. -/
theorem Frames.addCreation (h : Frames completed doomed destructed sweeps frames) {f : Frame}
    (hd : .destructor ∉ f.todo) : Frames completed doomed destructed sweeps (f :: frames) where
  latest f' hf' hd' := by
    rcases List.mem_cons.mp hf' with rfl | hf'
    · exact absurd hd' hd
    · exact h.latest f' hf' hd'
  creation f' hf' hr := by
    rcases List.mem_cons.mp hf' with rfl | hf'
    · exact hd
    · exact h.creation f' hf' hr
  prototypes f' hf' ho hd' := by
    rcases List.mem_cons.mp hf' with rfl | hf'
    · exact absurd hd' hd
    · exact h.prototypes f' hf' ho hd'
  decided a ha howner := (h.decided a ha howner).imp_right fun ⟨f', hf', hrest⟩ =>
    ⟨f', List.mem_cons_of_mem f hf', hrest⟩
  called := h.called

/-- The destruction of the latest living instance begins. -/
theorem Frames.addDestruction (h : Frames completed doomed destructed sweeps frames)
    {b : Instance} {role : Role} {deferDeallocation : Bool}
    (hlatest : Latest completed destructed sweeps b)
    (hrole : role ≠ .creation)
    (hproto : b.owner = .prototypes → role = .sweep .root ∨ ∃ k, role = .release k) :
    Frames completed (doomed ++ [b]) destructed sweeps
      (⟨b, destructionStages T b deferDeallocation, role⟩ :: frames) where
  latest f hf hd := by
    rcases List.mem_cons.mp hf with rfl | hf
    · exact ⟨List.mem_append_right _ (List.mem_singleton_self b), hlatest⟩
    · exact ⟨List.mem_append_left _ (h.latest f hf hd).1, (h.latest f hf hd).2⟩
  creation f hf hr := by
    rcases List.mem_cons.mp hf with rfl | hf
    · exact absurd hr hrole
    · exact h.creation f hf hr
  prototypes f hf ho hd := by
    rcases List.mem_cons.mp hf with rfl | hf
    · exact hproto ho
    · exact h.prototypes f hf ho hd
  decided a ha howner := by
    rcases List.mem_append.mp ha with ha | ha
    · exact (h.decided a ha howner).imp_right fun ⟨f', hf', hrest⟩ =>
        ⟨f', List.mem_cons_of_mem _ hf', hrest⟩
    -- The bean is doomed now, and its destructor is still to run in the new frame.
    · obtain rfl := List.mem_singleton.mp ha
      exact .inr ⟨_, List.mem_cons_self, rfl, by simp [destructionStages]⟩
  called a ha := List.mem_append_left _ (h.called a ha)

end Growth

/-! ## Steps of constructions -/

section Constructions

/-- The order of construction of the instances that a sweep found does not change. -/
theorem Inv.reverse_of_completed (h : Inv s) {m : Addr} (hm : m ∉ s.completed)
    (hs : s'.sweeps = s.sweeps) (hd : s'.destructed = s.destructed)
    (hc : s'.completed = s.completed ++ [m]) : s'.DestroysInReverse := by
  intro L hL a ha b hb hab hbd
  rw [hs] at hL
  rw [hd] at hbd ⊢
  rw [State.Before, hc] at hab
  rcases precedes_concat_iff.mp hab with hab | ⟨-, heq⟩
  · exact h.reverse L hL a ha b hb hab hbd
  · exact absurd (heq ▸ h.known.publishedCompleted a (h.sweeps.mem L hL a ha)) hm

variable {published doomed : List Instance} {slots : SlotId → Option Slot} {slotCount : ℕ}
  {constructions : List Construction}

/-- A slot is reserved for a construction. -/
theorem Slots.reserve (h : Slots published doomed slots slotCount constructions)
    {c : Construction} {k : SlotId} (hk : slots k = none) (hslot : c.slot = some k)
    (howner : c.bean.owner = .prototypes) (hd : c.bean ∉ doomed) :
    Slots published doomed (update slots k (some ⟨c.bean, false⟩)) (max slotCount (k + 1))
      (c :: constructions) := by
  -- A reservation adds no active slot, and takes none away.
  have hold : ∀ k' slot, slot.active = true →
      update slots k (some ⟨c.bean, false⟩) k' = some slot → slots k' = some slot := by
    intro k' slot hactive hget
    rw [Function.update_apply] at hget
    split at hget
    · obtain rfl := Option.some.inj hget
      cases hactive
    · exact hget
  have hkeep : ∀ k' slot, slots k' = some slot →
      update slots k (some ⟨c.bean, false⟩) k' = some slot := by
    intro k' slot hget
    rw [Function.update_of_ne]
    · exact hget
    · rintro rfl
      rw [hk] at hget
      cases hget
  refine ⟨fun k' hk' => ?_, fun k' slot hget => ?_,
    fun k' b hget => h.active k' b (hold k' _ rfl hget),
    fun k₁ k₂ b₁ b₂ h₁ h₂ => h.sorted k₁ k₂ b₁ b₂ (hold k₁ _ rfl h₁) (hold k₂ _ rfl h₂),
    fun b hb ho hbd => (h.slotOf b hb ho hbd).imp fun k' hget => hkeep k' _ hget,
    fun k' b hget => ?_, fun c' hc' k' hslot' => ?_, fun c' hc' hnone => ?_⟩
  · rw [Function.update_apply] at hk'
    split at hk'
    · rename_i heq
      exact heq ▸ Nat.lt_of_succ_le (le_max_right _ _)
    · exact (h.bound k' hk').trans_le (le_max_left _ _)
  · rw [Function.update_apply] at hget
    split at hget
    · obtain rfl := Option.some.inj hget
      exact hd
    · exact h.undoomed k' slot hget
  · rw [Function.update_apply] at hget
    split at hget
    · rename_i heq
      exact ⟨c, List.mem_cons_self, congrArg Slot.bean (Option.some.inj hget), heq ▸ hslot⟩
    · obtain ⟨c', hc', hrest⟩ := h.reserved k' b hget
      exact ⟨c', List.mem_cons_of_mem c hc', hrest⟩
  · rcases List.mem_cons.mp hc' with rfl | hc'
    · obtain rfl := Option.some.inj (hslot.symm.trans hslot')
      exact ⟨howner, .inl (Function.update_self ..)⟩
    · exact ⟨(h.construction c' hc' k' hslot').1,
        (h.construction c' hc' k' hslot').2.imp_left (hkeep k' _)⟩
  · rcases List.mem_cons.mp hc' with rfl | hc'
    · exact hd
    · exact h.undecided c' hc' hnone

/-- The constructions are others, with the same slots. -/
theorem Slots.of_constructions (h : Slots published doomed slots slotCount constructions)
    {constructions' : List Construction}
    (hold : ∀ c ∈ constructions', ∃ c' ∈ constructions, c'.bean = c.bean ∧ c'.slot = c.slot)
    (hnew : ∀ c ∈ constructions, ∀ k, slots k = some ⟨c.bean, false⟩ → c.slot = some k →
      ∃ c' ∈ constructions', c'.bean = c.bean ∧ c'.slot = c.slot) :
    Slots published doomed slots slotCount constructions' where
  bound := h.bound
  undoomed := h.undoomed
  active := h.active
  sorted := h.sorted
  slotOf := h.slotOf
  reserved k b hget := by
    obtain ⟨c, hc, rfl, hslot⟩ := h.reserved k b hget
    obtain ⟨c', hc', hbean, hslot'⟩ := hnew c hc k hget hslot
    exact ⟨c', hc', hbean, hslot'.trans hslot⟩
  construction c hc k hslot := by
    obtain ⟨c', hc', hbean, hslot'⟩ := hold c hc
    exact hbean ▸ h.construction c' hc' k (hslot'.trans hslot)
  undecided c hc hslot := by
    obtain ⟨c', hc', hbean, hslot'⟩ := hold c hc
    exact hbean ▸ h.undecided c' hc' (hslot'.trans hslot)

theorem Swept.of_slots {sweeps : List (List Instance)} {stop : Stop} {started : Bool}
    (h : Swept doomed sweeps slots stop started) {slots' : SlotId → Option Slot}
    (hkeep : ∀ k b, slots k = some ⟨b, true⟩ → b ∉ doomed → slots' k = some ⟨b, true⟩) :
    Swept doomed sweeps slots' stop started where
  idle := h.idle
  left L hL a ha ho hd := (h.left L hL a ha ho hd).imp_right fun ⟨next, hstop, k, hk, hget⟩ =>
    ⟨next, hstop, k, hk, hkeep k a hget hd⟩

theorem Inv.construct (h : Inv s) {c : Construction} (hm : s.Fresh c.bean.mem)
    (hslot : ∀ k ∈ c.slot, c.bean.owner = .prototypes ∧ s.SlotFree k)
    (hk : Known (constructStep s c)) : Inv (constructStep s c) := by
  cases hc : c.slot with
  | none =>
    have hstep : constructStep s c = { s with constructions := c :: s.constructions } := by
      simp [constructStep, hc]
    rw [hstep] at hk ⊢
    refine ⟨hk, h.sweeps, h.stores, h.queues, h.frames, ?_, h.swept, h.reverse⟩
    refine { h.slots with
      reserved := fun k b hget => ?_
      construction := fun c' hc' k hk' => ?_
      undecided := fun c' hc' hnone => ?_ }
    -- The bean is under construction without a slot.
    · obtain ⟨c', hc', hrest⟩ := h.slots.reserved k b hget
      exact ⟨c', List.mem_cons_of_mem c hc', hrest⟩
    · rcases List.mem_cons.mp hc' with rfl | hc'
      · rw [hc] at hk'
        cases hk'
      · exact h.slots.construction c' hc' k hk'
    · rcases List.mem_cons.mp hc' with rfl | hc'
      · exact fun hd => hm.2.2.2 (List.mem_map_of_mem hd)
      · exact h.slots.undecided c' hc' hnone
  | some k =>
    obtain ⟨howner, -, hfree, -⟩ := hslot k (by rw [hc]; rfl)
    have hd : c.bean ∉ s.doomed := fun hd => hm.2.2.2 (List.mem_map_of_mem hd)
    have hstep : constructStep s c =
        ({ s with constructions := c :: s.constructions }.setSlot k (some ⟨c.bean, false⟩)) := by
      simp [constructStep, hc]
    rw [hstep] at hk ⊢
    refine ⟨hk, h.sweeps, h.stores, h.queues, h.frames, h.slots.reserve hfree hc howner hd,
      -- The slot was free, so the sweep does not lose a bean.
      h.swept.of_slots fun k' b hget _ => (Function.update_of_ne ?_ _ _).trans hget, h.reverse⟩
    rintro rfl
    rw [hfree] at hget
    cases hget

theorem Inv.constructed (h : Inv s) {c : Construction} (hc : c ∈ s.constructions)
    (hr : c.returned = false) : Inv (constructedStep s c) := by
  have hnew : c.bean.mem ∉ s.completed := fun hm => by
    rw [(h.known.returned c hc).mpr hm] at hr
    cases hr
  have hdestructed : (constructedStep s c).destructed = s.destructed := by
    simp [constructedStep, State.destructed, State.record]
  have hsub : s.completed.Sublist (s.completed ++ [c.bean.mem]) := List.sublist_append_left _ _
  refine ⟨h.known.constructed hc hr, h.sweeps.mono hsub fun _ hm => hm, h.stores, ?_, ?_,
    h.slots.of_constructions (fun c' hc' => ?_) fun c' hc' k _ _ => ?_, h.swept,
    h.reverse_of_completed hnew rfl hdestructed rfl⟩
  · exact hdestructed.symm ▸ h.queues.mono hsub (fun _ hm => hm) (fun _ hm => hm) fun _ _ _ hf => hf
  · exact hdestructed.symm ▸ h.frames.mono hsub
  · rcases List.mem_cons.mp hc' with rfl | hc'
    · exact ⟨c, hc, rfl, rfl⟩
    · exact ⟨c', List.mem_of_mem_erase hc', rfl, rfl⟩
  · rcases eq_or_ne c' c with rfl | hne
    · exact ⟨_, List.mem_cons_self, rfl, rfl⟩
    · exact ⟨c', List.mem_cons_of_mem _ ((List.mem_erase_of_ne hne).mpr hc'), rfl, rfl⟩

theorem Inv.makeObject (h : Inv s) {m : Addr} (hm : s.Fresh m) :
    Inv { s with completed := s.completed ++ [m] } := by
  have hsub : s.completed.Sublist (s.completed ++ [m]) := List.sublist_append_left _ _
  exact ⟨h.known.makeObject hm, h.sweeps.mono hsub fun _ hm => hm, h.stores,
    h.queues.mono hsub (fun _ hm => hm) (fun _ hm => hm) fun _ _ _ hf => hf, h.frames.mono hsub,
    h.slots, h.swept, h.reverse_of_completed hm.1 rfl rfl rfl⟩

theorem Inv.constructorThrows (h : Inv s) {c : Construction} (hc : c ∈ s.constructions)
    (hk : Known (constructorThrowsStep s c)) : Inv (constructorThrowsStep s c) := by
  have herase : ∀ c' ∈ s.constructions, c'.bean ≠ c.bean → c' ∈ s.constructions.erase c :=
    fun c' hc' hne => (List.mem_erase_of_ne fun heq => hne (congrArg Construction.bean heq)).mpr hc'
  -- Without its slot, the construction leaves nothing behind.
  have hplain : (∀ k, s.slots k = some ⟨c.bean, false⟩ → c.slot ≠ some k) →
      Slots s.published s.doomed s.slots s.slotCount (s.constructions.erase c) := fun hno =>
    h.slots.of_constructions (fun c' hc' => ⟨c', List.mem_of_mem_erase hc', rfl, rfl⟩)
      fun c' hc' k hget hslot => by
        rcases eq_or_ne c' c with rfl | hne
        · exact absurd hslot (hno k hget)
        · exact ⟨c', (List.mem_erase_of_ne hne).mpr hc', rfl, rfl⟩
  rw [constructorThrowsStep] at hk ⊢
  split at hk
  · rename_i k hslot
    dsimp only at hk ⊢
    split at hk
    · rename_i hget
      rw [if_pos hget]
      have hne : ∀ k' slot, slot.bean ≠ c.bean → s.slots k' = some slot →
          update s.slots k none k' = some slot := fun k' slot hbean hget' => by
        rw [Function.update_of_ne]
        · exact hget'
        · rintro rfl
          exact hbean (congrArg Slot.bean (Option.some.inj (hget'.symm.trans hget)))
      have hold : ∀ k' slot, update s.slots k none k' = some slot → s.slots k' = some slot ∧
          k' ≠ k := fun k' slot hget' => by
        rw [Function.update_apply] at hget'
        split at hget'
        · cases hget'
        · exact ⟨hget', ‹_›⟩
      have hbean : c.bean ∉ s.published := fun hm =>
        h.known.unpublished c hc (List.mem_map_of_mem hm)
      refine ⟨hk, h.sweeps, h.stores, h.queues, h.frames, ?_, h.swept.of_slots ?_, h.reverse⟩
      · refine ⟨fun k' hk' => ?_,
          fun k' slot hget' => h.slots.undoomed k' slot (hold k' slot hget').1,
          fun k' b hget' => h.slots.active k' b (hold k' _ hget').1,
          fun k₁ k₂ b₁ b₂ h₁ h₂ => h.slots.sorted k₁ k₂ b₁ b₂ (hold k₁ _ h₁).1 (hold k₂ _ h₂).1,
          fun b hb ho hd => ?_, fun k' b hget' => ?_, fun c' hc' k' hslot' => ?_,
          fun c' hc' => h.slots.undecided c' (List.mem_of_mem_erase hc')⟩
        · obtain ⟨slot, hget'⟩ := Option.ne_none_iff_exists'.mp hk'
          have hne' : s.slots k' ≠ none := by
            rw [(hold k' slot hget').1]
            rintro ⟨⟩
          exact (h.slots.bound k' hne').trans_le (le_max_left _ _)
        · obtain ⟨k', hget'⟩ := h.slots.slotOf b hb ho hd
          exact ⟨k', hne k' _ (fun heq : b = c.bean => hbean (heq ▸ hb)) hget'⟩
        · obtain ⟨c', hc', rfl, hslot'⟩ := h.slots.reserved k' b (hold k' _ hget').1
          refine ⟨c', herase c' hc' fun heq => ?_, rfl, hslot'⟩
          have hcc : c' = c := by
            by_contra hcc
            exact h.known.ne_of_erase hc ((List.mem_erase_of_ne hcc).mpr hc') (heq ▸ rfl)
          subst hcc
          exact (hold k' _ hget').2 (Option.some.inj (hslot'.symm.trans hslot))
        · obtain ⟨ho, hget'⟩ := h.slots.construction c' (List.mem_of_mem_erase hc') k' hslot'
          refine ⟨ho, hget'.imp_left (hne k' _ fun heq => ?_)⟩
          exact h.known.ne_of_erase hc hc' (congrArg Instance.mem heq)
      · exact fun k' b hget' _ => hne k' _ (fun heq : b = c.bean =>
          hbean (heq ▸ (h.slots.active k' b hget').1)) hget'
    · rename_i hget
      rw [if_neg hget]
      refine ⟨hk, h.sweeps, h.stores, h.queues, h.frames, hplain fun k' hget' hslot' => ?_, h.swept,
        h.reverse⟩
      obtain rfl := Option.some.inj (hslot.symm.trans hslot')
      exact hget hget'
  · rename_i hslot
    refine ⟨hk, h.sweeps, h.stores, h.queues, h.frames, hplain fun k' _ hslot' => ?_, h.swept,
      h.reverse⟩
    rw [hslot] at hslot'
    cases hslot'

/-! ## Steps that bring instances into stores -/

/-- An instance of another store comes into its store. -/
theorem Slots.publish (h : Slots published doomed slots slotCount constructions) {b : Instance}
    (hb : b.owner ≠ .prototypes ∨ b ∈ doomed) :
    Slots (published ++ [b]) doomed slots slotCount constructions where
  bound := h.bound
  undoomed := h.undoomed
  active k b' hget := ⟨List.mem_append_left _ (h.active k b' hget).1, (h.active k b' hget).2⟩
  sorted k k' b₁ b₂ h₁ h₂ hk := (h.sorted k k' b₁ b₂ h₁ h₂ hk).append _
  slotOf b' hb' ho hd := by
    rcases List.mem_append.mp hb' with hb' | hb'
    · exact h.slotOf b' hb' ho hd
    · obtain rfl := List.mem_singleton.mp hb'
      exact absurd hb (not_or.mpr ⟨not_not.mpr ho, hd⟩)
  reserved := h.reserved
  construction := h.construction
  undecided := h.undecided

/-- A new prototype is in a slot above those of the living ones. -/
theorem Slots.activate (h : Slots published doomed slots slotCount constructions) {b : Instance}
    {k : SlotId} (howner : b.owner = .prototypes) (hb : b ∉ published) (hd : b ∉ doomed)
    (habove : ∀ k' b', slots k' = some ⟨b', true⟩ → k' < k)
    {constructions' : List Construction}
    (hreserved : ∀ k' b', k' ≠ k → slots k' = some ⟨b', false⟩ →
      ∃ c ∈ constructions', c.bean = b' ∧ c.slot = some k')
    (hconstruction : ∀ c ∈ constructions', c ∈ constructions ∧ ∀ k', c.slot = some k' →
      slots k' = some ⟨c.bean, false⟩ → k' ≠ k) :
    Slots (published ++ [b]) doomed (update slots k (some ⟨b, true⟩)) (max slotCount (k + 1))
      constructions' := by
  -- Every slot is the new one, or one of before.
  have hcases : ∀ k' slot, update slots k (some ⟨b, true⟩) k' = some slot →
      k' = k ∧ slot = ⟨b, true⟩ ∨ k' ≠ k ∧ slots k' = some slot := fun k' slot hget => by
    rw [Function.update_apply] at hget
    split at hget
    · exact .inl ⟨‹_›, (Option.some.inj hget).symm⟩
    · exact .inr ⟨‹_›, hget⟩
  have hkeep : ∀ k' b', slots k' = some ⟨b', true⟩ →
      update slots k (some ⟨b, true⟩) k' = some ⟨b', true⟩ := fun k' b' hget => by
    rw [Function.update_of_ne (habove k' b' hget).ne]
    exact hget
  -- The active slots are in the order of their publication; the new one is above all others.
  refine ⟨fun k' hk' => ?_, fun k' slot hget => ?_, fun k' b' hget => ?_,
    fun k₁ k₂ b₁ b₂ h₁ h₂ hk => ?_, fun b' hb' ho hd' => ?_, fun k' b' hget => ?_,
    fun c hc k' hslot => ?_, fun c hc => h.undecided c (hconstruction c hc).1⟩
  · obtain ⟨slot, hget⟩ := Option.ne_none_iff_exists'.mp hk'
    rcases hcases k' slot hget with ⟨rfl, -⟩ | ⟨-, hget⟩
    · exact Nat.lt_of_succ_le (le_max_right _ _)
    · exact (h.bound k' (by rw [hget]; nofun)).trans_le (le_max_left _ _)
  · rcases hcases k' slot hget with ⟨-, rfl⟩ | ⟨-, hget⟩
    · exact hd
    · exact h.undoomed k' slot hget
  · rcases hcases k' _ hget with ⟨-, heq⟩ | ⟨-, hget⟩
    · obtain ⟨rfl, -⟩ := Slot.mk.inj heq
      exact ⟨List.mem_append_right _ (List.mem_singleton_self _), howner⟩
    · exact ⟨List.mem_append_left _ (h.active k' b' hget).1, (h.active k' b' hget).2⟩
  · rcases hcases k₁ _ h₁ with ⟨rfl, heq₁⟩ | ⟨-, hget₁⟩
    · rcases hcases k₂ _ h₂ with ⟨rfl, -⟩ | ⟨-, hget₂⟩
      · exact absurd hk (lt_irrefl _)
      · exact absurd hk (habove k₂ b₂ hget₂).not_gt
    · rcases hcases k₂ _ h₂ with ⟨rfl, heq₂⟩ | ⟨-, hget₂⟩
      · obtain ⟨rfl, -⟩ := Slot.mk.inj heq₂
        exact precedes_concat (h.active k₁ b₁ hget₁).1
      · exact (h.sorted k₁ k₂ b₁ b₂ hget₁ hget₂ hk).append _
  · rcases List.mem_append.mp hb' with hb' | hb'
    · exact (h.slotOf b' hb' ho hd').imp fun k' hget => hkeep k' b' hget
    · obtain rfl := List.mem_singleton.mp hb'
      exact ⟨k, Function.update_self ..⟩
  · rcases hcases k' _ hget with ⟨-, heq⟩ | ⟨hne, hget⟩
    · cases heq
    · exact hreserved k' b' hne hget
  · obtain ⟨hc, hne⟩ := hconstruction c hc
    refine ⟨(h.construction c hc k' hslot).1,
      (h.construction c hc k' hslot).2.imp_left fun hget => ?_⟩
    rw [Function.update_of_ne (hne k' hslot hget)]
    exact hget

theorem Known.eq_of_bean (h : Known s) {c c' : Construction} (hc : c ∈ s.constructions)
    (hc' : c' ∈ s.constructions) (heq : c'.bean = c.bean) : c' = c := by
  by_contra hne
  exact h.ne_of_erase hc ((List.mem_erase_of_ne hne).mpr hc') (congrArg Instance.mem heq)

theorem destructor_notMem_creation (T : Table) (b : Instance) (ctxScope : Option NameId) :
    Stage.destructor ∉ creationStages T b ctxScope := by
  rw [creationStages]
  split <;> simp

/-- The reserved slots of the other constructions. -/
theorem Slots.reserved_erase (h : Slots published doomed slots slotCount constructions)
    {c : Construction} {k : SlotId} {b : Instance} (hget : slots k = some ⟨b, false⟩)
    (hne : c.slot ≠ some k) : ∃ c' ∈ constructions.erase c, c'.bean = b ∧ c'.slot = some k := by
  obtain ⟨c', hc', hbean, hslot⟩ := h.reserved k b hget
  refine ⟨c', (List.mem_erase_of_ne fun heq => hne ?_).mpr hc', hbean, hslot⟩
  rw [← heq, hslot]

theorem Inv.notMem_published (h : Inv s) {c : Construction} (hc : c ∈ s.constructions) :
    c.bean ∉ s.published := fun hm => h.known.unpublished c hc (List.mem_map_of_mem hm)

theorem Inv.above (h : Inv s) {k : SlotId} (hk : s.Above k) {k' : SlotId} {b : Instance}
    (hget : s.slots k' = some ⟨b, true⟩) : k' < k :=
  hk k' (h.slots.bound k' (by rw [hget]; nofun)) ⟨b, true⟩ hget rfl

theorem Inv.store (h : Inv s) {c : Construction} (hc : c ∈ s.constructions)
    (hr : c.returned = true) (howner : c.bean.owner ≠ .prototypes) (hlast : s.Last c.bean) :
    Inv ((s.publish T c).store c.bean) := by
  have hnew := h.notMem_published hc
  have hslot : ∀ k, c.slot ≠ some k := fun k hk => howner (h.slots.construction c hc k hk).1
  refine ⟨(h.known.publish (T := T) hc hr).of_eq rfl rfl rfl,
    h.sweeps.publish hnew hlast, h.stores.publish hnew howner,
    h.queues.mono (List.Sublist.refl _) (fun _ hm => hm) (fun _ hm => hm) fun p b _ hf => hf.cons _,
    h.frames.addCreation (destructor_notMem_creation T _ _),
    (h.slots.of_constructions (fun c' hc' => ⟨c', List.mem_of_mem_erase hc', rfl, rfl⟩)
      fun c' hc' k _ hk => ?_).publish (.inl howner), h.swept, h.reverse⟩
  refine ⟨c', (List.mem_erase_of_ne ?_).mpr hc', rfl, rfl⟩
  rintro rfl
  exact hslot k hk

theorem Inv.storeBound (h : Inv s) {b : Instance} (howner : b.owner ≠ .prototypes)
    (hp : b.mem ∉ s.published.map Instance.mem) (hlast : s.Last b)
    (hk : Known (storeBoundStep s b)) : Inv (storeBoundStep s b) := by
  have hnew : b ∉ s.published := fun hm => hp (List.mem_map_of_mem hm)
  exact ⟨hk, h.sweeps.publish hnew hlast, h.stores.publish hnew howner,
    h.queues.mono (List.Sublist.refl _) (fun _ hm => hm) (fun _ hm => hm) fun p b _ hf => hf.cons _,
    h.frames.addCreation (by simp [boundStages]), h.slots.publish (.inl howner), h.swept, h.reverse⟩

/-- A prototype comes into a slot that is not in use. -/
theorem Inv.publishPrototype (h : Inv s) {c : Construction} {k : SlotId}
    (hc : c ∈ s.constructions) (hr : c.returned = true) (howner : c.bean.owner = .prototypes)
    (hd : c.bean ∉ s.doomed) (hk : ∀ b, s.slots k = some ⟨b, false⟩ → b = c.bean)
    (hslot : ∀ k', c.slot = some k' → k' = k) (hlast : s.Last c.bean) (habove : s.Above k) :
    Inv ((s.publish T c).setSlot k (some ⟨c.bean, true⟩)) := by
  have hnew := h.notMem_published hc
  refine ⟨(h.known.publish (T := T) hc hr).of_eq rfl rfl rfl,
    h.sweeps.publish hnew hlast, h.stores.publishPrototype howner,
    h.queues.mono (List.Sublist.refl _) (fun _ hm => hm) (fun _ hm => hm) fun p b _ hf => hf.cons _,
    h.frames.addCreation (destructor_notMem_creation T _ _),
    h.slots.activate howner hnew hd (fun k' b hget => h.above habove hget)
      (fun k' b' hne hget => h.slots.reserved_erase hget fun hk' => hne (hslot k' hk'))
      (fun c' hc' => ⟨List.mem_of_mem_erase hc', fun k' _ hget heq => ?_⟩),
    h.swept.of_slots fun k' b hget _ =>
      (Function.update_of_ne (h.above habove hget).ne _ _).trans hget, h.reverse⟩
  exact h.known.ne_of_erase hc hc' (congrArg Instance.mem (hk _ (heq ▸ hget)))

theorem Inv.allocate (h : Inv s) {c : Construction} {k : SlotId} (hc : c ∈ s.constructions)
    (hr : c.returned = true) (howner : c.bean.owner = .prototypes) (hslot : c.slot = none)
    (hfree : s.slots k = none) (hlast : s.Last c.bean) (habove : s.Above k) :
    Inv ((s.publish T c).setSlot k (some ⟨c.bean, true⟩)) :=
  h.publishPrototype hc hr howner (h.slots.undecided c hc hslot)
    (fun b hget => by rw [hfree] at hget; cases hget)
    (fun k' hk' => by rw [hslot] at hk'; cases hk') hlast habove

theorem Inv.activate (h : Inv s) {c : Construction} {k : SlotId} (hc : c ∈ s.constructions)
    (hr : c.returned = true) (hslot : c.slot = some k) (hlast : s.Last c.bean)
    (habove : s.Above k) : Inv (activateStep T s c k) := by
  obtain ⟨howner, hget⟩ := h.slots.construction c hc k hslot
  have hnew := h.notMem_published hc
  have hslot' : ∀ k', c.slot = some k' → k' = k := fun k' hk' =>
    (Option.some.inj (hslot.symm.trans hk')).symm
  rw [activateStep]
  -- While the constructor ran, a stop may have swept the reserved slot away. Then the bean is
  -- published all the same, and is doomed already.
  split
  · rename_i hget
    have hget : s.slots k = some ⟨c.bean, false⟩ := hget
    exact h.publishPrototype hc hr howner (h.slots.undoomed k _ hget)
      (fun b hget' => congrArg Slot.bean (Option.some.inj (hget'.symm.trans hget))) hslot' hlast
      habove
  · rename_i hne
    have hd := hget.resolve_left hne
    refine ⟨h.known.publish (T := T) hc hr, h.sweeps.publish hnew hlast,
      h.stores.publishPrototype howner, h.queues.mono (List.Sublist.refl _) (fun _ hm => hm)
        (fun _ hm => hm) fun p b _ hf => hf.cons _,
      h.frames.addCreation (destructor_notMem_creation T _ _),
      (h.slots.of_constructions (fun c' hc' => ⟨c', List.mem_of_mem_erase hc', rfl, rfl⟩)
        fun c' hc' k' hget' hk' => ?_).publish (.inr hd), h.swept, h.reverse⟩
    refine ⟨c', (List.mem_erase_of_ne ?_).mpr hc', rfl, rfl⟩
    rintro rfl
    obtain rfl := hslot' k' hk'
    exact hne hget'

end Constructions

/-! ## Steps of frames -/

section Frames

theorem destructed_perform (s : State) (f : Frame) (e : Stage) (rest : List Stage) :
    (performStep s f e rest).destructed =
      s.destructed ++ if e = .destructor then [f.bean] else [] := by
  simp only [performStep, State.destructed, State.record, List.filterMap_append,
    List.filterMap_cons, List.filterMap_nil]
  split <;> simp_all

theorem Inv.perform (h : Inv s) {f : Frame} {e : Stage} {rest : List Stage}
    (htodo : f.todo = e :: rest) (hf : f ∈ s.frames) : Inv (performStep s f e rest) := by
  have hdestructed := destructed_perform s f e rest
  have hsub : s.destructed ⊆ (performStep s f e rest).destructed := by
    rw [hdestructed]
    exact List.subset_append_left _ _
  -- The frame goes on, unless its step is the destructor.
  have hgo : ∀ f' ∈ s.frames, .destructor ∈ f'.todo →
      f'.bean ∈ (performStep s f e rest).destructed ∨ ∃ f'' ∈ (performStep s f e rest).frames,
        f''.bean = f'.bean ∧ f''.role = f'.role ∧ .destructor ∈ f''.todo := by
    intro f' hf' hd
    rcases eq_or_ne f' f with rfl | hne
    · rw [htodo] at hd
      rcases List.mem_cons.mp hd with rfl | hd
      · refine .inl ?_
        rw [hdestructed, if_pos rfl]
        exact List.mem_append_right _ (List.mem_singleton_self _)
      · exact .inr ⟨_, List.mem_cons_self, rfl, rfl, hd⟩
    · exact .inr ⟨f', List.mem_cons_of_mem _ ((List.mem_erase_of_ne hne).mpr hf'), rfl, rfl, hd⟩
  have hback : ∀ f' ∈ (performStep s f e rest).frames, ∃ f'' ∈ s.frames,
      f''.bean = f'.bean ∧ f''.role = f'.role ∧ ∀ e' ∈ f'.todo, e' ∈ f''.todo := by
    intro f' hf'
    rcases List.mem_cons.mp hf' with rfl | hf'
    · exact ⟨f, hf, rfl, rfl, fun e' he' => htodo ▸ List.mem_cons_of_mem e he'⟩
    · exact ⟨f', List.mem_of_mem_erase hf', rfl, rfl, fun _ he' => he'⟩
  refine ⟨h.known.of_eq rfl rfl rfl, h.sweeps, h.stores,
    h.queues.mono (List.Sublist.refl _) (fun _ hm => hm) hsub fun p b hb hframed => ?_,
    ⟨fun f' hf' hd => ?_, fun f' hf' hr hd => ?_, fun f' hf' ho hd => ?_, fun b hb ho => ?_,
      fun b hb => ?_⟩, h.slots, h.swept, fun L hL b hb c hc hcb hd => ?_⟩
  · obtain ⟨f', hf', rfl, hrole, hd⟩ := hframed
    obtain ⟨f'', hf'', hbean, hrole', hd'⟩ := (hgo f' hf' hd).resolve_left hb
    exact ⟨f'', hf'', hbean, hrole'.trans hrole, hd'⟩
  · obtain ⟨f'', hf'', hbean, -, htodo'⟩ := hback f' hf'
    obtain ⟨hdoomed, hlatest⟩ := h.frames.latest f'' hf'' (htodo' _ hd)
    exact hbean ▸ ⟨hdoomed, hlatest.mono (List.Sublist.refl _) hsub⟩
  · obtain ⟨f'', hf'', -, hrole, htodo'⟩ := hback f' hf'
    exact h.frames.creation f'' hf'' (hrole.trans hr) (htodo' _ hd)
  · obtain ⟨f'', hf'', hbean, hrole, htodo'⟩ := hback f' hf'
    exact hrole ▸ h.frames.prototypes f'' hf'' (hbean ▸ ho) (htodo' _ hd)
  · rcases h.frames.decided b hb ho with hd | ⟨f', hf', rfl, hd⟩
    · exact .inl (hsub hd)
    · exact (hgo f' hf' hd).imp_right fun ⟨f'', hf'', hbean, _, hd'⟩ => ⟨f'', hf'', hbean, hd'⟩
  · rw [hdestructed] at hb
    rcases List.mem_append.mp hb with hb | hb
    · exact h.frames.called b hb
    · split at hb
      · rename_i he
        obtain rfl := List.mem_singleton.mp hb
        exact (h.frames.latest f hf (htodo ▸ he ▸ List.mem_cons_self)).1
      · cases hb
  · rw [hdestructed] at hd ⊢
    rcases List.mem_append.mp hd with hd | hd
    · exact (h.reverse L hL b hb c hc hcb hd).append _
    · split at hd
      · rename_i he
        rw [if_pos he]
        obtain rfl := List.mem_singleton.mp hd
        have hne : b ≠ f.bean := fun heq => hcb.ne h.known.completed (congrArg _ heq.symm)
        refine precedes_concat (by_contra fun hbd => ?_)
        have hlatest := (h.frames.latest f hf (htodo ▸ he ▸ List.mem_cons_self)).2
        exact Earlier.asymm (hlatest L hL hc b hb hne hbd) h.known.completed hcb
      · cases hd

/-- A frame without a destructor ends. -/
theorem Inv.dropFrame (h : Inv s) {f : Frame} (hd : .destructor ∉ f.todo) :
    Inv (finishStep s f) := by
  have hkeep : ∀ f' ∈ s.frames, .destructor ∈ f'.todo → f' ∈ s.frames.erase f :=
    fun f' hf' hd' => (List.mem_erase_of_ne fun heq : f' = f => hd (heq ▸ hd')).mpr hf'
  refine ⟨h.known.of_eq rfl rfl rfl, h.sweeps, h.stores,
    h.queues.mono (List.Sublist.refl _) (fun _ hm => hm) (fun _ hm => hm) ?_,
    ⟨fun f' hf' => h.frames.latest f' (List.mem_of_mem_erase hf'),
      fun f' hf' => h.frames.creation f' (List.mem_of_mem_erase hf'),
      fun f' hf' => h.frames.prototypes f' (List.mem_of_mem_erase hf'), fun b hb ho => ?_,
      h.frames.called⟩, h.slots, h.swept, h.reverse⟩
  · rintro p b - ⟨f', hf', hbean, hrole, hd'⟩
    exact ⟨f', hkeep f' hf' hd', hbean, hrole, hd'⟩
  · exact (h.frames.decided b hb ho).imp_right fun ⟨f', hf', hbean, hd'⟩ =>
      ⟨f', hkeep f' hf' hd', hbean, hd'⟩

end Frames

/-! ## Steps that take prototypes -/

section Prototypes

theorem Inv.slot_inj (h : Inv s) {k k' : SlotId} {slot slot' : Slot} (hk : s.slots k = some slot)
    (hk' : s.slots k' = some slot') (heq : slot.bean = slot'.bean) : k = k' := by
  have hmixed : ∀ {k k' : SlotId} {b : Instance}, s.slots k = some ⟨b, true⟩ →
      s.slots k' ≠ some ⟨b, false⟩ := fun ha hr => by
    obtain ⟨c, hc, rfl, -⟩ := h.slots.reserved _ _ hr
    exact h.notMem_published hc (h.slots.active _ _ ha).1
  obtain ⟨b, active⟩ := slot
  obtain ⟨b', active'⟩ := slot'
  obtain rfl : b = b' := heq
  cases active <;> cases active'
  · obtain ⟨c, hc, rfl, hslot⟩ := h.slots.reserved _ _ hk
    obtain ⟨c', hc', hbean, hslot'⟩ := h.slots.reserved _ _ hk'
    obtain rfl := h.known.eq_of_bean hc hc' hbean
    exact Option.some.inj (hslot.symm.trans hslot')
  · exact absurd hk (hmixed hk')
  · exact absurd hk' (hmixed hk)
  · have hnodup := h.known.published.of_map
    rcases lt_trichotomy k k' with hlt | heq | hlt
    · exact absurd rfl ((h.slots.sorted k k' b b hk hk' hlt).ne hnodup)
    · exact heq
    · exact absurd rfl ((h.slots.sorted k' k b b hk' hk hlt).ne hnodup)

/-- The object of a slot is taken. -/
theorem Inv.takeSlot (h : Inv s) {k : SlotId} {slot : Slot} (hk : s.slots k = some slot) :
    Slots s.published (s.doomed ++ [slot.bean]) (update s.slots k none)
      (max s.slotCount (k + 1)) s.constructions := by
  -- Beans lie in one slot each, so the others keep theirs.
  have hold : ∀ k' slot', update s.slots k none k' = some slot' →
      s.slots k' = some slot' ∧ slot'.bean ≠ slot.bean := fun k' slot' hget => by
    rw [Function.update_apply] at hget
    split at hget
    · cases hget
    · exact ⟨hget, fun heq => ‹k' ≠ k› (h.slot_inj hget hk heq)⟩
  have hkeep : ∀ k' slot', s.slots k' = some slot' → slot'.bean ≠ slot.bean →
      update s.slots k none k' = some slot' := fun k' slot' hget hne => by
    rw [Function.update_of_ne]
    · exact hget
    · rintro rfl
      exact hne (congrArg Slot.bean (Option.some.inj (hget.symm.trans hk)))
  have hdoomed : ∀ b, b ∉ s.doomed ++ [slot.bean] → b ∉ s.doomed ∧ b ≠ slot.bean := fun b hb =>
    ⟨fun hm => hb (List.mem_append_left _ hm),
      fun heq => hb (List.mem_append_right _ (List.mem_singleton.mpr heq))⟩
  refine ⟨fun k' hk' => ?_, fun k' slot' hget => ?_, fun k' b hget => h.slots.active k' b
    (hold k' _ hget).1, fun k₁ k₂ b₁ b₂ h₁ h₂ => h.slots.sorted k₁ k₂ b₁ b₂ (hold k₁ _ h₁).1
    (hold k₂ _ h₂).1, fun b hb ho hd => ?_,
    fun k' b hget => h.slots.reserved k' b (hold k' _ hget).1,
    fun c hc k' hslot => ?_, fun c hc hnone => ?_⟩
  · obtain ⟨slot', hget⟩ := Option.ne_none_iff_exists'.mp hk'
    exact (h.slots.bound k' (by rw [(hold k' slot' hget).1]; nofun)).trans_le (le_max_left _ _)
  · rw [List.mem_append, List.mem_singleton, not_or]
    exact ⟨h.slots.undoomed k' slot' (hold k' slot' hget).1, (hold k' slot' hget).2⟩
  -- A prototype that is not doomed has its slot still.
  · obtain ⟨hd, hne⟩ := hdoomed b hd
    exact (h.slots.slotOf b hb ho hd).imp fun k' hget => hkeep k' _ hget hne
  · obtain ⟨ho, hget⟩ := h.slots.construction c hc k' hslot
    refine ⟨ho, ?_⟩
    -- The construction has lost its slot exactly if it is that of the swept bean.
    rcases eq_or_ne c.bean slot.bean with heq | hne
    · exact .inr (List.mem_append_right _ (List.mem_singleton.mpr heq))
    · exact hget.imp (fun hget => hkeep k' _ hget hne) fun hd => List.mem_append_left _ hd
  · rw [List.mem_append, List.mem_singleton, not_or]
    refine ⟨h.slots.undecided c hc hnone, fun heq => ?_⟩
    obtain ⟨b, active⟩ := slot
    obtain rfl : c.bean = b := heq
    cases active with
    | true => exact h.notMem_published hc (h.slots.active k _ hk).1
    | false =>
      obtain ⟨c', hc', hbean, hslot⟩ := h.slots.reserved k _ hk
      obtain rfl := h.known.eq_of_bean hc hc' hbean
      rw [hnone] at hslot
      cases hslot

theorem Swept.doom {sweeps : List (List Instance)} {doomed doomed' : List Instance}
    {slots : SlotId → Option Slot} {stop : Stop} {started : Bool}
    (h : Swept doomed sweeps slots stop started) (hd : doomed ⊆ doomed') :
    Swept doomed' sweeps slots stop started where
  idle := h.idle
  left L hL a ha ho hn := h.left L hL a ha ho fun hm => hn (hd hm)

/-- The other prototypes that a sweep found stay in their slots. -/
theorem Inv.sweptTake (h : Inv s) {k : SlotId} {slot : Slot} (hk : s.slots k = some slot) :
    Swept (s.doomed ++ [slot.bean]) s.sweeps (update s.slots k none) s.stop s.started := by
  refine (h.swept.doom (List.subset_append_left _ _)).of_slots fun k' b hget hd => ?_
  rw [Function.update_of_ne]
  · exact hget
  · rintro rfl
    refine hd (List.mem_append_right _ (List.mem_singleton.mpr ?_))
    exact congrArg Slot.bean (Option.some.inj (hget.symm.trans hk))

/-- The object of a slot is taken to be destroyed. -/
theorem Inv.destroySlot (h : Inv s) {k : SlotId} {slot : Slot} (hk : s.slots k = some slot)
    {role : Role} (hlatest : Latest s.completed s.destructed s.sweeps slot.bean)
    (hrole : role = .sweep .root ∨ ∃ k, role = .release k) :
    Inv ((s.setSlot k none).destroy T slot.bean role) := by
  have hsub : s.doomed ⊆ s.doomed ++ [slot.bean] := List.subset_append_left _ _
  refine ⟨h.known.of_eq rfl rfl rfl, h.sweeps.mono (List.Sublist.refl _) hsub, h.stores,
    h.queues.mono (List.Sublist.refl _) hsub (fun _ hm => hm) fun p b _ hf => hf.cons _,
    h.frames.addDestruction hlatest ?_ fun _ => hrole, h.takeSlot hk, h.sweptTake hk, h.reverse⟩
  rcases hrole with rfl | ⟨k', rfl⟩ <;> nofun

theorem Inv.release (h : Inv s) {k : SlotId} {b : Instance} (hk : s.slots k = some ⟨b, true⟩)
    (hG : Guard s (.release k)) : Inv ((s.setSlot k none).destroy T b (.release k)) := by
  obtain ⟨-, howner⟩ := h.slots.active k b hk
  refine h.destroySlot hk (fun L hL hb a ha hne hd => ?_) (.inr ⟨k, rfl⟩)
  -- Only a sweep that goes on has found a prototype that is still in its slot.
  have hstop : s.stop.active = true := by
    rcases h.swept.left L hL b hb howner (h.slots.undoomed k _ hk) with hs | ⟨next, hs, -⟩ <;>
      rw [hs] <;> rfl
  exact hG hstop ⟨b, true⟩ hk a (h.sweeps.mem L hL a ha)
    ((h.sweeps.owner L hL a ha b hb).trans howner) hd hne

theorem Inv.sweepSlot (h : Inv s) {k : SlotId} (hstop : s.stop = .prototypes (k + 1))
    (hidle : s.Idle .root) {slot : Slot} (hk : s.slots k = some slot)
    (hG : Guard s .sweepSlot) :
    Inv { (s.setSlot k none).destroy T slot.bean (.sweep .root) with stop := .prototypes k } := by
  -- The sweep goes down. A bean of a higher slot that is not destroyed yet would be left in the
  -- store, or have a frame, and neither is the case.
  have hlatest : Latest s.completed s.destructed s.sweeps slot.bean := by
    intro L hL hb a ha hne hd
    obtain ⟨b, active⟩ := slot
    have hpub := h.sweeps.mem L hL _ hb
    cases active with
    | false =>
      obtain ⟨c, hc, rfl, -⟩ := h.slots.reserved k b hk
      exact absurd hpub (h.notMem_published hc)
    | true =>
      have howner := (h.sweeps.owner L hL a ha _ hb).trans (h.slots.active k b hk).2
      have hundoomed : a ∉ s.doomed := fun hm => by
        obtain ⟨f, hf, rfl, hdes⟩ := (h.frames.decided a hm howner).resolve_left hd
        rcases h.frames.prototypes f hf howner hdes with hrole | ⟨k', hrole⟩
        · exact hidle f hf hrole
        · exact hG f hf (by rw [hrole]; rfl) hdes
      rcases h.swept.left L hL a ha howner hundoomed with hs | ⟨next, hs, k', hlt, hget⟩
      · rw [hstop] at hs
        cases hs
      · obtain rfl := Stop.prototypes.inj (hstop.symm.trans hs)
        have hk' : k' ≠ k := by
          rintro rfl
          exact hne (congrArg Slot.bean (Option.some.inj (hget.symm.trans hk)))
        exact h.sweeps.sorted L hL a ha b hb (h.slots.sorted k' k a b hget hk
          (lt_of_le_of_ne (Nat.le_of_lt_succ hlt) hk'))
  have hnext : Inv ((s.setSlot k none).destroy T slot.bean (.sweep .root)) :=
    h.destroySlot hk hlatest (.inl rfl)
  refine ⟨hnext.known.of_eq rfl rfl rfl, hnext.sweeps, hnext.stores, hnext.queues, hnext.frames,
    hnext.slots, ⟨fun hst => ?_, fun L hL a ha ho hd => ?_⟩, hnext.reverse⟩
  -- The stop goes on at the next lower slot.
  · have hidle' := h.swept.idle hst
    rw [hstop] at hidle'
    cases hidle'
  · rcases hnext.swept.left L hL a ha ho hd with hs | ⟨next, hs, k', hlt, hget⟩
    · rw [show s.stop = .singletons from hs] at hstop
      cases hstop
    · obtain rfl := Stop.prototypes.inj (hstop.symm.trans (show s.stop = _ from hs))
      refine .inr ⟨k, rfl, k', lt_of_le_of_ne (Nat.le_of_lt_succ hlt) ?_, hget⟩
      rintro rfl
      have hnone : update s.slots k' none k' = none := Function.update_self ..
      exact nomatch hnone.symm.trans hget

theorem Inv.skipSlot (h : Inv s) {k : SlotId} (hstop : s.stop = .prototypes (k + 1))
    (hk : s.slots k = none) : Inv { s with stop := .prototypes k } := by
  refine { h with known := h.known.of_eq rfl rfl rfl, swept := ⟨fun hst => ?_, ?_⟩ }
  · have hidle := h.swept.idle hst
    rw [hstop] at hidle
    cases hidle
  · intro L hL a ha ho hd
    rcases h.swept.left L hL a ha ho hd with hs | ⟨next, hs, k', hlt, hget⟩
    · rw [hstop] at hs
      cases hs
    · obtain rfl := Stop.prototypes.inj (hstop.symm.trans hs)
      refine .inr ⟨k, rfl, k', lt_of_le_of_ne (Nat.le_of_lt_succ hlt) ?_, hget⟩
      rintro rfl
      rw [hk] at hget
      cases hget

end Prototypes

/-! ## Steps of sweeps -/

section Sweeping

/-- The instances of stores are doomed. -/
theorem Slots.doom {published doomed : List Instance} {slots : SlotId → Option Slot}
    {slotCount : ℕ} {constructions : List Construction}
    (h : Slots published doomed slots slotCount constructions) {bs : List Instance}
    (howner : ∀ b ∈ bs, b.owner ≠ .prototypes)
    (hc : ∀ c ∈ constructions, c.slot = none → c.bean ∉ bs) :
    Slots published (doomed ++ bs) slots slotCount constructions where
  bound := h.bound
  undoomed k slot hget := by
    rw [List.mem_append, not_or]
    refine ⟨h.undoomed k slot hget, fun hm => howner _ hm ?_⟩
    obtain ⟨b, active⟩ := slot
    -- A bean in a slot is a prototype, whether it is active or reserved.
    cases active with
    | true => exact (h.active k b hget).2
    | false =>
      obtain ⟨c, hcm, rfl, hslot⟩ := h.reserved k b hget
      exact (h.construction c hcm k hslot).1
  active := h.active
  sorted := h.sorted
  slotOf b hb ho hd := h.slotOf b hb ho fun hm => hd (List.mem_append_left _ hm)
  reserved := h.reserved
  construction c hcm k hslot :=
    ⟨(h.construction c hcm k hslot).1,
      (h.construction c hcm k hslot).2.imp_right (List.mem_append_left _)⟩
  undecided c hcm hnone := by
    rw [List.mem_append, not_or]
    exact ⟨h.undecided c hcm hnone, hc c hcm hnone⟩

/-- The instances that sweeps found when they began are not prototypes. -/
theorem Swept.begin {sweeps : List (List Instance)} {doomed : List Instance}
    {slots : SlotId → Option Slot} {stop : Stop} {started : Bool}
    (h : Swept doomed sweeps slots stop started) {new : List (List Instance)}
    (hnew : ∀ L ∈ new, ∀ a ∈ L, a.owner ≠ .prototypes) :
    Swept doomed (new ++ sweeps) slots stop started where
  idle := h.idle
  left L hL a ha ho hd := by
    rcases List.mem_append.mp hL with hL | hL
    · exact absurd ho (hnew L hL a ha)
    · exact h.left L hL a ha ho hd

/-- Instances that are taken from stores, and keep the order in which they came into them. -/
structure Taken (s : State) (l : List Instance) : Prop where
  nodup : l.Nodup
  mem : ∀ b ∈ l, b ∈ s.published
  owner : ∀ b ∈ l, b.owner ≠ .prototypes
  order : ∀ b ∈ l, ∀ a, Precedes s.published b a → a.owner = b.owner → Precedes l b a

theorem Inv.taken_stored (h : Inv s) {o : Owner} (ho : o ≠ .prototypes) : Taken s (s.stored o) where
  nodup := h.known.published.of_map.sublist (h.stores.sublist o)
  mem b hb := (h.stores.sublist o).subset hb
  owner b hb := (h.stores.owner o b hb).1.symm ▸ ho
  order b hb a hab hao := by
    have ha := h.stores.suffix o b hb a hab (hao.trans (h.stores.owner o b hb).1)
    exact hab.restrict h.known.published.of_map (h.stores.sublist o) hb ha

theorem Inv.taken_entries (h : Inv s) {threads : List ThreadLocal.ThreadId}
    (ht : threads.Nodup) : Taken s (entriesOf s threads) := by
  have hstored : ∀ b ∈ entriesOf s threads, ∃ t ∈ threads, b ∈ s.stored (.threadLocal t) :=
    fun b hb => List.mem_flatMap.mp hb
  have howner : ∀ {t b}, b ∈ s.stored (.threadLocal t) → b.owner = .threadLocal t :=
    fun hb => (h.stores.owner _ _ hb).1
  have hsub : ∀ t ∈ threads, (s.stored (.threadLocal t)).Sublist (entriesOf s threads) :=
    fun t hmem => List.sublist_flatten_of_mem (List.mem_map_of_mem hmem)
  have htaken : ∀ t, Taken s (s.stored (.threadLocal t)) := fun t =>
    h.taken_stored (o := .threadLocal t) nofun
  refine ⟨List.nodup_flatMap.mpr ⟨fun t _ => (htaken t).nodup, ht.imp fun hne => ?_⟩,
    fun b hb => ?_, fun b hb => ?_, fun b hb a hab hao => ?_⟩
  · exact fun b hb hb' => hne (Owner.threadLocal.inj ((howner hb).symm.trans (howner hb')))
  · obtain ⟨t, -, hb⟩ := hstored b hb
    exact (htaken t).mem b hb
  · obtain ⟨t, -, hb⟩ := hstored b hb
    exact (htaken t).owner b hb
  · obtain ⟨t, hmem, hb⟩ := hstored b hb
    exact ((htaken t).order b hb a hab hao).mono (hsub t hmem)

/-- A sweep begins with instances that are taken from stores, the last one first. -/
theorem Inv.beginSweep (h : Inv s) {l : List Instance} (hl : Taken s l)
    {new : List (List Instance)} (hnew : ∀ L ∈ new, Found s.published s.doomed L) (p : Sweeper) :
    Sweeps s.completed s.published (s.doomed ++ l) (new ++ s.sweeps) ∧
      Queues s.completed (s.doomed ++ l) s.destructed (new ++ s.sweeps) s.frames
        (update s.queue p l.reverse) ∧
      Frames s.completed (s.doomed ++ l) s.destructed (new ++ s.sweeps) s.frames ∧
      Slots s.published (s.doomed ++ l) s.slots s.slotCount s.constructions := by
  have hsub : s.doomed ⊆ s.doomed ++ l := List.subset_append_left _ _
  have hsweeps := h.sweeps.begin hnew
  have hqueues := (h.queues.begin hnew).mono (List.Sublist.refl _) hsub (fun _ hm => hm)
    fun _ _ _ hf => hf
  refine ⟨hsweeps.mono (List.Sublist.refl _) hsub, ⟨fun q => ?_, fun q b hb => ?_,
    fun q b hb => ?_, fun q b hb L hL hbL a ha hne hd => ?_⟩, (h.frames.begin hnew).doom hl.owner,
    h.slots.doom hl.owner fun c hc _ hm => h.notMem_published hc (hl.mem _ hm)⟩
  · rcases eq_or_ne q p with rfl | hq
    · rw [Function.update_self]
      exact List.nodup_reverse.mpr hl.nodup
    · rw [Function.update_of_ne hq]
      exact hqueues.nodup q
  · rcases eq_or_ne q p with rfl | hq
    · rw [Function.update_self] at hb
      exact List.mem_append_right _ (List.mem_reverse.mp hb)
    · rw [Function.update_of_ne hq] at hb
      exact hqueues.doomed q b hb
  · rcases eq_or_ne q p with rfl | hq
    · rw [Function.update_self] at hb
      exact hl.owner b (List.mem_reverse.mp hb)
    · rw [Function.update_of_ne hq] at hb
      exact hqueues.owner q b hb
  · rcases eq_or_ne q p with rfl | hq
    · rw [Function.update_self] at hb ⊢
      -- Of two instances of a store, the one that came later is later in the store.
      rcases precedes_total (hsweeps.mem L hL a ha) (hsweeps.mem L hL b hbL) hne with hab | hba
      · exact .inl (hsweeps.sorted L hL a ha b hbL hab)
      · exact .inr (.inl (precedes_reverse.mpr (hl.order b (List.mem_reverse.mp hb) a hba
          (hsweeps.owner L hL a ha b hbL))))
    · rw [Function.update_of_ne hq] at hb ⊢
      exact hqueues.order q b hb L hL hbL a ha hne hd

/-- Nothing that a sweep finds has been destroyed. -/
theorem Inv.reverse_begin (h : Inv s) {new : List (List Instance)}
    (hnew : ∀ L ∈ new, Found s.published s.doomed L) (hs : s'.sweeps = new ++ s.sweeps)
    (hd : s'.destructed = s.destructed) (hc : s'.completed = s.completed) :
    s'.DestroysInReverse := by
  intro L hL a ha b hb hab hbd
  rw [hs] at hL
  rw [hd] at hbd ⊢
  rw [State.Before, hc] at hab
  rcases List.mem_append.mp hL with hL | hL
  · obtain ⟨o, hfound⟩ := hnew L hL
    exact absurd (h.frames.called b hbd) (hfound b hb).2.2
  · exact h.reverse L hL a ha b hb hab hbd

theorem Inv.stopRoot (h : Inv s) (hsingletons : s.Settled .singletons)
    (hprototypes : s.Settled .prototypes) : Inv (stopRootStep s) := by
  have hnew : ∀ L ∈ [s.alive .singletons, s.alive .prototypes], Found s.published s.doomed L := by
    intro L hL
    rcases List.mem_pair.mp hL with rfl | rfl
    · exact hsingletons.found
    · exact hprototypes.found
  obtain ⟨hsweeps, hqueues, hframes, hslots⟩ :=
    h.beginSweep (h.taken_stored (o := .singletons) nofun) hnew .root
  exact ⟨h.known.of_eq rfl rfl rfl, hsweeps, h.stores, hqueues, hframes, hslots,
    ⟨nofun, fun _ _ _ _ _ _ => .inl rfl⟩, h.reverse_begin hnew rfl rfl rfl⟩

theorem State.owner_of_alive {o : Owner} {a : Instance} (h : a ∈ s.alive o) : a.owner = o :=
  (of_decide_eq_true (List.mem_filter.mp h).2).1

theorem Inv.stopScope (h : Inv s) {n : NameId} (deferDeallocation : Bool)
    (hG : s.Settled (.session n)) :
    Inv (stopScopeStep s n deferDeallocation) := by
  have hnew : ∀ L ∈ [s.alive (.session n)], Found s.published s.doomed L := fun L hL =>
    List.mem_singleton.mp hL ▸ hG.found
  have howner : ∀ L ∈ [s.alive (.session n)], ∀ a ∈ L, a.owner ≠ .prototypes := by
    rintro L hL a ha ho
    obtain rfl := List.mem_singleton.mp hL
    exact nomatch (State.owner_of_alive ha).symm.trans ho
  obtain ⟨hsweeps, hqueues, hframes, hslots⟩ :=
    h.beginSweep (h.taken_stored (o := .session n) nofun) hnew (.scope n)
  exact ⟨h.known.of_eq rfl rfl rfl, hsweeps, h.stores, hqueues, hframes, hslots,
    (h.swept.doom (List.subset_append_left _ _)).begin howner, h.reverse_begin hnew rfl rfl rfl⟩

theorem Inv.collect (h : Inv s) (p : Sweeper) {threads : List ThreadLocal.ThreadId}
    (ht : threads.Nodup) (hG : ∀ t ∈ threads, s.Settled (.threadLocal t)) :
    Inv (collectStep s p threads) := by
  have hmem : ∀ L ∈ threads.map fun t => s.alive (.threadLocal t),
      ∃ t ∈ threads, L = s.alive (.threadLocal t) := fun L hL =>
    (List.mem_map.mp hL).imp fun t ⟨hmem, heq⟩ => ⟨hmem, heq.symm⟩
  have hnew : ∀ L ∈ threads.map fun t => s.alive (.threadLocal t),
      Found s.published s.doomed L := fun L hL => by
    obtain ⟨t, hmem, rfl⟩ := hmem L hL
    exact (hG t hmem).found
  have howner : ∀ L ∈ threads.map fun t => s.alive (.threadLocal t), ∀ a ∈ L,
      a.owner ≠ .prototypes := fun L hL a ha ho => by
    obtain ⟨t, -, rfl⟩ := hmem L hL
    exact nomatch (State.owner_of_alive ha).symm.trans ho
  obtain ⟨hsweeps, hqueues, hframes, hslots⟩ := h.beginSweep (h.taken_entries ht) hnew p
  refine ⟨h.known.of_eq rfl rfl rfl, hsweeps, h.stores.clear fun o => ?_, hqueues, hframes, hslots,
    (h.swept.doom (List.subset_append_left _ _)).begin howner, h.reverse_begin hnew rfl rfl rfl⟩
  cases o with
  | threadLocal t =>
    simp only [collectStep]
    split
    · exact .inr rfl
    · exact .inl rfl
  | _ => exact .inl rfl

/-- No prototype is left when the slots have been swept. -/
theorem Inv.stopped (h : Inv s) (hstop : s.stop = .prototypes 0 ∨ s.stop = .threadLocals)
    {stop : Stop} {started : Bool} (hidle : started = true → stop = .idle) :
    Swept s.doomed s.sweeps s.slots stop started where
  idle := hidle
  left L hL a ha ho hd := by
    rcases h.swept.left L hL a ha ho hd with hs | ⟨next, hs, k, hk, -⟩
    · rw [hs] at hstop
      rcases hstop with hstop | hstop <;> cases hstop
    · rw [hs] at hstop
      rcases hstop with hstop | hstop
      · obtain rfl := Stop.prototypes.inj hstop
        exact absurd hk (Nat.not_lt_zero k)
      · cases hstop

theorem Stores.clearOne {published : List Instance} {stored : Owner → List Instance}
    (h : Stores published stored) (o : Owner) : Stores published (update stored o []) := by
  refine h.clear fun o' => ?_
  rcases eq_or_ne o' o with rfl | hne
  · exact .inr (Function.update_self ..)
  · exact .inl (Function.update_of_ne hne ..)

theorem Inv.singletonsSwept (h : Inv s) (hstop : s.stop = .singletons) :
    Inv { s with stored := update s.stored .singletons [], stop := .prototypes s.slotCount } := by
  refine { h with
    known := h.known.of_eq rfl rfl rfl
    stores := h.stores.clearOne .singletons
    swept := ⟨fun hst => ?_, fun L hL a ha ho hd => ?_⟩ }
  · have hidle := h.swept.idle hst
    rw [hstop] at hidle
    cases hidle
  · obtain ⟨k, hget⟩ := h.slots.slotOf a (h.sweeps.mem L hL a ha) ho hd
    exact .inr ⟨_, rfl, k, h.slots.bound k (by rw [hget]; nofun), hget⟩

theorem Inv.scopeSwept (h : Inv s) (n : NameId) :
    Inv { s with
      stored := update s.stored (.session n) []
      scopeState := update s.scopeState n .stopped } :=
  { h with known := h.known.of_eq rfl rfl rfl, stores := h.stores.clearOne (.session n) }

theorem Inv.destroyNext (h : Inv s) {p : Sweeper} {b : Instance} {rest : List Instance}
    (hq : s.queue p = b :: rest) (hidle : s.Idle p) :
    Inv ((s.setQueue p rest).destroy T b (.sweep p)) := by
  have hb : b ∈ s.queue p := hq ▸ List.mem_cons_self
  have hnodup := List.nodup_cons.mp (hq ▸ h.queues.nodup p)
  have hdoomed := h.queues.doomed p b hb
  have howner := h.queues.owner p b hb
  have hframed : ∀ a, ¬Framed s.frames p a := fun a ⟨f, hf, _, hrole, _⟩ => hidle f hf hrole
  -- Nothing that this sweeper has begun is under way.
  have hlatest : Latest s.completed s.destructed s.sweeps b := fun L hL hbL a ha hne hd => by
    rcases h.queues.order p b hb L hL hbL a ha hne hd with hab | hab | hf
    · exact hab
    · rw [hq] at hab
      rcases precedes_cons_iff.mp hab with hab | ⟨rfl, -⟩
      · exact absurd hab.right_mem hnodup.1
      · exact absurd rfl hne
    · exact absurd hf (hframed a)
  have hsub : s.doomed ⊆ s.doomed ++ [b] := List.subset_append_left _ _
  have hmem : ∀ q, ∀ b' ∈ update s.queue p rest q, b' ∈ s.queue q := fun q b' hb' => by
    rcases eq_or_ne q p with rfl | hne
    · rw [Function.update_self] at hb'
      exact hq ▸ List.mem_cons_of_mem b hb'
    · rwa [Function.update_of_ne hne] at hb'
  have hqueues : Queues s.completed s.doomed s.destructed s.sweeps
      (⟨b, destructionStages T b (s.defers (.sweep p)), .sweep p⟩ :: s.frames)
      (update s.queue p rest) := by
    refine ⟨fun q => ?_, fun q b' hb' => h.queues.doomed q b' (hmem q b' hb'),
      fun q b' hb' => h.queues.owner q b' (hmem q b' hb'), fun q b' hb' L hL hbL a ha hne hd => ?_⟩
    · rcases eq_or_ne q p with rfl | hne
      · rw [Function.update_self]
        exact hnodup.2
      · rw [Function.update_of_ne hne]
        exact h.queues.nodup q
    -- What was before the first bean of the queue has its frame now.
    · rcases h.queues.order q b' (hmem q b' hb') L hL hbL a ha hne hd with hab | hab | hf
      · exact .inl hab
      · rcases eq_or_ne q p with rfl | hqp
        · rw [hq] at hab
          rw [Function.update_self]
          rcases precedes_cons_iff.mp hab with hab | ⟨rfl, -⟩
          · exact .inr (.inl hab)
          · exact .inr (.inr ⟨_, List.mem_cons_self, rfl, rfl, by simp [destructionStages]⟩)
        · rw [Function.update_of_ne hqp]
          exact .inr (.inl hab)
      · exact .inr (.inr (hf.cons _))
  refine ⟨h.known.of_eq rfl rfl rfl, h.sweeps.mono (List.Sublist.refl _) hsub, h.stores,
    hqueues.mono (List.Sublist.refl _) hsub (fun _ hm => hm) fun _ _ _ hf => hf,
    h.frames.addDestruction hlatest nofun fun ho => absurd ho howner,
    h.slots.doom (fun b' hb' => List.mem_singleton.mp hb' ▸ howner) fun c hc hnone hm => ?_,
    h.swept.doom hsub, h.reverse⟩
  exact h.slots.undecided c hc hnone (List.mem_singleton.mp hm ▸ hdoomed)

end Sweeping

/-! ## Runs -/

/-- A step that meets the guard keeps the invariant. -/
theorem Inv.step (h : Inv s) (hG : Guard s a) (hs : step T s a = some s') : Inv s' := by
  have hk := h.known.step hs
  -- One case for each action: the guard is used where a bean is published, released, collected or
  -- swept.
  cases a with
  | start =>
    obtain ⟨-, ⟨⟩⟩ := Option.ite_none_right_eq_some.mp hs
    exact { h with known := hk, swept := { h.swept with idle := fun _ => hG } }
  | construct c =>
    obtain ⟨⟨hm, -, -, hslot⟩, ⟨⟩⟩ := Option.ite_none_right_eq_some.mp hs
    exact h.construct hm hslot hk
  | constructed c =>
    obtain ⟨⟨hc, hr⟩, ⟨⟩⟩ := Option.ite_none_right_eq_some.mp hs
    exact h.constructed hc hr
  | constructorThrows c =>
    obtain ⟨⟨hc, -⟩, ⟨⟩⟩ := Option.ite_none_right_eq_some.mp hs
    exact h.constructorThrows hc hk
  | store c =>
    obtain ⟨⟨hc, hr, howner⟩, ⟨⟩⟩ := Option.ite_none_right_eq_some.mp hs
    exact h.store hc hr howner hG
  | activate c =>
    simp only [Lifecycle.step] at hs
    split at hs
    · rename_i k hslot
      obtain ⟨⟨hc, hr⟩, ⟨⟩⟩ := Option.ite_none_right_eq_some.mp hs
      exact h.activate hc hr hslot hG.1 (hG.2 k (by rw [hslot]; rfl))
    · cases hs
  | allocate c k =>
    obtain ⟨⟨hc, hr, howner, hslot, hfree⟩, ⟨⟩⟩ := Option.ite_none_right_eq_some.mp hs
    exact h.allocate hc hr howner hslot hfree.2.1 hG.1 hG.2
  | makeObject m =>
    obtain ⟨hm, ⟨⟩⟩ := Option.ite_none_right_eq_some.mp hs
    exact h.makeObject hm
  | storeBound b =>
    obtain ⟨⟨-, hp, -, howner, -⟩, ⟨⟩⟩ := Option.ite_none_right_eq_some.mp hs
    exact h.storeBound howner hp hG hk
  | perform f =>
    simp only [Lifecycle.step] at hs
    split at hs
    · rename_i e rest htodo
      obtain ⟨hf, ⟨⟩⟩ := Option.ite_none_right_eq_some.mp hs
      exact h.perform htodo hf
    · cases hs
  | finish f =>
    obtain ⟨⟨-, htodo⟩, ⟨⟩⟩ := Option.ite_none_right_eq_some.mp hs
    exact h.dropFrame (by rw [htodo]; rintro ⟨⟩)
  | throws f =>
    obtain ⟨⟨hf, hrole⟩, ⟨⟩⟩ := Option.ite_none_right_eq_some.mp hs
    exact h.dropFrame (h.frames.creation f hf hrole)
  | release k =>
    simp only [Lifecycle.step] at hs
    split at hs
    · rename_i b hget
      obtain ⟨-, ⟨⟩⟩ := Option.ite_none_right_eq_some.mp hs
      exact h.release hget hG
    · cases hs
  | stopRoot =>
    obtain ⟨-, ⟨⟩⟩ := Option.ite_none_right_eq_some.mp hs
    exact h.stopRoot hG.1 hG.2
  | destroyNext p =>
    simp only [Lifecycle.step] at hs
    split at hs
    · rename_i b rest hq
      obtain ⟨hidle, ⟨⟩⟩ := Option.ite_none_right_eq_some.mp hs
      exact h.destroyNext hq hidle
    · cases hs
  | singletonsSwept =>
    obtain ⟨⟨hstop, -⟩, ⟨⟩⟩ := Option.ite_none_right_eq_some.mp hs
    exact h.singletonsSwept hstop
  | sweepSlot =>
    simp only [Lifecycle.step] at hs
    split at hs
    · rename_i k hstop
      obtain ⟨hidle, hs⟩ := Option.ite_none_right_eq_some.mp hs
      split at hs
      · rename_i slot hget
        obtain ⟨⟩ := hs
        exact h.sweepSlot hstop hidle hget hG
      · rename_i hget
        obtain ⟨⟩ := hs
        exact h.skipSlot hstop hget
    · cases hs
  | rollbackReturns =>
    obtain ⟨⟨hstop, -⟩, ⟨⟩⟩ := Option.ite_none_right_eq_some.mp hs
    exact { h with known := hk, swept := h.stopped (.inl hstop) fun _ => rfl }
  | collect threads =>
    obtain ⟨⟨hstop, -, ht⟩, ⟨⟩⟩ := Option.ite_none_right_eq_some.mp hs
    have hcollect := h.collect .root ht hG
    refine { hcollect with known := hk, swept := hcollect.stopped (.inl hstop) fun hst => ?_ }
    have hidle := h.swept.idle hst
    rw [hstop] at hidle
    cases hidle
  | stopReturns =>
    obtain ⟨⟨hstop, -⟩, ⟨⟩⟩ := Option.ite_none_right_eq_some.mp hs
    exact { h with known := hk, swept := h.stopped (.inr hstop) fun _ => rfl }
  | startScope n =>
    obtain ⟨-, ⟨⟩⟩ := Option.ite_none_right_eq_some.mp hs
    exact { h with known := hk }
  | stopScope n deferDeallocation =>
    obtain ⟨-, ⟨⟩⟩ := Option.ite_none_right_eq_some.mp hs
    exact h.stopScope deferDeallocation hG
  | scopeSwept n =>
    obtain ⟨-, ⟨⟩⟩ := Option.ite_none_right_eq_some.mp hs
    exact h.scopeSwept n
  | exitThread t =>
    obtain ⟨-, ⟨⟩⟩ := Option.ite_none_right_eq_some.mp hs
    exact h.collect (.thread t) (List.nodup_singleton t) fun t' ht' =>
      List.mem_singleton.mp ht' ▸ hG

/-- In every run whose steps meet the guard, the instances that a sweep finds alive are destroyed
    in the reverse of the order of their construction. -/
theorem destroyed_in_reverse (T : Table)
    (h : (machine T).ReachableBy Guard s) : s.DestroysInReverse :=
  (h.invariant (fun _ hinit => hinit ▸ inv_init) fun _ _ _ hI hG hs => hI.step hG hs).reverse

/-! ## Parents and children -/

/-- A prototype whose constructor resolves the child. -/
def parent : Instance := ⟨.prototypes, 1, 10⟩

@[inherit_doc parent]
def child : Instance := ⟨.prototypes, 2, 11⟩

/-- The steps of a frame that are performed one after the other. -/
def performs (b : Instance) (role : Role) : List Stage → List Action
  | [] => [.finish ⟨b, [], role⟩]
  | e :: rest => .perform ⟨b, e :: rest, role⟩ :: performs b role rest

def created (b : Instance) : List Action := performs b .creation (creationStages hookless b none)

def destroyed (b : Instance) : List Action :=
  performs b (.sweep .root) (destructionStages hookless b false)

/-- The parent gets its slot when its constructor has returned. -/
def parentAllocatedLater : List Action :=
  [.start, .construct ⟨parent, none, none, false⟩, .construct ⟨child, none, some 0, false⟩,
    .constructed ⟨child, none, some 0, false⟩, .activate ⟨child, none, some 0, true⟩] ++
  created child ++ [.constructed ⟨parent, none, none, false⟩,
    .allocate ⟨parent, none, none, true⟩ 1] ++ created parent ++
  [.stopRoot, .singletonsSwept, .sweepSlot] ++ destroyed parent ++ [.sweepSlot] ++ destroyed child

theorem destroyed_in_reverse_child : ∃ s, (machine hookless).run {} parentAllocatedLater = some s ∧
    s.DestroysInReverse ∧ s.destructed = [parent, child] := by
  have hG : (machine hookless).Along Guard {} parentAllocatedLater := by decide
  exact ⟨_, rfl, destroyed_in_reverse hookless (.run (.init rfl) hG (show (machine hookless).run {}
    parentAllocatedLater = some _ from rfl)), by decide⟩

/-- The parent is constructed in place, so it has its slot before the child. -/
def parentInPlace : List Action :=
  [.start, .construct ⟨parent, none, some 0, false⟩, .construct ⟨child, none, some 1, false⟩,
    .constructed ⟨child, none, some 1, false⟩, .activate ⟨child, none, some 1, true⟩] ++
  created child ++ [.constructed ⟨parent, none, some 0, false⟩,
    .activate ⟨parent, none, some 0, true⟩] ++ created parent ++
  [.stopRoot, .singletonsSwept, .sweepSlot] ++ destroyed child

/-- The child is destroyed before its parent, whose constructor received it. -/
theorem child_destroyed_first : ∃ s, (machine hookless).run {} parentInPlace = some s ∧
    ¬s.DestroysInReverse := by
  refine ⟨_, rfl, fun h => ?_⟩
  have := h [child, parent] (by decide) parent (by decide) child (by decide) (by decide) (by decide)
  exact absurd this (by decide)

end Ctorium.Lifecycle
