import Ctorium.IdentifierCaches.Stable

/-!
# The invariant of the identifier caches

`Inv` says that the memory holds what the tables say (`Memory`), that every thread stands
where its call may stand and knows there what it needs to return (`Sound`), that a slot has
one owner, a type or a thread that is about to install it, and that only a thread under the
lock holds the lock.

The step lemmas follow the accesses of the source: `Inv.typeStep` those of `typeIdFor<T>()`,
`Inv.nameStep` those of the name caches, and `Inv.step` all that happens in the process.
-/

namespace Ctorium.IdentifierCaches

open Function

variable {p : Program} {s s' s₁ : State} {r : RegistryRef} {T : BeanType} {x id nid : UInt32}
  {site : Site} {t : ThreadId} {th : Thread} {pc pc' : Pc} {before : Result} {back : ℕ}
  {luck : Bool} {c : Call}

/-! ## What a thread knows -/

/-- The answer that the tables gave when a call began is a negative one. -/
def Unknown (before : Result) : Prop := ∀ id, before = .ok id → id = kInvalidTypeId

/-- The tables know the answer of a call. -/
def Knows (p : Program) (s : State) : Call → UInt32 → Prop
  | .typeIdFor r T, id => TypeIs p s r T id
  | .nameIdFor r site, id => NameIs p s r site id

/-- Where a thread may stand inside `typeIdFor<T>()`, and what it knows there. -/
def TypePc (p : Program) (s : State) (r : RegistryRef) (T : BeanType) (before : Result) :
    Pc → Prop
  | .slotLoad | .claimLoad | .nextLoad | .nextCas _ | .lookup none => True
  | .slotCas next => next ≠ kInvalidTypeId
  | .chunkLoad slot | .cellLoad slot | .lock slot | .recheck slot | .lookup (some slot) =>
    HasSlot s T slot
  | .overflow slot => (∀ x, slot = some x → HasSlot s T x) ∧ (¬ Unknown before →
    ∃ id, (s.tables r).typeInterning.overflowIndexToId.lookup (p.typeIndex T) = some id)
  | .record slot id => HasSlot s T slot ∧ TypeIs p s r T id
  | .returned result => (∃ id, result = .ok id ∧ TypeIs p s r T id) ∨
    (result = .ok kInvalidTypeId ∧ Unknown before)
  | .siteLoad | .nameId | .siteStore _ => False

/-- Where a thread may stand inside a call for a name, and what it knows there. -/
def NamePc (p : Program) (s : State) (r : RegistryRef) (site : Site) (before : Result) :
    Pc → Prop
  | .siteLoad | .nameId => True
  | .siteStore nid => NameIs p s r site nid
  | .returned result => (∃ nid, result = .ok nid ∧ NameIs p s r site nid) ∨
    (site.interns = false ∧ result = .error (unknownName (p.siteName site)) ∧ Unknown before)
  | _ => False

def PcSound (p : Program) (s : State) (before : Result) : Call → Pc → Prop
  | .typeIdFor r T, pc => TypePc p s r T before pc
  | .nameIdFor r site, pc => NamePc p s r site before pc

/-- The calls whose negative answer is not final. -/
def Call.looksUp : Call → Bool
  | .typeIdFor _ _ => true
  | .nameIdFor _ site => !site.interns

/-- What holds of a thread inside a call. -/
structure Sound (p : Program) (s : State) (th : Thread) : Prop where
  registry : th.call.registry < s.created
  kept : th.call.looksUp → ∀ id, th.before = .ok id → id ≠ kInvalidTypeId → Knows p s th.call id
  pc : PcSound p s th.before th.call th.pc

theorem Knows.mono (h : Knows p s c id) (hm : Memory p s) (hm' : Memory p s') (hg : Grows s s') :
    Knows p s' c id := by
  cases c with
  | typeIdFor r T => exact TypeIs.mono h hm hm' hg
  | nameIdFor r site => exact NameIs.mono h hg

theorem PcSound.mono (h : PcSound p s before c pc) (hm : Memory p s) (hm' : Memory p s')
    (hg : Grows s s') : PcSound p s' before c pc := by
  cases c with
  | typeIdFor r T =>
    cases pc with
    | slotLoad | claimLoad | nextLoad | nextCas next => trivial
    | slotCas next => exact h
    | chunkLoad slot | cellLoad slot | lock slot | recheck slot => exact HasSlot.mono h hg
    | lookup slot =>
      cases slot with
      | none => trivial
      | some slot => exact HasSlot.mono h hg
    | overflow slot =>
      refine ⟨fun x hx => (h.1 x hx).mono hg, fun hknown => ?_⟩
      obtain ⟨id, hid⟩ := h.2 hknown
      exact ⟨id, (hg.types r).overflow _ id hid⟩
    | record slot id => exact ⟨h.1.mono hg, h.2.mono hm hm' hg⟩
    | siteLoad | nameId | siteStore nid => exact h
    | returned result =>
      refine Or.imp_left ?_ h
      rintro ⟨id, rfl, hid⟩
      exact ⟨id, rfl, hid.mono hm hm' hg⟩
  | nameIdFor r site =>
    cases pc with
    | siteLoad | nameId => trivial
    | siteStore nid => exact NameIs.mono h hg
    | returned result =>
      refine Or.imp_left ?_ h
      rintro ⟨nid, rfl, hname⟩
      exact ⟨nid, rfl, hname.mono hg⟩
    | _ => exact h

theorem Sound.mono (h : Sound p s th) (hm : Memory p s) (hm' : Memory p s') (hg : Grows s s') :
    Sound p s' th :=
  ⟨Nat.lt_of_lt_of_le h.registry hg.created,
    fun hlooks id hid hne => (h.kept hlooks id hid hne).mono hm hm' hg, h.pc.mono hm hm' hg⟩

/-! ## Slots and locks -/

/-- The owners of a slot: the types that have it, and the threads about to install it. -/
def Owns (s : State) (x : UInt32) : BeanType ⊕ ThreadId → Prop
  | .inl T => HasSlot s T x
  | .inr t => ∃ th, s.threads t = some th ∧ th.pc = .slotCas x

/-- The thread is under `typeIdCacheMutex_`. -/
def Pc.locked : Pc → Bool
  | .recheck _ | .lookup (some _) | .overflow (some _) | .record _ _ => true
  | _ => false

@[simp] theorem Pc.locked_lookup (slot : Option UInt32) :
    (Pc.lookup slot).locked = slot.isSome := by
  cases slot <;> rfl

@[simp] theorem Pc.locked_overflow (slot : Option UInt32) :
    (Pc.overflow slot).locked = slot.isSome := by
  cases slot <;> rfl

/-- The invariant of the machine. -/
structure Inv (p : Program) (s : State) : Prop where
  memory : Memory p s
  sound : ∀ t th, s.threads t = some th → Sound p s th
  below : ∀ x o, Owns s x o → x < s.nextTypeIdCacheSlot.value
  owner : ∀ x o o', Owns s x o → Owns s x o' → o = o'
  holder : ∀ r t, (s.tables r).mutex = some t →
    ∃ th, s.threads t = some th ∧ th.call.registry = r ∧ th.pc.locked

@[simp] theorem goOn_self : (s.goOn t th pc).threads t = some { th with pc := pc } :=
  update_self ..

theorem goOn_of_ne {u : ThreadId} (h : u ≠ t) : (s.goOn t th pc).threads u = s.threads u :=
  update_of_ne h ..

/-- The memory does not depend on the threads. -/
theorem Memory.setThread (h : Memory p s) (t : ThreadId) (o : Option Thread) :
    Memory p (s.setThread t o) :=
  ⟨h.few, h.next, h.ids, h.fresh, h.types, h.names, h.cells, h.sites⟩

theorem Grows.setThread (s : State) (t : ThreadId) (o : Option Thread) :
    Grows s (s.setThread t o) :=
  ⟨le_refl _, fun _ _ => rfl, fun _ => Extends.refl _, fun _ _ _ h => h, fun _ _ h => h⟩

theorem Grows.trans {s₂ : State} (h : Grows s s₁) (h' : Grows s₁ s₂) : Grows s s₂ where
  created := Nat.le_trans h.created h'.created
  ids r hr := (h'.ids r (Nat.lt_of_lt_of_le hr h.created)).trans (h.ids r hr)
  types r := ⟨fun i id hid => (h'.types r).startup i id ((h.types r).startup i id hid),
    fun i id hid => (h'.types r).overflow i id ((h.types r).overflow i id hid)⟩
  names r name id hid := h'.names r name id (h.names r name id hid)
  slots T x hx := h'.slots T x (h.slots T x hx)

/-- The invariant holds afterwards, and the memory knows all that it knew. -/
structure Onward (p : Program) (s s' : State) : Prop where
  inv : Inv p s'
  grows : Grows s s'

namespace Inv

/-- The threads after one of them has gone on. -/
theorem sound_goOn (h : Inv p s) (ht : s.threads t = some th) (hm : Memory p s₁)
    (hg : Grows s s₁) (hthreads : s₁.threads = s.threads)
    (hpc : PcSound p s₁ th.before th.call pc') :
    ∀ u thu, (s₁.goOn t th pc').threads u = some thu → Sound p (s₁.goOn t th pc') thu := by
  intro u thu hu
  have hm' : Memory p (s₁.goOn t th pc') := hm.setThread t _
  have hg' : Grows s₁ (s₁.goOn t th pc') := Grows.setThread s₁ t _
  by_cases hut : u = t
  · subst hut
    rw [goOn_self] at hu
    obtain rfl := Option.some.inj hu
    have hold := (h.sound u th ht).mono h.memory hm hg
    exact Sound.mono ⟨hold.registry, hold.kept, hpc⟩ hm hm' hg'
  · rw [goOn_of_ne hut, hthreads] at hu
    exact (h.sound u thu hu).mono h.memory hm' (hg.trans hg')

/-- The locks after a thread has gone on. -/
theorem holder_goOn (h : Inv p s) (ht : s.threads t = some th) (hthreads : s₁.threads = s.threads)
    (hmutex : ∀ r u, (s₁.tables r).mutex = some u →
      (u ≠ t ∧ (s.tables r).mutex = some u) ∨ (u = t ∧ th.call.registry = r ∧ pc'.locked)) :
    ∀ r u, ((s₁.goOn t th pc').tables r).mutex = some u →
      ∃ thu, (s₁.goOn t th pc').threads u = some thu ∧ thu.call.registry = r ∧ thu.pc.locked := by
  intro r u hu
  rcases hmutex r u hu with ⟨hut, hold⟩ | ⟨rfl, hr, hlocked⟩
  · obtain ⟨thu, hthu, hr, hlocked⟩ := h.holder r u hold
    exact ⟨thu, by rw [goOn_of_ne hut, hthreads, hthu], hr, hlocked⟩
  · exact ⟨_, goOn_self, hr, hlocked⟩

/-- A thread goes on after an update of the memory that has nothing to do with slots. -/
theorem goOn (h : Inv p s) (ht : s.threads t = some th) (hm : Memory p s₁) (hg : Grows s s₁)
    (hthreads : s₁.threads = s.threads)
    (hnext : s₁.nextTypeIdCacheSlot = s.nextTypeIdCacheSlot) (hslots : s₁.slotCache = s.slotCache)
    (hmutex : ∀ r u, (s₁.tables r).mutex = some u →
      (u ≠ t ∧ (s.tables r).mutex = some u) ∨ (u = t ∧ th.call.registry = r ∧ pc'.locked))
    (hpc : PcSound p s₁ th.before th.call pc') (hcas : ∀ x, pc' ≠ .slotCas x) :
    Onward p s (s₁.goOn t th pc') := by
  have howns : ∀ x o, Owns (s₁.goOn t th pc') x o → Owns s x o := by
    intro x o ho
    cases o with
    | inl T => exact ⟨ho.1, hslots ▸ ho.2⟩
    | inr u =>
      obtain ⟨thu, hu, hpcu⟩ := ho
      by_cases hut : u = t
      · rw [hut, goOn_self] at hu
        obtain rfl := Option.some.inj hu
        exact absurd hpcu (hcas x)
      · rw [goOn_of_ne hut, hthreads] at hu
        exact ⟨thu, hu, hpcu⟩
  exact ⟨⟨hm.setThread t _, h.sound_goOn ht hm hg hthreads hpc,
    fun x o ho => (congrArg Atomic.value hnext) ▸ h.below x o (howns x o ho),
    fun x o o' ho ho' => h.owner x o o' (howns x o ho) (howns x o' ho'),
    h.holder_goOn ht hthreads hmutex⟩, hg.trans (Grows.setThread s₁ t _)⟩

/-- The locks that a thread holds are those of the registry of its call. -/
theorem mutex_cases (h : Inv p s) (ht : s.threads t = some th) (pc' : Pc) {u : ThreadId}
    (hu : (s.tables r).mutex = some u) (hpc : th.pc.locked → pc'.locked) :
    (u ≠ t ∧ (s.tables r).mutex = some u) ∨ (u = t ∧ th.call.registry = r ∧ pc'.locked) := by
  by_cases hut : u = t
  · subst hut
    obtain ⟨th', ht', hr, hlocked⟩ := h.holder r u hu
    obtain rfl := Option.some.inj (ht.symm.trans ht')
    exact .inr ⟨rfl, hr, hpc hlocked⟩
  · exact .inl ⟨hut, hu⟩

/-- A thread goes on without an update of the memory. -/
theorem still (h : Inv p s) (ht : s.threads t = some th)
    (hpc : PcSound p s th.before th.call pc') (hcas : ∀ x, pc' ≠ .slotCas x)
    (hlocked : th.pc.locked → pc'.locked) : Onward p s (s.goOn t th pc') :=
  h.goOn ht h.memory (Grows.refl s) rfl rfl rfl (fun _ _ hu => h.mutex_cases ht _ hu hlocked)
    hpc hcas

/-- A thread goes on after an update of the tables of its registry. -/
theorem goOn_setTables {f : Tables → Tables} (h : Inv p s) (ht : s.threads t = some th)
    (hr : th.call.registry = r) (hm : Memory p (s.setTables r f) ∧ Grows s (s.setTables r f))
    (hmutex : ∀ u, (f (s.tables r)).mutex = some u →
      (u ≠ t ∧ (s.tables r).mutex = some u) ∨ (u = t ∧ pc'.locked))
    (hpc : PcSound p (s.setTables r f) th.before th.call pc') (hcas : ∀ x, pc' ≠ .slotCas x) :
    Onward p s ((s.setTables r f).goOn t th pc') := by
  refine h.goOn ht hm.1 hm.2 rfl rfl rfl (fun r' u hu => ?_) hpc hcas
  by_cases hrr : r' = r
  · subst hrr
    rw [setTables_self] at hu
    exact (hmutex u hu).imp_right fun hself => ⟨hself.1, hr, hself.2⟩
  · rw [setTables_of_ne hrr] at hu
    by_cases hut : u = t
    · subst hut
      obtain ⟨th', ht', hr', -⟩ := h.holder r' u hu
      obtain rfl := Option.some.inj (ht.symm.trans ht')
      exact absurd (hr'.symm.trans hr) hrr
    · exact .inl ⟨hut, hu⟩

end Inv

/-! ## The steps of a call -/

/-- An update of the lock of a registry. -/
theorem Memory.setMutex (h : Memory p s) (hr : r < s.created) (m : Option ThreadId) :
    Memory p (s.setTables r fun tables => { tables with mutex := m }) ∧
      Grows s (s.setTables r fun tables => { tables with mutex := m }) :=
  h.setTables hr rfl (h.types r) (Extends.refl _) (h.names r) (fun _ _ hid => hid)
    fun _ _ hid _ => .inl hid

theorem Tables.record_cases (tables : Tables) (slot id : UInt32) (memory : Bool) :
    ∃ cell chunk, (tables.record slot id memory).unlock =
        { tables with cell := cell, chunk := chunk, mutex := none } ∧
      ∀ x, ∀ id' ∈ (cell x).values, id' ∈ (tables.cell x).values ∨ (x = slot ∧ id' = id) := by
  have hcell : ∀ x, ∀ id' ∈ (update tables.cell slot ((tables.cell slot).store id) x).values,
      id' ∈ (tables.cell x).values ∨ (x = slot ∧ id' = id) := by
    intro x id' hid'
    by_cases hx : x = slot
    · subst hx
      rw [update_self, Atomic.mem_store] at hid'
      rcases hid' with rfl | hid'
      · exact .inr ⟨rfl, rfl⟩
      · exact .inl hid'
    · rw [update_of_ne hx] at hid'
      exact .inl hid'
  unfold record
  split_ifs
  · exact ⟨_, tables.chunk, rfl, hcell⟩
  · exact ⟨_, _, rfl, hcell⟩
  · exact ⟨tables.cell, tables.chunk, rfl, fun _ _ hid' => .inl hid'⟩

/-- The answer of a thread is recorded. -/
theorem Memory.record (h : Memory p s) (hr : r < s.created) (hslot : HasSlot s T x)
    (htype : TypeIs p s r T id) (memory : Bool) :
    Memory p (s.setTables r fun tables => (tables.record x id memory).unlock) ∧
      Grows s (s.setTables r fun tables => (tables.record x id memory).unlock) := by
  obtain ⟨cell, chunk, hrecord, hcell⟩ := Tables.record_cases (s.tables r) x id memory
  refine h.setTables hr ?_ ?_ ?_ ?_ ?_ ?_ <;> rw [hrecord]
  · exact h.types r
  · exact Extends.refl _
  · exact h.names r
  · exact fun _ _ hid => hid
  · intro y id' hid' _
    rcases hcell y id' hid' with hold | ⟨rfl, rfl⟩
    · exact .inl hold
    · exact .inr ⟨T, hslot, htype⟩

/-! ### The lookup of a name -/

theorem error_of_lookupName {ni : NameInterning} {name message : String}
    (h : lookupName ni name = .error message) : message = unknownName name := by
  unfold lookupName at h
  dsimp only at h
  split_ifs at h
  exact (Except.error.inj h).symm

theorem nameIs_of_lookupName
    (h : lookupName (s.tables r).nameInterning (p.siteName site) = .ok nid) :
    NameIs p s r site nid := by
  unfold lookupName at h
  dsimp only at h
  split_ifs at h with hne
  obtain rfl := Except.ok.inj h
  obtain ⟨id, hid, hword⟩ := exists_of_wordOf_ne hne
  exact ⟨⟨id, hid, hword⟩, fun _ => hne⟩

theorem NameIs.lookupName (h : NameIs p s r site nid) (hlookup : site.interns = false) :
    lookupName (s.tables r).nameInterning (p.siteName site) = .ok nid := by
  obtain ⟨⟨id, hid, rfl⟩, hne⟩ := h
  unfold IdentifierCaches.lookupName
  rw [hid]
  exact if_neg (hne hlookup)

namespace Inv

variable (h : Inv p s) (ht : s.threads t = some th)
include h ht

/-- A thread leaves the lock and returns. -/
theorem unlock (hr : th.call.registry = r) {result : Result}
    (hpc : PcSound p s th.before th.call (.returned result)) :
    Onward p s ((s.setTables r Tables.unlock).goOn t th (.returned result)) := by
  have hm := h.memory.setMutex (hr ▸ (h.sound t th ht).registry) none
  exact h.goOn_setTables ht hr hm (fun u hu => absurd hu nofun) (hpc.mono h.memory hm.1 hm.2) nofun

/-- A thread has the answer of `lookupTypeId`. -/
theorem found (hcall : th.call = .typeIdFor r T) {slot : Option UInt32}
    (hslot : ∀ x, slot = some x → HasSlot s T x)
    (hid : id = kInvalidTypeId → Unknown th.before)
    (htype : id ≠ kInvalidTypeId → TypeIs p s r T id)
    (hlocked : th.pc.locked → slot.isSome) : Onward p s (found s t th r slot id) := by
  have hreturned : TypePc p s r T th.before (.returned (.ok id)) := by
    by_cases hinvalid : id = kInvalidTypeId
    · exact .inr ⟨by rw [hinvalid], hid hinvalid⟩
    · exact .inl ⟨id, rfl, htype hinvalid⟩
  have hr : th.call.registry = r := by rw [hcall, Call.registry]
  unfold IdentifierCaches.found
  cases slot with
  | none =>
    refine h.still ht ?_ nofun fun hl => absurd (hlocked hl) nofun
    rw [hcall]
    exact hreturned
  | some slot =>
    dsimp only
    split_ifs with hinvalid
    · refine h.unlock ht hr ?_
      rw [hcall]
      exact hreturned
    · refine h.still ht ?_ nofun fun _ => rfl
      rw [hcall]
      exact ⟨hslot slot rfl, htype hinvalid⟩

omit ht in
/-- What the cell of a slot holds is the identifier of the type that has the slot. -/
theorem cached (hslot : HasSlot s T x) (hid : id ∈ ((s.tables r).cell x).values)
    (hne : id ≠ kInvalidTypeId) : TypeIs p s r T id := by
  obtain ⟨T', hslot', htype⟩ := h.memory.cells r x id hid hne
  obtain rfl := Sum.inl.inj (h.owner x (.inl T) (.inl T') hslot hslot')
  exact htype

/-- A thread claims the next slot. -/
theorem claim (hcall : th.call = .typeIdFor r T) (hlocked : th.pc.locked = false) {next : UInt32}
    (hnext : s.nextTypeIdCacheSlot.value = next) (hne : next ≠ kInvalidTypeId) :
    Onward p s ((s.storeNext (next + 1)).goOn t th (.slotCas next)) := by
  have hm : Memory p (s.storeNext (next + 1)) :=
    ⟨h.memory.few, h.memory.next, h.memory.ids, h.memory.fresh, h.memory.types, h.memory.names,
      h.memory.cells, h.memory.sites⟩
  have hg : Grows s (s.storeNext (next + 1)) :=
    ⟨le_refl _, fun _ _ => rfl, fun _ => Extends.refl _, fun _ _ _ hid => hid, fun _ _ hx => hx⟩
  -- The slot had no owner, as the owned slots are below it.
  have howns : ∀ x o, Owns ((s.storeNext (next + 1)).goOn t th (.slotCas next)) x o →
      (Owns s x o ∧ x < next) ∨ (x = next ∧ o = .inr t) := by
    intro x o ho
    cases o with
    | inl T' => exact .inl ⟨ho, hnext ▸ h.below x (.inl T') ho⟩
    | inr u =>
      obtain ⟨thu, hu, hpcu⟩ := ho
      by_cases hut : u = t
      · rw [hut, goOn_self] at hu
        obtain rfl := Option.some.inj hu
        exact .inr ⟨(Pc.slotCas.inj hpcu).symm, by rw [hut]⟩
      · rw [goOn_of_ne hut] at hu
        have ho : Owns s x (.inr u) := ⟨thu, hu, hpcu⟩
        exact .inl ⟨ho, hnext ▸ h.below x (.inr u) ho⟩
  have hlt : next < next + 1 := UInt32.lt_iff_toNat_lt.mpr (by
    have hmax : next.toNat ≠ 4294967295 := fun heq => hne (UInt32.toNat_inj.mp heq)
    have hbound := next.toNat_lt
    rw [UInt32.toNat_add]
    simp only [UInt32.reduceToNat]
    omega)
  refine ⟨⟨hm.setThread t _, h.sound_goOn ht hm hg rfl (by rw [hcall]; exact hne),
    fun x o ho => ?_, fun x o o' ho ho' => ?_, h.holder_goOn ht rfl fun r' u hu =>
      h.mutex_cases ht _ hu (by rw [hlocked]; nofun)⟩, hg.trans (Grows.setThread _ t _)⟩
  · change x < next + 1
    rcases howns x o ho with ⟨-, hx⟩ | ⟨rfl, -⟩
    · exact UInt32.lt_trans hx hlt
    · exact hlt
  · rcases howns x o ho with ⟨hold, hx⟩ | ⟨hx, rfl⟩ <;>
      rcases howns x o' ho' with ⟨hold', hx'⟩ | ⟨hx', rfl⟩
    · exact h.owner x o o' hold hold'
    · exact absurd hx (hx' ▸ UInt32.lt_irrefl x)
    · exact absurd hx' (hx ▸ UInt32.lt_irrefl x)
    · rfl

/-- A thread installs the slot that it has claimed. -/
theorem install (hcall : th.call = .typeIdFor r T) {next : UInt32} (hpc : th.pc = .slotCas next) :
    Onward p s ((s.storeSlot T next).goOn t th (.chunkLoad next)) := by
  have hclaimed : Owns s next (.inr t) := ⟨th, ht, hpc⟩
  have hne : next ≠ kInvalidTypeId := by
    have hpcs := (h.sound t th ht).pc
    rw [hcall, hpc] at hpcs
    exact hpcs
  have hm := h.memory.storeSlot T next
  -- The slot changes hands from the thread to the type.
  have howns : ∀ x o, Owns ((s.storeSlot T next).goOn t th (.chunkLoad next)) x o →
      (Owns s x o ∧ o ≠ .inr t) ∨ (x = next ∧ o = .inl T) := by
    intro x o ho
    cases o with
    | inl T' =>
      by_cases hT : T' = T
      · subst hT
        obtain ⟨hx, hmem⟩ := ho
        simp only [State.goOn, State.setThread, State.storeSlot, update_self,
          Atomic.mem_store] at hmem
        rcases hmem with rfl | hmem
        · exact .inr ⟨rfl, rfl⟩
        · exact .inl ⟨⟨hx, hmem⟩, nofun⟩
      · obtain ⟨hx, hmem⟩ := ho
        simp only [State.goOn, State.setThread, State.storeSlot, update_of_ne hT] at hmem
        exact .inl ⟨⟨hx, hmem⟩, nofun⟩
    | inr u =>
      obtain ⟨thu, hu, hpcu⟩ := ho
      by_cases hut : u = t
      · rw [hut, goOn_self] at hu
        obtain rfl := Option.some.inj hu
        cases hpcu
      · rw [goOn_of_ne hut] at hu
        exact .inl ⟨⟨thu, hu, hpcu⟩, fun heq => hut (Sum.inr.inj heq)⟩
  refine ⟨⟨hm.1.setThread t _, h.sound_goOn ht hm.1 hm.2 rfl ?_, fun x o ho => ?_,
    fun x o o' ho ho' => ?_, h.holder_goOn ht rfl fun r' u hu =>
      h.mutex_cases ht _ hu (by rw [hpc]; nofun)⟩, hm.2.trans (Grows.setThread _ t _)⟩
  · rw [hcall]
    exact ⟨hne, by simp [State.storeSlot]⟩
  · rcases howns x o ho with ⟨hold, -⟩ | ⟨rfl, -⟩
    · exact h.below x o hold
    · exact h.below x _ hclaimed
  · rcases howns x o ho with ⟨hold, hot⟩ | ⟨rfl, rfl⟩ <;>
      rcases howns x o' ho' with ⟨hold', hot'⟩ | ⟨hx', rfl⟩
    · exact h.owner x o o' hold hold'
    · exact absurd (h.owner x o _ hold (hx' ▸ hclaimed)) hot
    · exact absurd (h.owner x o' _ hold' hclaimed) hot'
    · rfl

/-- What a thread knows about the answer of `lookupTypeId`. -/
theorem unknown_of_lookup (hcall : th.call = .typeIdFor r T)
    (hid : lookupTypeId (s.tables r).typeInterning (p.typeIndex T) = kInvalidTypeId) :
    Unknown th.before := by
  intro id hbefore
  by_contra hne
  have htype := (h.sound t th ht).kept (by rw [hcall]; rfl) id hbefore hne
  rw [hcall] at htype
  exact hne (htype.2.symm.trans hid)

/-- A thread has found the type in one of the maps. -/
theorem found_some (hcall : th.call = .typeIdFor r T) {slot : Option UInt32} {i : TypeId}
    (hslot : ∀ x, slot = some x → HasSlot s T x)
    (hi : (s.tables r).typeInterning.lookupByTypeIndex (p.typeIndex T) = some i)
    (hlocked : th.pc.locked → slot.isSome) :
    Onward p s (IdentifierCaches.found s t th r slot (wordOf (some i))) := by
  have hword : lookupTypeId (s.tables r).typeInterning (p.typeIndex T) = wordOf (some i) := by
    rw [lookupTypeId, hi]
  refine h.found ht hcall hslot (fun hinvalid => ?_) (fun hne => ⟨hne, hword⟩) hlocked
  exact h.unknown_of_lookup ht hcall (hword.trans hinvalid)

/-- A thread outside of the lock goes on inside `typeIdFor<T>()`. -/
theorem pass (hcall : th.call = .typeIdFor r T) (hlocked : th.pc.locked = false)
    (hpc : TypePc p s r T th.before pc') (hcas : ∀ x, pc' ≠ .slotCas x) :
    Onward p s (s.goOn t th pc') := by
  refine h.still ht (by rw [hcall]; exact hpc) hcas fun hl => ?_
  rw [hlocked] at hl
  cases hl

/-- `cacheTypeIdForSlot` takes the lock. -/
theorem lock (hcall : th.call = .typeIdFor r T) (hslot : HasSlot s T x) :
    Onward p s ((s.setTables r fun tables => { tables with mutex := some t }).goOn t th
      (.recheck x)) := by
  have hr : th.call.registry = r := by rw [hcall, Call.registry]
  have hm := h.memory.setMutex (hr ▸ (h.sound t th ht).registry) (some t)
  refine h.goOn_setTables ht hr hm (fun u hu => .inr ⟨(Option.some.inj hu).symm, rfl⟩) ?_ nofun
  rw [hcall]
  exact HasSlot.mono hslot hm.2

/-- Under the lock, another thread may have recorded the answer. -/
theorem recheck (hcall : th.call = .typeIdFor r T) (hslot : HasSlot s T x)
    (hid : id ∈ ((s.tables r).cell x).values) (hne : id ≠ kInvalidTypeId) :
    Onward p s ((s.setTables r Tables.unlock).goOn t th (.returned (.ok id))) := by
  refine h.unlock ht (by rw [hcall, Call.registry]) ?_
  rw [hcall]
  exact .inl ⟨id, rfl, h.cached hslot hid hne⟩

/-- The startup map does not have the type. -/
theorem lookup_none (hcall : th.call = .typeIdFor r T) {slot : Option UInt32}
    (hslot : ∀ x, slot = some x → HasSlot s T x)
    (hid : (s.tables r).typeInterning.indexToId.lookup (p.typeIndex T) = none)
    (hlocked : th.pc.locked = slot.isSome) : Onward p s (s.goOn t th (.overflow slot)) := by
  refine h.still ht ?_ (by rintro _ ⟨⟩) fun hl => ?_
  · rw [hcall]
    refine ⟨hslot, fun hknown => ?_⟩
    cases hi : (s.tables r).typeInterning.lookupByTypeIndex (p.typeIndex T) with
    | none =>
      refine absurd (h.unknown_of_lookup ht hcall ?_) hknown
      rw [lookupTypeId, hi]
      rfl
    | some i =>
      rcases (h.memory.types r).lookupByTypeIndex_iff.mp hi with hstart | hover
      · rw [hid] at hstart
        cases hstart
      · exact ⟨i, hover⟩
  · rwa [Pc.locked_overflow, ← hlocked]

/-- The overflow table has the type, or no table does. -/
theorem overflow (hcall : th.call = .typeIdFor r T) {slot : Option UInt32}
    (hslot : ∀ x, slot = some x → HasSlot s T x)
    (hknown : ¬Unknown th.before →
      ∃ i, (s.tables r).typeInterning.overflowIndexToId.lookup (p.typeIndex T) = some i)
    (hlocked : th.pc.locked = slot.isSome) :
    Onward p s (IdentifierCaches.found s t th r slot
      (wordOf ((s.tables r).typeInterning.overflowIndexToId.lookup (p.typeIndex T)))) := by
  cases hid : (s.tables r).typeInterning.overflowIndexToId.lookup (p.typeIndex T) with
  | some i =>
    have hi := (h.memory.types r).lookupByTypeIndex_iff.mpr (.inr hid)
    exact h.found_some ht hcall hslot hi (hlocked ▸ id)
  | none =>
    refine h.found ht hcall hslot (fun _ => ?_) (fun hne => absurd rfl hne) (hlocked ▸ id)
    by_contra hnot
    obtain ⟨i, hi⟩ := hknown hnot
    rw [hid] at hi
    cases hi

/-- The answer is recorded, and the lock is left. -/
theorem record (hcall : th.call = .typeIdFor r T) (hslot : HasSlot s T x)
    (htype : TypeIs p s r T id) (luck : Bool) :
    Onward p s ((s.setTables r fun tables => (tables.record x id luck).unlock).goOn t th
      (.returned (.ok id))) := by
  have hr : th.call.registry = r := by rw [hcall, Call.registry]
  have hm := h.memory.record (hr ▸ (h.sound t th ht).registry) hslot htype luck
  refine h.goOn_setTables ht hr hm (fun u hu => ?_) ?_ nofun
  · obtain ⟨cell, chunk, hrecord, -⟩ := Tables.record_cases (s.tables r) x id luck
    rw [hrecord] at hu
    cases hu
  · rw [hcall]
    exact .inl ⟨id, rfl, htype.mono h.memory hm.1 hm.2⟩

/-- A step inside `typeIdFor<T>()`, access by access. -/
theorem typeStep (hcall : th.call = .typeIdFor r T)
    (hs : typeStep p s t th r T back luck = some s') : Onward p s s' := by
  have hpcs := (h.sound t th ht).pc
  rw [hcall] at hpcs
  have hpass : ∀ pc', th.pc.locked = false → TypePc p s r T th.before pc' →
      (∀ x, pc' ≠ .slotCas x) → Onward p s (s.goOn t th pc') := fun pc' =>
    h.pass ht hcall
  -- By the point at which the thread stands. Most steps only move it; the three that write are
  -- lemmas of their own: `claim`, `install` and `record`.
  unfold IdentifierCaches.typeStep at hs
  cases hpc : th.pc with
  | slotLoad | claimLoad =>
    rw [hpc] at hs hpcs
    obtain rfl := Option.some.inj hs
    split_ifs with hslot
    · exact hpass _ (by rw [hpc]; rfl) trivial (by rintro _ ⟨⟩)
    · exact hpass _ (by rw [hpc]; rfl) ⟨hslot, Atomic.load_mem ..⟩ (by rintro _ ⟨⟩)
  | nextLoad =>
    rw [hpc] at hs hpcs
    obtain rfl := Option.some.inj hs
    exact hpass _ (by rw [hpc]; rfl) trivial (by rintro _ ⟨⟩)
  | nextCas next =>
    rw [hpc] at hs hpcs
    dsimp only at hs
    split_ifs at hs with hne hcas <;> obtain rfl := Option.some.inj hs
    · exact hpass _ (by rw [hpc]; rfl) trivial (by rintro _ ⟨⟩)
    · exact h.claim ht hcall (by rw [hpc]; rfl) hcas.1 hne
    · exact hpass _ (by rw [hpc]; rfl) trivial (by rintro _ ⟨⟩)
  | slotCas next =>
    rw [hpc] at hs hpcs
    dsimp only at hs
    split_ifs at hs with hslot <;> obtain rfl := Option.some.inj hs
    · exact h.install ht hcall hpc
    · exact hpass _ (by rw [hpc]; rfl) ⟨hslot, Atomic.value_mem _⟩ (by rintro _ ⟨⟩)
  | chunkLoad slot =>
    rw [hpc] at hs hpcs
    dsimp only at hs
    split_ifs at hs <;> obtain rfl := Option.some.inj hs
    · exact hpass _ (by rw [hpc]; rfl) trivial (by rintro _ ⟨⟩)
    · exact hpass _ (by rw [hpc]; rfl) hpcs (by rintro _ ⟨⟩)
    · exact hpass _ (by rw [hpc]; rfl) hpcs (by rintro _ ⟨⟩)
  | cellLoad slot =>
    rw [hpc] at hs hpcs
    obtain rfl := Option.some.inj hs
    split_ifs with hcached
    · exact hpass _ (by rw [hpc]; rfl) hpcs (by rintro _ ⟨⟩)
    · have htype := h.cached hpcs (Atomic.load_mem ..) hcached
      exact hpass _ (by rw [hpc]; rfl) (.inl ⟨_, rfl, htype⟩) (by rintro _ ⟨⟩)
  | lock slot =>
    rw [hpc] at hs hpcs
    obtain ⟨-, ⟨⟩⟩ := Option.ite_none_right_eq_some.mp hs
    exact h.lock ht hcall hpcs
  | recheck slot =>
    rw [hpc] at hs hpcs
    have hlookup : Onward p s (s.goOn t th (.lookup (some slot))) :=
      h.still ht (by rw [hcall]; exact hpcs) nofun fun _ => rfl
    dsimp only at hs
    split_ifs at hs with hchunk hcached <;> obtain rfl := Option.some.inj hs
    · exact hlookup
    · exact h.recheck ht hcall hpcs (Atomic.value_mem _) hcached
    · exact hlookup
    · exact absurd rfl ‹¬kInvalidTypeId = kInvalidTypeId›
  | lookup slot =>
    rw [hpc] at hs hpcs
    have hslot : ∀ x, slot = some x → HasSlot s T x := by
      rintro x rfl
      exact hpcs
    have hlocked : th.pc.locked = slot.isSome := by rw [hpc, Pc.locked_lookup]
    dsimp only at hs
    cases hid : (s.tables r).typeInterning.indexToId.lookup (p.typeIndex T) with
    | some i =>
      rw [hid] at hs
      -- Found under the startup map or, one step later, in the overflow table.
      obtain rfl := Option.some.inj hs
      have hi := (h.memory.types r).lookupByTypeIndex_iff.mpr (.inl hid)
      exact h.found_some ht hcall hslot hi (hlocked ▸ id)
    | none =>
      rw [hid] at hs
      obtain rfl := Option.some.inj hs
      exact h.lookup_none ht hcall hslot hid hlocked
  | overflow slot =>
    rw [hpc] at hs hpcs
    obtain rfl := Option.some.inj hs
    exact h.overflow ht hcall hpcs.1 hpcs.2 (by rw [hpc, Pc.locked_overflow])
  | record slot id =>
    rw [hpc] at hs hpcs
    obtain rfl := Option.some.inj hs
    exact h.record ht hcall hpcs.1 hpcs.2 luck
  | siteLoad => exact absurd hpcs (by rw [hpc]; exact id)
  | nameId => exact absurd hpcs (by rw [hpc]; exact id)
  | siteStore nid => exact absurd hpcs (by rw [hpc]; exact id)
  | returned result =>
    rw [hpc] at hs
    cases hs

/-- A step inside a call for a name, access by access. -/
theorem nameStep (hcall : th.call = .nameIdFor r site)
    (hs : nameStep p s t th r site back = some s') : Onward p s s' := by
  have hsound := h.sound t th ht
  have hr : th.call.registry = r := by rw [hcall, Call.registry]
  have hrlt : r < s.created := hr ▸ hsound.registry
  have hpcs := hsound.pc
  rw [hcall] at hpcs
  have hstill : ∀ pc', NamePc p s r site th.before pc' → (∀ x, pc' ≠ .slotCas x) →
      (th.pc.locked → pc'.locked) → Onward p s (s.goOn t th pc') := by
    intro pc' hpc' hcas hlocked
    exact h.still ht (by rw [hcall]; exact hpc') hcas hlocked
  unfold IdentifierCaches.nameStep at hs
  cases hpc : th.pc with
  -- A hit gives the identifier that this registry has stored: the high word tells registries apart.
  | siteLoad =>
    rw [hpc] at hs
    obtain rfl := Option.some.inj hs
    split_ifs with hempty hhigh
    · refine hstill _ (.inl ⟨_, rfl, ⟨kUnnamed, ?_, rfl⟩, fun hinterns => ?_⟩) (by rintro _ ⟨⟩)
        (by rw [hpc]; rintro ⟨⟩)
      · rw [NameInterning.lookup, if_pos hempty.2]
      · exact absurd (hempty.1.symm.trans hinterns) (by rintro ⟨⟩)
    · exact hstill _ (.inl ⟨_, rfl, h.memory.hit hrlt (Atomic.load_mem ..) hhigh⟩) (by rintro _ ⟨⟩)
        (by rw [hpc]; rintro ⟨⟩)
    · exact hstill _ trivial (by rintro _ ⟨⟩) (by rw [hpc]; rintro ⟨⟩)
  | nameId =>
    rw [hpc] at hs
    dsimp only at hs
    -- Interning adds a name at most, and keeps those that were known.
    split_ifs at hs with hinterns
    · obtain rfl := Option.some.inj hs
      have hnames := h.memory.names r
      have hm := h.memory.setTables (f := fun tables => { tables with
          nameInterning := ((s.tables r).nameInterning.intern (p.siteName site)).2 }) hrlt rfl
        (h.memory.types r) (Extends.refl _) (hnames.intern _)
        (fun _ _ hid => Teardown.lookup_intern hid) fun _ _ hid _ => .inl hid
      refine h.goOn_setTables ht hr hm (fun u hu => ?_) ?_ (by rintro _ ⟨⟩)
      · exact (h.mutex_cases ht (.siteStore _) hu (by rw [hpc]; rintro ⟨⟩)).imp_right
          fun hself => ⟨hself.1, hself.2.2⟩
      · rw [hcall]
        refine ⟨⟨_, ?_, rfl⟩, fun hnot => absurd (hinterns.symm.trans hnot) (by rintro ⟨⟩)⟩
        rw [setTables_self]
        exact Deferred.lookup_intern_self hnames _
    · obtain rfl := Option.some.inj hs
      have hlookup : site.interns = false := Bool.eq_false_of_not_eq_true hinterns
      cases hname : lookupName (s.tables r).nameInterning (p.siteName site) with
      | ok nid =>
        exact hstill _ (nameIs_of_lookupName hname) (by rintro _ ⟨⟩) (by rw [hpc]; rintro ⟨⟩)
      -- The lookup fails now, so it would have failed when the call began: names are never taken
      -- away.
      | error message =>
        refine hstill _ (.inr ⟨hlookup, by rw [error_of_lookupName hname], fun id hid => ?_⟩)
          (by rintro _ ⟨⟩)
          (by rw [hpc]; rintro ⟨⟩)
        by_contra hne
        have hknown := hsound.kept (by rw [hcall, Call.looksUp, hlookup]; rfl) id hid hne
        rw [hcall] at hknown
        rw [NameIs.lookupName hknown hlookup] at hname
        cases hname
  | siteStore nid =>
    rw [hpc] at hs hpcs
    obtain rfl := Option.some.inj hs
    have hm := h.memory.storeSite hrlt hpcs
    refine h.goOn ht hm.1 hm.2 rfl rfl rfl (fun r' u hu => ?_) ?_ (by rintro _ ⟨⟩)
    · exact h.mutex_cases ht _ hu (by rw [hpc]; rintro ⟨⟩)
    · rw [hcall]
      exact .inl ⟨nid, rfl, NameIs.mono hpcs hm.2⟩
  | _ =>
    rw [hpc] at hs
    cases hs

end Inv

/-! ## The steps of the process -/

/-- Fewer than `2 ^ 32 - 1` registries are constructed. -/
def FewRegistries (s : State) (a : Action) : Prop :=
  a = .construct → s.created + 1 < 2 ^ 32 - 1

instance (s : State) (a : Action) : Decidable (FewRegistries s a) :=
  inferInstanceAs (Decidable (a = .construct → s.created + 1 < 2 ^ 32 - 1))

/-- A positive answer that the tables give when a call begins is one that they know. -/
theorem knows_of_answer (hlooks : c.looksUp) (hid : answer p s c = .ok id)
    (hne : id ≠ kInvalidTypeId) : Knows p s c id := by
  cases c with
  | typeIdFor r T => exact ⟨hne, Except.ok.inj hid⟩
  | nameIdFor r site =>
    have hlookup : site.interns = false := Bool.not_eq_true' _ ▸ hlooks
    rw [answer, hlookup] at hid
    exact nameIs_of_lookupName hid

namespace Inv

/-- The process without registries. -/
theorem initial (p : Program) : Inv p {} where
  memory :=
    { few := by decide
      next := rfl
      ids := fun _ hr => absurd hr (Nat.not_lt_zero _)
      fresh := fun _ _ => rfl
      types := fun _ => named_empty _
      names := fun _ => ⟨List.nodup_singleton _, rfl⟩
      cells := fun _ _ _ hid hne => absurd (List.mem_singleton.mp hid) hne
      sites := fun _ _ he => .inl (List.mem_singleton.mp he) }
  sound := fun _ _ h => absurd h nofun
  below := by
    rintro x (T | t) ho
    · exact absurd (List.mem_singleton.mp ho.2) ho.1
    · exact absurd ho.choose_spec.1 nofun
  owner := by
    rintro x (T | t) o' ho
    · exact absurd (List.mem_singleton.mp ho.2) ho.1
    · exact absurd ho.choose_spec.1 nofun
  holder := fun _ _ h => absurd h nofun

/-- An update of the memory that no thread has to do with. -/
theorem outside (h : Inv p s) (hm : Memory p s') (hg : Grows s s')
    (hthreads : s'.threads = s.threads) (hnext : s'.nextTypeIdCacheSlot = s.nextTypeIdCacheSlot)
    (hslots : s'.slotCache = s.slotCache)
    (hmutex : ∀ r, (s'.tables r).mutex = (s.tables r).mutex) : Onward p s s' := by
  have howns : ∀ x o, Owns s' x o → Owns s x o := by
    intro x o ho
    cases o with
    | inl T => exact ⟨ho.1, hslots ▸ ho.2⟩
    | inr u =>
      obtain ⟨thu, hu, hpcu⟩ := ho
      exact ⟨thu, hthreads ▸ hu, hpcu⟩
  refine ⟨⟨hm, fun u thu hu => ?_, fun x o ho => ?_, fun x o o' ho ho' => ?_, fun r u hu => ?_⟩, hg⟩
  · exact (h.sound u thu (hthreads ▸ hu)).mono h.memory hm hg
  · rw [hnext]
    exact h.below x o (howns x o ho)
  · exact h.owner x o o' (howns x o ho) (howns x o' ho')
  · rw [hthreads]
    exact h.holder r u (hmutex r ▸ hu)

/-- A thread that is not inside a call begins one or is left alone. -/
theorem setThread (h : Inv p s) {o : Option Thread}
    (hold : ∀ th, s.threads t = some th → th.pc.locked = false)
    (hnew : ∀ th, o = some th → Sound p s th ∧ ∀ x, th.pc ≠ .slotCas x) :
    Onward p s (s.setThread t o) := by
  have hself : (s.setThread t o).threads t = o := update_self ..
  have hother : ∀ u, u ≠ t → (s.setThread t o).threads u = s.threads u :=
    fun u hu => update_of_ne hu ..
  have hm := h.memory.setThread t o
  -- Nobody stands before the store of a slot who did not before.
  have howns : ∀ x o', Owns (s.setThread t o) x o' → Owns s x o' := by
    intro x o' ho
    cases o' with
    | inl T => exact ho
    | inr u =>
      obtain ⟨thu, hu, hpcu⟩ := ho
      by_cases hut : u = t
      · rw [hut, hself] at hu
        exact absurd hpcu ((hnew thu hu).2 x)
      · rw [hother u hut] at hu
        exact ⟨thu, hu, hpcu⟩
  refine ⟨⟨hm, fun u thu hu => ?_, fun x o' ho => h.below x o' (howns x o' ho),
    fun x o₁ o₂ ho₁ ho₂ => h.owner x o₁ o₂ (howns x o₁ ho₁) (howns x o₂ ho₂), fun r u hu => ?_⟩,
    Grows.setThread s t o⟩
  · by_cases hut : u = t
    · rw [hut, hself] at hu
      exact (hnew thu hu).1.mono h.memory hm (Grows.setThread s t o)
    · rw [hother u hut] at hu
      exact (h.sound u thu hu).mono h.memory hm (Grows.setThread s t o)
  · obtain ⟨thu, hthu, hr, hlocked⟩ := h.holder r u hu
    -- The thread that comes or goes does not hold the lock.
    by_cases hut : u = t
    · subst hut
      exact absurd hlocked (by rw [hold thu hthu]; nofun)
    · exact ⟨thu, by rw [hother u hut, hthu], hr, hlocked⟩

/-- An update of the tables of a registry by nobody's call. -/
theorem setTables (h : Inv p s) {f : Tables → Tables}
    (hm : Memory p (s.setTables r f) ∧ Grows s (s.setTables r f))
    (hmutex : (f (s.tables r)).mutex = (s.tables r).mutex) :
    Onward p s (s.setTables r f) := by
  refine h.outside hm.1 hm.2 rfl rfl rfl fun r' => ?_
  by_cases hrr : r' = r
  · rw [hrr, setTables_self, hmutex]
  · rw [setTables_of_ne hrr]

/-- A call begins. -/
theorem call (h : Inv p s) (ht : s.threads t = none) (hr : c.registry < s.created) :
    Onward p s (s.setThread t (some ⟨c, firstPc c, answer p s c⟩)) := by
  refine h.setThread (fun th hth => ?_) fun th hth => ?_
  · rw [ht] at hth
    cases hth
  · obtain rfl := Option.some.inj hth
    refine ⟨⟨hr, fun hlooks id hid hne => knows_of_answer hlooks hid hne, ?_⟩, ?_⟩
    · cases c <;> trivial
    · cases c <;> nofun

/-- The step lemma of the process. -/
theorem step (h : Inv p s) {a : Action} (hfew : FewRegistries s a)
    (hs : IdentifierCaches.step p s a = some s') : Onward p s s' := by
  -- Only the steps of a thread inside a call write to the caches; all others write to the tables of
  -- one registry.
  cases a with
  | construct =>
    obtain rfl := Option.some.inj hs
    have hm := h.memory.construct (hfew rfl)
    refine h.outside hm.1 hm.2 rfl rfl rfl fun r => ?_
    by_cases hr : r = s.created
    · have hself : (construct s).tables s.created = { registryId := s.nextRegistryId } :=
        update_self ..
      rw [hr, hself, h.memory.fresh s.created (le_refl _)]
    · have hother : (construct s).tables r = s.tables r := update_of_ne hr ..
      rw [hother]
  | internType r index =>
    obtain ⟨hr, ⟨⟩⟩ := Option.ite_none_right_eq_some.mp hs
    have htypes := (h.memory.types r).internByName index
    exact h.setTables (h.memory.setTables hr rfl htypes.1 htypes.2 (h.memory.names r)
      (fun _ _ hid => hid) fun _ _ hid _ => .inl hid) rfl
  | freeze r =>
    obtain ⟨hr, ⟨⟩⟩ := Option.ite_none_right_eq_some.mp hs
    exact h.setTables (h.memory.setTables hr rfl (h.memory.types r).freeze
      ⟨fun _ _ hid => hid, fun _ _ hid => hid⟩ (h.memory.names r) (fun _ _ hid => hid)
      fun _ _ hid _ => .inl hid) rfl
  | internName r name =>
    obtain ⟨hr, ⟨⟩⟩ := Option.ite_none_right_eq_some.mp hs
    exact h.setTables (h.memory.setTables hr rfl (h.memory.types r) (Extends.refl _)
      ((h.memory.names r).intern name) (fun _ _ hid => Teardown.lookup_intern hid)
      fun _ _ hid _ => .inl hid) rfl
  | call t c =>
    obtain ⟨⟨ht, hr⟩, ⟨⟩⟩ := Option.ite_none_right_eq_some.mp hs
    exact h.call ht hr
  | advance t back luck =>
    simp only [IdentifierCaches.step] at hs
    cases ht : s.threads t with
    | none =>
      rw [ht] at hs
      cases hs
    | some th =>
      rw [ht] at hs
      simp only [callStep] at hs
      cases hcall : th.call with
      | typeIdFor r T =>
        rw [hcall] at hs
        exact h.typeStep ht hcall hs
      | nameIdFor r site =>
        rw [hcall] at hs
        exact h.nameStep ht hcall hs
  | leave t =>
    simp only [IdentifierCaches.step] at hs
    split at hs
    · next call result before ht =>
      obtain rfl := Option.some.inj hs
      refine h.setThread (fun th hth => ?_) nofun
      obtain rfl := Option.some.inj (ht.symm.trans hth)
      rfl
    · cases hs

end Inv

/-- The invariant holds in every state that a run leads to. -/
theorem inv_of_reachable (h : (machine p).ReachableBy FewRegistries s) : Inv p s :=
  h.invariant (fun s hs => by rw [show s = {} from hs]; exact Inv.initial p)
    fun _ _ _ hinv hfew hs => (hinv.step hfew hs).inv

end Ctorium.IdentifierCaches
