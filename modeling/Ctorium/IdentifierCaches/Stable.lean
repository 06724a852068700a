import Ctorium.IdentifierCaches
import Ctorium.Registry.Deferred
import Ctorium.Teardown

/-!
# What the tables say is never taken back

Once a type or a name has an identifier, it keeps it: interning only appends to the
tables, and the overflow table never hides nor is hidden by the startup map, as a
qualified name is in one of them at most (`Named.startup_of_overflow`).

* `Memory` is the invariant of the shared memory: the tables, the cells and the words of
  the call sites, all of which hold what the tables say.
* `Grows` relates two memories if the later one knows all that the earlier one knows.
  Every update of the memory keeps `Memory` and is a growth: of the tables of a registry
  (`Memory.setTables`), of a static word (`Memory.storeSlot`, `Memory.storeSite`), and the
  construction of a registry (`Memory.construct`).
-/

namespace Ctorium.IdentifierCaches

open Function

/-! ## Words -/

theorem pack_shiftRight (registryId nameId : UInt32) :
    pack registryId nameId >>> 32 = registryId.toUInt64 := by
  unfold pack
  refine UInt64.toBitVec_inj.mp ?_
  ext i hi
  simp only [UInt64.toBitVec_shiftRight]
  by_cases h : i < 32
  · have hlt : 32 + i < 64 := by omega
    simp [hlt]
  · have hhigh : registryId.toBitVec.getLsbD i = false :=
      BitVec.getLsbD_of_ge _ _ (Nat.le_of_not_lt h)
    simp [hhigh]

theorem nameHalf_pack (registryId nameId : UInt32) :
    nameHalf (pack registryId nameId) = nameId := by
  have hmask : (4294967295#32) = BitVec.allOnes 32 := rfl
  unfold nameHalf pack
  refine UInt32.toBitVec_inj.mp ?_
  ext i hi
  simp only [UInt64.toBitVec_toUInt32, UInt64.toBitVec_and, UInt64.toBitVec_or,
    UInt64.toBitVec_shiftLeft, UInt32.toBitVec_toUInt64]
  simp
  intro _
  simp only [hmask, BitVec.getElem_allOnes]

/-! ## The tables of one registry -/

/-- A type is found only where its qualified name is. -/
structure Named (qualifiedName : ℕ → String) (ti : TypeInterning) : Prop where
  valid : ti.Valid
  startup : ∀ i id, ti.indexToId.lookup i = some id → qualifiedName i ∈ ti.idToName
  overflow : ∀ i id, ti.overflowIndexToId.lookup i = some id →
    qualifiedName i ∈ ti.overflowIdToName

/-- Each of the two maps keeps what it has. -/
structure Extends (ti ti' : TypeInterning) : Prop where
  startup : ∀ i id, ti.indexToId.lookup i = some id → ti'.indexToId.lookup i = some id
  overflow : ∀ i id, ti.overflowIndexToId.lookup i = some id →
    ti'.overflowIndexToId.lookup i = some id

theorem Extends.refl (ti : TypeInterning) : Extends ti ti := ⟨fun _ _ h => h, fun _ _ h => h⟩

theorem lookup_append_of_some {l l' : List (ℕ × TypeId)} {i : ℕ} {id : TypeId}
    (h : l.lookup i = some id) : (l ++ l').lookup i = some id := by
  rw [List.lookup_append, h, Option.some_or]

/-- Of a map with one more entry, what is found was found before, or is the new entry. -/
theorem lookup_concat_cases {l : List (ℕ × TypeId)} {i j : ℕ} {id id' : TypeId}
    (h : (l ++ [(j, id')]).lookup i = some id) : l.lookup i = some id ∨ i = j := by
  rw [List.lookup_append] at h
  rcases Option.or_eq_some_iff.mp h with h | ⟨-, h⟩
  · exact .inl h
  · by_cases hij : i = j
    · exact .inr hij
    · rw [List.lookup_cons, beq_false_of_ne hij] at h
      exact absurd h nofun

theorem named_empty (qualifiedName : ℕ → String) : Named qualifiedName {} :=
  ⟨TypeInterning.valid_empty, fun _ _ h => absurd h nofun, fun _ _ h => absurd h nofun⟩

namespace Named

variable {qualifiedName : ℕ → String} {ti ti' : TypeInterning} {i : ℕ} {id : TypeId}

/-- A type of the overflow table is not in the startup map. -/
theorem startup_of_overflow (h : Named qualifiedName ti)
    (hid : ti.overflowIndexToId.lookup i = some id) : ti.indexToId.lookup i = none := by
  cases hstart : ti.indexToId.lookup i with
  | none => rfl
  | some id' =>
    have hdisjoint := (List.nodup_append.mp h.valid.nodup).2.2
    exact absurd rfl (hdisjoint _ (h.startup i id' hstart) _ (h.overflow i id hid))

/-- The two ways to be found. -/
theorem lookupByTypeIndex_iff (h : Named qualifiedName ti) :
    ti.lookupByTypeIndex i = some id ↔
      ti.indexToId.lookup i = some id ∨ ti.overflowIndexToId.lookup i = some id := by
  rw [TypeInterning.lookupByTypeIndex, Option.or_eq_some_iff]
  constructor
  · rintro (hid | ⟨-, hid⟩)
    · exact .inl hid
    · exact .inr hid
  · rintro (hid | hid)
    · exact .inl hid
    · exact .inr ⟨h.startup_of_overflow hid, hid⟩

theorem lookupByTypeIndex_mono (h : Named qualifiedName ti) (h' : Named qualifiedName ti')
    (hext : Extends ti ti') (hid : ti.lookupByTypeIndex i = some id) :
    ti'.lookupByTypeIndex i = some id := by
  rw [h.lookupByTypeIndex_iff] at hid
  rw [h'.lookupByTypeIndex_iff]
  exact hid.imp (hext.startup i id) (hext.overflow i id)

/-- Interning appends an entry to one of the two maps at most. -/
theorem internByName (h : Named qualifiedName ti) (index : ℕ) :
    Named qualifiedName (ti.internByName ⟨qualifiedName index, index⟩).2 ∧
      Extends ti (ti.internByName ⟨qualifiedName index, index⟩).2 := by
  have hvalid := h.valid.internByName ⟨qualifiedName index, index⟩
  revert hvalid
  unfold TypeInterning.internByName
  split
  · exact fun _ => ⟨h, Extends.refl ti⟩
  · split_ifs with hfrozen
    · split
      · exact fun _ => ⟨h, Extends.refl ti⟩
      · refine fun hvalid => ⟨⟨hvalid, h.startup, fun i id hid => ?_⟩, fun _ _ hid => hid,
          fun i id hid => lookup_append_of_some hid⟩
        rcases lookup_concat_cases hid with hid | rfl
        · exact List.mem_append_left _ (h.overflow i id hid)
        · exact List.mem_append_right _ (List.mem_singleton_self _)
    · refine fun hvalid => ⟨⟨hvalid, fun i id hid => ?_, h.overflow⟩,
        fun i id hid => lookup_append_of_some hid, fun _ _ hid => hid⟩
      rcases lookup_concat_cases hid with hid | rfl
      · exact List.mem_append_left _ (h.startup i id hid)
      · exact List.mem_append_right _ (List.mem_singleton_self _)

theorem freeze (h : Named qualifiedName ti) : Named qualifiedName ti.freeze :=
  ⟨h.valid.freeze, h.startup, h.overflow⟩

end Named

/-! ## What a memory knows -/

variable {p : Program} {s s' : State} {r : RegistryRef} {T : BeanType} {x id nid : UInt32}
  {site : Site}

/-- The type has claimed this cache slot. -/
def HasSlot (s : State) (T : BeanType) (x : UInt32) : Prop :=
  x ≠ kInvalidTypeId ∧ x ∈ (s.slotCache T).values

/-- The registry knows the type under this identifier. -/
def TypeIs (p : Program) (s : State) (r : RegistryRef) (T : BeanType) (id : UInt32) : Prop :=
  id ≠ kInvalidTypeId ∧ lookupTypeId (s.tables r).typeInterning (p.typeIndex T) = id

/-- The registry knows the name of the call site under this identifier, which is one that the
    call site may cache. -/
def NameIs (p : Program) (s : State) (r : RegistryRef) (site : Site) (nid : UInt32) : Prop :=
  (∃ id, (s.tables r).nameInterning.lookup (p.siteName site) = some id ∧ wordOf (some id) = nid) ∧
    (site.interns = false → nid ≠ kInvalidNameId)

/-- The later memory knows all that the earlier one knows. -/
structure Grows (s s' : State) : Prop where
  created : s.created ≤ s'.created
  ids : ∀ r < s.created, (s'.tables r).registryId = (s.tables r).registryId
  types : ∀ r, Extends (s.tables r).typeInterning (s'.tables r).typeInterning
  names : ∀ r name id, (s.tables r).nameInterning.lookup name = some id →
    (s'.tables r).nameInterning.lookup name = some id
  slots : ∀ T x, x ∈ (s.slotCache T).values → x ∈ (s'.slotCache T).values

/-- The invariant of the shared memory: registry identifiers are distinct and not 0, a cell
    has the identifier of the type whose slot it is, and the word of a call site has the name
    of this site in the registry that it names. -/
structure Memory (p : Program) (s : State) : Prop where
  few : s.created < 2 ^ 32 - 1
  next : s.nextRegistryId = UInt32.ofNat (s.created + 1)
  ids : ∀ r < s.created, (s.tables r).registryId = UInt32.ofNat (r + 1)
  fresh : ∀ r, s.created ≤ r → s.tables r = {}
  types : ∀ r, Named p.qualifiedName (s.tables r).typeInterning
  names : ∀ r, (s.tables r).nameInterning.Valid
  cells : ∀ r x, ((s.tables r).cell x).All fun id =>
    id ≠ kInvalidTypeId → ∃ T, HasSlot s T x ∧ TypeIs p s r T id
  sites : ∀ site, (s.siteCache site).All fun e =>
    e = 0 ∨ ∃ r < s.created, ∃ nid, NameIs p s r site nid ∧ e = pack (s.tables r).registryId nid

theorem Grows.refl (s : State) : Grows s s :=
  ⟨le_refl _, fun _ _ => rfl, fun _ => Extends.refl _, fun _ _ _ h => h, fun _ _ h => h⟩

theorem HasSlot.mono (h : HasSlot s T x) (hg : Grows s s') : HasSlot s' T x :=
  ⟨h.1, hg.slots T x h.2⟩

theorem NameIs.mono (h : NameIs p s r site nid) (hg : Grows s s') : NameIs p s' r site nid := by
  obtain ⟨⟨id, hid, hword⟩, hvalid⟩ := h
  exact ⟨⟨id, hg.names r _ id hid, hword⟩, hvalid⟩

/-- A word other than `kInvalidTypeId` is the word of an identifier. -/
theorem exists_of_wordOf_ne {o : Option ℕ} (h : wordOf o ≠ kInvalidTypeId) :
    ∃ id, o = some id ∧ wordOf (some id) = wordOf o := by
  cases o with
  | none => exact absurd rfl h
  | some id => exact ⟨id, rfl, rfl⟩

theorem TypeIs.lookup (h : TypeIs p s r T id) : ∃ i,
    (s.tables r).typeInterning.lookupByTypeIndex (p.typeIndex T) = some i ∧
      wordOf (some i) = id := by
  obtain ⟨hne, hid⟩ := h
  rw [← hid] at hne ⊢
  exact exists_of_wordOf_ne hne

theorem TypeIs.of_tables (h : TypeIs p s r T id)
    (htypes : Named p.qualifiedName (s.tables r).typeInterning)
    (htypes' : Named p.qualifiedName (s'.tables r).typeInterning)
    (hext : Extends (s.tables r).typeInterning (s'.tables r).typeInterning) :
    TypeIs p s' r T id := by
  obtain ⟨i, hi, hword⟩ := h.lookup
  refine ⟨h.1, ?_⟩
  rw [lookupTypeId, htypes.lookupByTypeIndex_mono htypes' hext hi, hword]

theorem TypeIs.mono (h : TypeIs p s r T id) (hm : Memory p s) (hm' : Memory p s')
    (hg : Grows s s') : TypeIs p s' r T id :=
  h.of_tables (hm.types r) (hm'.types r) (hg.types r)

/-- A word of another state of the call sites, in the light of a growth. -/
theorem Memory.site_mono (hg : Grows s s') {e : UInt64}
    (h : e = 0 ∨ ∃ r < s.created, ∃ nid, NameIs p s r site nid ∧
      e = pack (s.tables r).registryId nid) :
    e = 0 ∨ ∃ r < s'.created, ∃ nid, NameIs p s' r site nid ∧
      e = pack (s'.tables r).registryId nid := by
  refine h.imp_right ?_
  rintro ⟨r, hr, nid, hname, rfl⟩
  exact ⟨r, Nat.lt_of_lt_of_le hr hg.created, nid, hname.mono hg, by rw [hg.ids r hr]⟩

/-! ## Registry identifiers -/

namespace Memory

theorem toNat_id (h : Memory p s) (hr : r < s.created) :
    (s.tables r).registryId.toNat = r + 1 := by
  have hlt : r + 1 < 2 ^ 32 := Nat.lt_of_le_of_lt hr (Nat.lt_of_lt_of_le h.few (Nat.sub_le _ _))
  rw [h.ids r hr, UInt32.toNat_ofNat', Nat.mod_eq_of_lt hlt]

theorem id_ne_zero (h : Memory p s) (hr : r < s.created) : (s.tables r).registryId ≠ 0 := by
  intro hzero
  have hid := h.toNat_id hr
  rw [hzero] at hid
  exact absurd hid nofun

theorem id_inj (h : Memory p s) {r' : RegistryRef} (hr : r < s.created) (hr' : r' < s.created)
    (heq : (s.tables r).registryId = (s.tables r').registryId) : r = r' := by
  have hid := h.toNat_id hr
  rw [heq, h.toNat_id hr'] at hid
  exact (Nat.succ_inj.mp hid).symm

/-- A word that names a registry has the name of the call site in it. -/
theorem hit (h : Memory p s) (hr : r < s.created) {e : UInt64}
    (he : e ∈ (s.siteCache site).values) (hhigh : e >>> 32 = (s.tables r).registryId.toUInt64) :
    NameIs p s r site (nameHalf e) := by
  rcases h.sites site e he with rfl | ⟨r', hr', nid, hname, rfl⟩
  · have hzero : (0 : UInt32).toUInt64 = (s.tables r).registryId.toUInt64 := hhigh
    exact absurd (UInt32.toUInt64_inj.mp hzero).symm (h.id_ne_zero hr)
  · rw [pack_shiftRight] at hhigh
    obtain rfl := h.id_inj hr' hr (UInt32.toUInt64_inj.mp hhigh)
    rw [nameHalf_pack]
    exact hname

end Memory

/-! ## The updates of the memory -/

@[simp] theorem setTables_self {f : Tables → Tables} :
    (s.setTables r f).tables r = f (s.tables r) := update_self ..

theorem setTables_of_ne {f : Tables → Tables} {r' : RegistryRef} (h : r' ≠ r) :
    (s.setTables r f).tables r' = s.tables r' := update_of_ne h ..

/-- An update of the tables of a registry that appends to them and to cells of known types. -/
theorem Memory.setTables {f : Tables → Tables} (h : Memory p s) (hr : r < s.created)
    (hid : (f (s.tables r)).registryId = (s.tables r).registryId)
    (htypes : Named p.qualifiedName (f (s.tables r)).typeInterning)
    (hext : Extends (s.tables r).typeInterning (f (s.tables r)).typeInterning)
    (hvalid : (f (s.tables r)).nameInterning.Valid)
    (hnames : ∀ name id, (s.tables r).nameInterning.lookup name = some id →
      (f (s.tables r)).nameInterning.lookup name = some id)
    (hcells : ∀ x, ∀ id ∈ ((f (s.tables r)).cell x).values, id ≠ kInvalidTypeId →
      id ∈ ((s.tables r).cell x).values ∨ ∃ T, HasSlot s T x ∧ TypeIs p s r T id) :
    Memory p (s.setTables r f) ∧ Grows s (s.setTables r f) := by
  have hgrows : Grows s (s.setTables r f) := by
    refine ⟨le_refl _, fun r' _ => ?_, fun r' => ?_, fun r' => ?_, fun _ _ hx => hx⟩ <;>
      by_cases hrr : r' = r
    · rw [hrr, setTables_self, hid]
    · rw [setTables_of_ne hrr]
    · rw [hrr, setTables_self]
      exact hext
    · rw [setTables_of_ne hrr]
      exact Extends.refl _
    · rw [hrr, setTables_self]
      exact hnames
    · rw [setTables_of_ne hrr]
      exact fun _ _ hid => hid
  have htypes' : ∀ r', Named p.qualifiedName ((s.setTables r f).tables r').typeInterning := by
    -- Each table of another registry is as it was.
    intro r'
    by_cases hrr : r' = r
    · rw [hrr, setTables_self]
      exact htypes
    · rw [setTables_of_ne hrr]
      exact h.types r'
  -- What was cached for a registry stays true, as its tables only grow.
  refine ⟨⟨h.few, h.next, fun r' hr' => ?_, fun r' hr' => ?_, htypes', fun r' => ?_,
    fun r' x id hcell hne => ?_, fun site e he => Memory.site_mono hgrows (h.sites site e he)⟩,
    hgrows⟩
  · rw [hgrows.ids r' hr', h.ids r' hr']
  · rw [setTables_of_ne (Nat.ne_of_gt (Nat.lt_of_lt_of_le hr hr'))]
    exact h.fresh r' hr'
  · by_cases hrr : r' = r
    · rw [hrr, setTables_self]
      exact hvalid
    · rw [setTables_of_ne hrr]
      exact h.names r'
  · have hknown : ∃ T, HasSlot s T x ∧ TypeIs p s r' T id := by
      by_cases hrr : r' = r
      · rw [hrr, setTables_self] at hcell
        rcases hcells x id hcell hne with hold | hnew
        · exact hrr ▸ h.cells r x id hold hne
        · exact hrr ▸ hnew
      · rw [setTables_of_ne hrr] at hcell
        exact h.cells r' x id hcell hne
    obtain ⟨T, hslot, htype⟩ := hknown
    exact ⟨T, hslot.mono hgrows, htype.of_tables (h.types r') (htypes' r') (hgrows.types r')⟩

/-- A type gets a slot. -/
theorem Memory.storeSlot (h : Memory p s) (T : BeanType) (x : UInt32) :
    Memory p (s.storeSlot T x) ∧ Grows s (s.storeSlot T x) := by
  have hgrows : Grows s (s.storeSlot T x) := by
    refine ⟨le_refl _, fun _ _ => rfl, fun _ => Extends.refl _, fun _ _ _ hid => hid,
      fun T' y hy => ?_⟩
    by_cases hT : T' = T
    · subst hT
      simp only [State.storeSlot, update_self, Atomic.mem_store]
      exact .inr hy
    · simp only [State.storeSlot, update_of_ne hT]
      exact hy
  refine ⟨⟨h.few, h.next, h.ids, h.fresh, h.types, h.names, fun r y id hid hne => ?_,
    fun site e he => Memory.site_mono hgrows (h.sites site e he)⟩, hgrows⟩
  obtain ⟨T', hslot, htype⟩ := h.cells r y id hid hne
  exact ⟨T', hslot.mono hgrows, htype⟩

/-- A call site gets the name of a registry. -/
theorem Memory.storeSite (h : Memory p s) (hr : r < s.created) (hname : NameIs p s r site nid) :
    Memory p (s.storeSite site (pack (s.tables r).registryId nid)) ∧
      Grows s (s.storeSite site (pack (s.tables r).registryId nid)) := by
  refine ⟨⟨h.few, h.next, h.ids, h.fresh, h.types, h.names, h.cells, fun site' e he => ?_⟩,
    ⟨le_refl _, fun _ _ => rfl, fun _ => Extends.refl _, fun _ _ _ hid => hid, fun _ _ hx => hx⟩⟩
  by_cases hsite : site' = site
  · subst hsite
    simp only [State.storeSite, update_self, Atomic.mem_store] at he
    rcases he with rfl | he
    · exact .inr ⟨r, hr, nid, hname, rfl⟩
    · exact h.sites site' e he
  · simp only [State.storeSite, update_of_ne hsite] at he
    exact h.sites site' e he

/-- A registry is constructed. -/
theorem Memory.construct (h : Memory p s) (hfew : s.created + 1 < 2 ^ 32 - 1) :
    Memory p (construct s) ∧ Grows s (construct s) := by
  have hself : (IdentifierCaches.construct s).tables s.created =
      { registryId := s.nextRegistryId } := update_self ..
  have hother : ∀ r, r ≠ s.created → (IdentifierCaches.construct s).tables r = s.tables r :=
    fun r hr => update_of_ne hr ..
  have hfresh := h.fresh s.created (le_refl _)
  have hgrows : Grows s (IdentifierCaches.construct s) := by
    refine ⟨Nat.le_succ _, fun r hr => ?_, fun r => ?_, fun r => ?_, fun _ _ hx => hx⟩
    · rw [hother r (Nat.ne_of_lt hr)]
    · by_cases hr : r = s.created
      · rw [hr, hself, hfresh]
        exact Extends.refl _
      · rw [hother r hr]
        exact Extends.refl _
    · by_cases hr : r = s.created
      · rw [hr, hself, hfresh]
        exact fun _ _ hid => hid
      · rw [hother r hr]
        exact fun _ _ hid => hid
  refine ⟨⟨hfew, ?_, fun r hr => ?_, fun r hr => ?_, fun r => ?_, fun r => ?_,
    fun r x id hid hne => ?_, fun site e he => Memory.site_mono hgrows (h.sites site e he)⟩,
    hgrows⟩
  · change s.nextRegistryId + 1 = UInt32.ofNat (s.created + 1 + 1)
    rw [h.next, UInt32.ofNat_add (s.created + 1) 1]
    rfl
  · by_cases hrr : r = s.created
    · rw [hrr, hself]
      exact h.next
    · rw [hother r hrr]
      exact h.ids r (Nat.lt_of_le_of_ne (Nat.le_of_lt_succ hr) hrr)
  · rw [hother r (Nat.ne_of_gt hr)]
    exact h.fresh r (Nat.le_of_lt hr)
  · by_cases hr : r = s.created
    · rw [hr, hself]
      exact named_empty _
    · rw [hother r hr]
      exact h.types r
  · by_cases hr : r = s.created
    · rw [hr, hself]
      have hnames := h.names s.created
      rwa [hfresh] at hnames
    · rw [hother r hr]
      exact h.names r
  · by_cases hr : r = s.created
    · rw [hr, hself] at hid
      exact absurd (List.mem_singleton.mp hid) hne
    · rw [hother r hr] at hid
      obtain ⟨T, hslot, htype⟩ := h.cells r x id hid hne
      refine ⟨T, hslot, htype.1, ?_⟩
      rw [hother r hr]
      exact htype.2

end Ctorium.IdentifierCaches
