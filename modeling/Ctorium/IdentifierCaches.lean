import Ctorium.Lib.Atomic
import Ctorium.Lib.Machine
import Ctorium.TypeIndex
import Mathlib.Logic.Function.Basic

/-!
# The identifier caches

Resolution asks for the identifier of a type or of a name again and again, and reads
it from a cache if it can. The threads run

* `typeIdFor<T>()`: each type claims one slot of the process, with a compare-and-swap on
  `nextTypeIdCacheSlot_` and another one on the word of the type; the slot indexes the
  chunks of every registry, which are filled under `typeIdCacheMutex_` and read without it;
* `internScopeNameCached` and the name caches of `injectParam`: each call site has one
  word for all registries, the registry in the high half and the name in the low half.

Every atomic access is one step. A load without a lock may read any value that the object
ever held, and a weak compare-and-swap may fail for no reason. What a lock protects (the
overflow table, the table of names) is read and written in one step, and the startup map of
a `TypeInterning` is read in a step of its own, before the overflow table.

`before` of a thread records the answer that the tables gave when the call began; no step
reads it.
-/

namespace Ctorium.IdentifierCaches

open Function

abbrev ThreadId := ℕ

/-- A registry, by the order of construction. -/
abbrev RegistryRef := ℕ

/-- A template argument of `typeIdFor`. -/
abbrev BeanType := ℕ

/-- A call site with a static name cache. -/
inductive Site
  /-- A `scoped` parameter: its scope name is interned. -/
  | scope (site : ℕ)
  /-- A `named` parameter: its name is looked up. -/
  | named (site : ℕ)
  deriving DecidableEq, Repr

/-- A scope name is interned, a candidate name is only looked up. -/
def Site.interns : Site → Bool
  | .scope _ => true
  | .named _ => false

def kInvalidTypeId : UInt32 := 0xFFFFFFFF
def kInvalidNameId : UInt32 := 0xFFFFFFFF

def kTypeIdCacheChunkSize : ℕ := 256
def kTypeIdCacheTopCapacity : ℕ := 256

/-- What the program fixes: the runtime type of a template argument, the qualified name of
    a runtime type, and the name of a call site (a null pointer counts as empty). -/
structure Program where
  typeIndex : BeanType → ℕ
  qualifiedName : ℕ → String
  siteName : Site → String

/-! ## Words -/

/-- The word of an identifier that a table gives. -/
def wordOf (id : Option ℕ) : UInt32 :=
  match id with
  | some id => id.toUInt32
  | none => 0xFFFFFFFF

def lookupTypeId (ti : TypeInterning) (index : ℕ) : UInt32 := wordOf (ti.lookupByTypeIndex index)

/-- The word `(registryId << 32) | nameId` of a call site. -/
def pack (registryId nameId : UInt32) : UInt64 := (registryId.toUInt64 <<< 32) ||| nameId.toUInt64

/-- The low half of such a word. -/
def nameHalf (e : UInt64) : UInt32 := (e &&& 0xFFFFFFFF).toUInt32

/-! ## The calls -/

/-- The calls that read a cache. -/
inductive Call
  | typeIdFor (r : RegistryRef) (T : BeanType)
  | nameIdFor (r : RegistryRef) (site : Site)
  deriving DecidableEq, Repr

def Call.registry : Call → RegistryRef
  | .typeIdFor r _ => r
  | .nameIdFor r _ => r

/-- What a call returns: an identifier, or the exception that it throws. -/
abbrev Result := Except String UInt32

/-- Where a thread stands inside a call. -/
inductive Pc
  /-- About to load the word of the type. -/
  | slotLoad
  /-- `claimTypeIdCacheSlot`: about to load that word again. -/
  | claimLoad
  /-- About to load `nextTypeIdCacheSlot_`. -/
  | nextLoad
  /-- About to swap `nextTypeIdCacheSlot_` from this value to the next one. -/
  | nextCas (next : UInt32)
  /-- About to install this slot in the word of the type. -/
  | slotCas (next : UInt32)
  /-- `cachedTypeIdForSlot`: about to load the chunk. -/
  | chunkLoad (slot : UInt32)
  /-- About to load the cell in the chunk. -/
  | cellLoad (slot : UInt32)
  /-- `cacheTypeIdForSlot`: about to take `typeIdCacheMutex_`. -/
  | lock (slot : UInt32)
  /-- Under the lock, about to read the cell again. -/
  | recheck (slot : UInt32)
  /-- `lookupTypeId`: about to read the startup map. Without a slot the lookup is direct,
      not under the lock, and its answer is not recorded. -/
  | lookup (slot : Option UInt32)
  /-- The startup map does not have the type: about to read the overflow table. -/
  | overflow (slot : Option UInt32)
  /-- Under the lock, about to record the answer. -/
  | record (slot id : UInt32)
  /-- About to load the word of the call site. -/
  | siteLoad
  /-- About to intern the name, or to look it up. -/
  | nameId
  /-- About to store the answer in the word of the call site. -/
  | siteStore (nid : UInt32)
  | returned (result : Result)
  deriving DecidableEq

/-- A thread inside a call. -/
structure Thread where
  call : Call
  pc : Pc
  /-- The answer of the tables when the call began (history). -/
  before : Result

/-- A registry, as far as the caches go. -/
structure Tables where
  registryId : UInt32 := 0
  typeInterning : TypeInterning := {}
  nameInterning : NameInterning := {}
  /-- `typeIdCacheChunks_`: whether the pointer to a chunk is set. -/
  chunk : ℕ → Atomic Bool := fun _ => ⟨false, []⟩
  /-- The cells of the chunks, by slot. -/
  cell : UInt32 → Atomic UInt32 := fun _ => ⟨kInvalidTypeId, []⟩
  /-- The holder of `typeIdCacheMutex_`. -/
  mutex : Option ThreadId := none

/-- The process: its registries, its static words, and its threads. -/
structure State where
  /-- The number of registries that were constructed. -/
  created : ℕ := 0
  nextRegistryId : UInt32 := 1
  tables : RegistryRef → Tables := fun _ => {}
  nextTypeIdCacheSlot : Atomic UInt32 := ⟨0, []⟩
  /-- The static word of `typeIdFor<T>`. -/
  slotCache : BeanType → Atomic UInt32 := fun _ => ⟨kInvalidTypeId, []⟩
  /-- The static word of a call site. -/
  siteCache : Site → Atomic UInt64 := fun _ => ⟨0, []⟩
  threads : ThreadId → Option Thread := fun _ => none

namespace State

def setThread (s : State) (t : ThreadId) (th : Option Thread) : State :=
  { s with threads := update s.threads t th }

def setTables (s : State) (r : RegistryRef) (f : Tables → Tables) : State :=
  { s with tables := update s.tables r (f (s.tables r)) }

def storeNext (s : State) (next : UInt32) : State :=
  { s with nextTypeIdCacheSlot := s.nextTypeIdCacheSlot.store next }

def storeSlot (s : State) (T : BeanType) (x : UInt32) : State :=
  { s with slotCache := update s.slotCache T ((s.slotCache T).store x) }

def storeSite (s : State) (site : Site) (e : UInt64) : State :=
  { s with siteCache := update s.siteCache site ((s.siteCache site).store e) }

/-- A thread goes on with its call. -/
def goOn (s : State) (t : ThreadId) (th : Thread) (pc : Pc) : State :=
  s.setThread t (some { th with pc := pc })

end State

def Tables.unlock (tables : Tables) : Tables := { tables with mutex := none }

/-- The chunk of a slot. -/
def chunkIndex (slot : UInt32) : ℕ := slot.toNat / kTypeIdCacheChunkSize

/-- A thread has the answer of `lookupTypeId`: it returns a direct or a negative one, and
    goes on to record any other one. -/
def found (s : State) (t : ThreadId) (th : Thread) (r : RegistryRef) (slot : Option UInt32)
    (id : UInt32) : State :=
  match slot with
  | none => s.goOn t th (.returned (.ok id))
  | some slot =>
    if id = kInvalidTypeId then
      (s.setTables r Tables.unlock).goOn t th (.returned (.ok id))
    else s.goOn t th (.record slot id)

/-- The answer is written to the cell, in a new chunk if there is none yet; without memory
    for a new chunk it is not recorded. -/
def Tables.record (tables : Tables) (slot id : UInt32) (memory : Bool) : Tables :=
  if (tables.chunk (chunkIndex slot)).value then
    { tables with cell := update tables.cell slot ((tables.cell slot).store id) }
  else if memory then
    { tables with
      cell := update tables.cell slot ((tables.cell slot).store id)
      chunk := update tables.chunk (chunkIndex slot) ((tables.chunk (chunkIndex slot)).store true) }
  else tables

/-- A step inside `typeIdFor<T>()`. Loads read what was stored `back` modifications ago;
    `luck` is false if a weak compare-and-swap or an allocation fails. -/
def typeStep (p : Program) (s : State) (t : ThreadId) (th : Thread) (r : RegistryRef)
    (T : BeanType) (back : ℕ) (luck : Bool) : Option State :=
  match th.pc with
  | .slotLoad =>
    let slot := (s.slotCache T).load back
    some (s.goOn t th (if slot = kInvalidTypeId then .claimLoad else .chunkLoad slot))
  | .claimLoad =>
    let current := (s.slotCache T).load back
    some (s.goOn t th (if current = kInvalidTypeId then .nextLoad else .chunkLoad current))
  | .nextLoad => some (s.goOn t th (.nextCas (s.nextTypeIdCacheSlot.load back)))
  | .nextCas next =>
    if next = kInvalidTypeId then some (s.goOn t th (.lookup none))
    else if s.nextTypeIdCacheSlot.value = next ∧ luck then
      some ((s.storeNext (next + 1)).goOn t th (.slotCas next))
    else some (s.goOn t th (.nextCas (s.nextTypeIdCacheSlot.load back)))
  | .slotCas next =>
    let current := (s.slotCache T).value
    if current = kInvalidTypeId then
      some ((s.storeSlot T next).goOn t th (.chunkLoad next))
    else some (s.goOn t th (.chunkLoad current))
  | .chunkLoad slot =>
    if kTypeIdCacheTopCapacity ≤ chunkIndex slot then some (s.goOn t th (.lookup none))
    else if ((s.tables r).chunk (chunkIndex slot)).load back then
      some (s.goOn t th (.cellLoad slot))
    else some (s.goOn t th (.lock slot))
  | .cellLoad slot =>
    let cached := ((s.tables r).cell slot).load back
    some (s.goOn t th (if cached = kInvalidTypeId then .lock slot else .returned (.ok cached)))
  | .lock slot =>
    if (s.tables r).mutex = none then
      some ((s.setTables r fun tables => { tables with mutex := some t }).goOn t th (.recheck slot))
    else none
  | .recheck slot =>
    let cached := if ((s.tables r).chunk (chunkIndex slot)).value
      then ((s.tables r).cell slot).value else kInvalidTypeId
    if cached = kInvalidTypeId then some (s.goOn t th (.lookup (some slot)))
    else some ((s.setTables r Tables.unlock).goOn t th (.returned (.ok cached)))
  | .lookup slot =>
    match (s.tables r).typeInterning.indexToId.lookup (p.typeIndex T) with
    | some id => some (found s t th r slot (wordOf (some id)))
    | none => some (s.goOn t th (.overflow slot))
  | .overflow slot =>
    let id := (s.tables r).typeInterning.overflowIndexToId.lookup (p.typeIndex T)
    some (found s t th r slot (wordOf id))
  | .record slot id =>
    some ((s.setTables r fun tables => (tables.record slot id luck).unlock).goOn t th
      (.returned (.ok id)))
  | _ => none

/-- The exception for a name that no bean has. -/
def unknownName (name : String) : String := "injectParam: unknown named qualifier '" ++ name ++ "'."

/-- The answer of `NameInterning::lookup`, as `injectParam` takes it. -/
def lookupName (ni : NameInterning) (name : String) : Result :=
  let nid := wordOf (ni.lookup name)
  if nid = kInvalidNameId then .error (unknownName name) else .ok nid

/-- A step inside `internScopeNameCached` or a name cache of `injectParam`. -/
def nameStep (p : Program) (s : State) (t : ThreadId) (th : Thread) (r : RegistryRef)
    (site : Site) (back : ℕ) : Option State :=
  let name := p.siteName site
  let registryId := (s.tables r).registryId
  match th.pc with
  | .siteLoad =>
    let e := (s.siteCache site).load back
    some (s.goOn t th (
      if site.interns ∧ name = "" then .returned (.ok (wordOf (some kUnnamed)))
      else if e >>> 32 = registryId.toUInt64 then .returned (.ok (nameHalf e))
      else .nameId))
  | .nameId =>
    if site.interns then
      let (nid, names) := (s.tables r).nameInterning.intern name
      some ((s.setTables r fun tables => { tables with nameInterning := names }).goOn t th
        (.siteStore (wordOf (some nid))))
    else
      some (s.goOn t th (match lookupName (s.tables r).nameInterning name with
        | .ok nid => .siteStore nid
        | .error message => .returned (.error message)))
  | .siteStore nid =>
    some ((s.storeSite site (pack registryId nid)).goOn t th (.returned (.ok nid)))
  | _ => none

/-- What a call would return without any cache. -/
def answer (p : Program) (s : State) : Call → Result
  | .typeIdFor r T => .ok (lookupTypeId (s.tables r).typeInterning (p.typeIndex T))
  | .nameIdFor r site =>
    let names := (s.tables r).nameInterning
    if site.interns then .ok (wordOf (some (names.intern (p.siteName site)).1))
    else lookupName names (p.siteName site)

/-- What happens in the process. -/
inductive Action
  /-- A registry is constructed. -/
  | construct
  /-- A type is interned, before the freeze or after. -/
  | internType (r : RegistryRef) (index : ℕ)
  | freeze (r : RegistryRef)
  /-- A name is interned without a cache, by a start or a binding. -/
  | internName (r : RegistryRef) (name : String)
  /-- A thread begins a call on a registry that exists. -/
  | call (t : ThreadId) (c : Call)
  /-- A thread takes the next step of its call. -/
  | advance (t : ThreadId) (back : ℕ) (luck : Bool)
  /-- A thread leaves a call that has returned. -/
  | leave (t : ThreadId)
  deriving DecidableEq

/-- The construction of a registry takes the next registry identifier. -/
def construct (s : State) : State :=
  { s with
    created := s.created + 1
    nextRegistryId := s.nextRegistryId + 1
    tables := update s.tables s.created { registryId := s.nextRegistryId } }

def firstPc : Call → Pc
  | .typeIdFor _ _ => .slotLoad
  | .nameIdFor _ _ => .siteLoad

def callStep (p : Program) (s : State) (t : ThreadId) (th : Thread) (back : ℕ) (luck : Bool) :
    Option State :=
  match th.call with
  | .typeIdFor r T => typeStep p s t th r T back luck
  | .nameIdFor r site => nameStep p s t th r site back

def step (p : Program) (s : State) : Action → Option State
  | .construct => some (construct s)
  | .internType r index =>
    if r < s.created then
      some (s.setTables r fun tables => { tables with
        typeInterning := (tables.typeInterning.internByName ⟨p.qualifiedName index, index⟩).2 })
    else none
  | .freeze r =>
    if r < s.created then
      some (s.setTables r fun tables => { tables with
        typeInterning := tables.typeInterning.freeze })
    else none
  | .internName r name =>
    if r < s.created then
      some (s.setTables r fun tables => { tables with
        nameInterning := (tables.nameInterning.intern name).2 })
    else none
  | .call t c =>
    if s.threads t = none ∧ c.registry < s.created then
      some (s.setThread t (some ⟨c, firstPc c, answer p s c⟩))
    else none
  | .advance t back luck =>
    match s.threads t with
    | some th => callStep p s t th back luck
    | none => none
  | .leave t =>
    match s.threads t with
    | some ⟨_, .returned _, _⟩ => some (s.setThread t none)
    | _ => none

/-- The machine that interleaves interning and the calls of all threads. -/
def machine (p : Program) : Machine State Action := ⟨fun s => s = {}, step p⟩

end Ctorium.IdentifierCaches
