import Ctorium.Registry
import Ctorium.Lib.Arrays
import Ctorium.Lib.Machine

/-!
# The arrays of the singleton store

`SingletonStore` keeps the singleton instances in arrays of pointers. The *live* array grows when
an instance is bound after the start: the pointers are copied to a larger array, and the old one
stays allocated for the lookups that still read it. The array that the start has sized is the
*frozen* one, which lookups of the descriptors of the start read even when the live array has
grown. So a pointer that is stored below the frozen size is written to both arrays.

`Ctorium.SingletonStore` is what the store is for, a partial map with the order of its
insertions. Here are the arrays behind it.

* `Consistent`: both arrays hold the map that the calls so far describe, where they reach.
* `Consistent.perform`: a call that meets its precondition stays inside the arrays and keeps
  this.
* `find_eq_stored`: along every run a lookup returns what was stored last.
* `Consistent.abstract_perform`: the calls are those of the abstract store.
-/

namespace Ctorium

/-! ## The store and its calls -/

/-- The state of a `SingletonStore`. Its arrays are named by their position in the graveyard,
    which owns all of them; `none` is the null pointer. -/
structure SingletonArrays where
  instancesBase : Option ℕ := none
  instancesSize : ℕ := 0
  frozenBase : Option ℕ := none
  frozenSize : ℕ := 0
  instancesGraveyard : ArrayHeap (Option Addr) := []
  insertionOrder : List DescriptorId := []
  deriving DecidableEq

namespace SingletonArrays

/-- A slot of an array; there is none behind a null pointer or outside the array. -/
def slot (s : SingletonArrays) (base : Option ℕ) (idx : ℕ) : Option (Option Addr) :=
  base.bind fun a => s.instancesGraveyard.read a idx

/-- A slot of an array is written. -/
def setSlot (s : SingletonArrays) (base : Option ℕ) (idx : ℕ) (mem : Addr) :
    Option SingletonArrays :=
  base.bind fun a => (s.instancesGraveyard.write a idx (some mem)).map fun graveyard =>
    { s with instancesGraveyard := graveyard }

/-- `SingletonStore::store`. It has no result if it writes outside an array. -/
def store (s : SingletonArrays) (descId : DescriptorId) (mem : Addr) : Option SingletonArrays :=
  let base := s.instancesBase
  ({ s with insertionOrder := s.insertionOrder ++ [descId] }.setSlot base descId mem).bind fun s =>
    if descId < s.frozenSize ∧ s.frozenBase ≠ none ∧ s.frozenBase ≠ base then
      s.setSlot s.frozenBase descId mem
    else some s

/-- The first `oldSize` pointers of the live array; for a null pointer there are none to copy. -/
def copied (s : SingletonArrays) (oldSize : ℕ) : Option (List (Option Addr)) :=
  match s.instancesBase with
  | none => if oldSize = 0 then some [] else none
  | some a => s.instancesGraveyard.copy a oldSize

/-- `SingletonStore::growAndStore`: the live array grows if it is too small. -/
def growAndStore (s : SingletonArrays) (descId : DescriptorId) (mem : Addr) :
    Option SingletonArrays :=
  let newSize := descId + 1
  let oldSize := s.instancesSize
  if newSize > oldSize then
    (s.copied oldSize).bind fun array =>
      { s with
        instancesGraveyard :=
          s.instancesGraveyard.alloc (array ++ List.replicate (newSize - oldSize) none)
        instancesBase := some s.instancesGraveyard.length
        instancesSize := newSize }.store descId mem
  else s.store descId mem

/-- `SingletonStore::resize`: a new array of null pointers is the live and the frozen one. -/
def resize (s : SingletonArrays) (descriptorCount : ℕ) : SingletonArrays :=
  let raw := s.instancesGraveyard.length
  { s with
    instancesGraveyard := s.instancesGraveyard.alloc (List.replicate descriptorCount none)
    frozenBase := some raw
    frozenSize := descriptorCount
    instancesBase := some raw
    instancesSize := descriptorCount }

/-- `SingletonStore::find`. It has no result if it reads outside an array. -/
def find (s : SingletonArrays) (descId : DescriptorId) : Option (Option Addr) :=
  if descId < s.frozenSize then
    if s.frozenBase = none then some none else s.slot s.frozenBase descId
  else if descId ≥ s.instancesSize then some none
  else if s.instancesBase = none then some none
  else s.slot s.instancesBase descId

/-- `SingletonStore::releaseAll`. -/
def releaseAll (_ : SingletonArrays) : SingletonArrays := {}

/-- The calls that change the store. -/
inductive Call
  | resize (descriptorCount : ℕ)
  | store (descId : DescriptorId) (mem : Addr)
  | growAndStore (descId : DescriptorId) (mem : Addr)
  | releaseAll
  deriving DecidableEq, Repr

/-- A call is made. -/
def perform (s : SingletonArrays) : Call → Option SingletonArrays
  | .resize descriptorCount => some (s.resize descriptorCount)
  | .store descId mem => s.store descId mem
  | .growAndStore descId mem => s.growAndStore descId mem
  | .releaseAll => some s.releaseAll

/-- The preconditions of the calls: an empty store is resized, and an instance is stored for a
    descriptor without one, by `store` inside the current array. -/
def Meets (s : SingletonArrays) : Call → Prop
  | .resize _ => s.insertionOrder = []
  | .store descId _ => s.find descId = some none ∧ descId < s.instancesSize
  | .growAndStore descId _ => s.find descId = some none
  | .releaseAll => True

instance (s : SingletonArrays) : (c : Call) → Decidable (s.Meets c)
  | .resize _ => inferInstanceAs (Decidable (_ = _))
  | .store _ _ => inferInstanceAs (Decidable (_ ∧ _))
  | .growAndStore _ _ => inferInstanceAs (Decidable (_ = _))
  | .releaseAll => inferInstanceAs (Decidable True)

/-- The runs of the store, from an empty one. -/
def machine : Machine SingletonArrays Call where
  Init s := s = {}
  step := perform

/-! ## What the calls describe -/

/-- The pointers stored last since the last `releaseAll`. -/
def stored (m : DescriptorId → Option Addr) : List Call → DescriptorId → Option Addr
  | [] => m
  | .resize _ :: cs => stored m cs
  | .store descId mem :: cs | .growAndStore descId mem :: cs =>
    stored (Function.update m descId (some mem)) cs
  | .releaseAll :: cs => stored (fun _ => none) cs

/-- The descriptors stored for since the last `releaseAll`, in store order. -/
def storeOrder (order : List DescriptorId) : List Call → List DescriptorId
  | [] => order
  | .resize _ :: cs => storeOrder order cs
  | .store descId _ :: cs | .growAndStore descId _ :: cs => storeOrder (order ++ [descId]) cs
  | .releaseAll :: cs => storeOrder [] cs

/-! ## The arrays hold the map -/

variable {s s' : SingletonArrays} {m : DescriptorId → Option Addr} {order : List DescriptorId}
  {d : DescriptorId} {mem : Addr} {c : Call}

/-- The store holds the map `m`, whose pointers were stored in the order `order`. -/
structure Consistent (s : SingletonArrays) (m : DescriptorId → Option Addr)
    (order : List DescriptorId) : Prop where
  live : ∀ d < s.instancesSize, s.slot s.instancesBase d = some (m d)
  frozen : ∀ d < s.frozenSize, s.slot s.frozenBase d = some (m d)
  size : s.frozenSize ≤ s.instancesSize
  outside : ∀ d, s.instancesSize ≤ d → m d = none
  insertionOrder : s.insertionOrder = order
  nodup : order.Nodup
  mem : ∀ d, d ∈ order ↔ m d ≠ none

theorem Consistent.empty : Consistent {} (fun _ => none) [] where
  live := fun _ hd => absurd hd (Nat.not_lt_zero _)
  frozen := fun _ hd => absurd hd (Nat.not_lt_zero _)
  size := le_rfl
  outside := fun _ _ => rfl
  insertionOrder := rfl
  nodup := List.nodup_nil
  mem := by simp

/-- A lookup reads the pointer of the map, in whichever array. -/
theorem Consistent.find_eq (h : Consistent s m order) (d : DescriptorId) :
    s.find d = some (m d) := by
  rw [find]
  split_ifs with hfrozen hnull hlive hnull
  · have hslot := h.frozen d hfrozen
    rw [hnull] at hslot
    cases hslot
  · exact h.frozen d hfrozen
  · rw [h.outside d hlive]
  · have hslot := h.live d (Nat.lt_of_not_le hlive)
    rw [hnull] at hslot
    cases hslot
  · exact h.live d (Nat.lt_of_not_le hlive)

/-- A slot that is there is written, and no other one changes. -/
theorem exists_setSlot {base : Option ℕ} {w : Option Addr} (hs : s.slot base d = some w)
    (mem : Addr) : ∃ graveyard, s.setSlot base d mem =
        some { s with instancesGraveyard := graveyard } ∧
      ∀ b e, ({ s with instancesGraveyard := graveyard } : SingletonArrays).slot b e =
        if b = base ∧ e = d then some (some mem) else s.slot b e := by
  obtain ⟨a, rfl, hr⟩ := Option.bind_eq_some_iff.mp hs
  obtain ⟨graveyard, hw⟩ := ArrayHeap.exists_write hr (some mem)
  refine ⟨graveyard, by rw [setSlot, Option.bind_some, hw]; rfl, fun b e => ?_⟩
  cases b with
  | none => rw [if_neg (by simp)]; rfl
  | some b =>
    have hread := ArrayHeap.read_write hw b e
    simpa [slot] using hread

/-- `store` writes the pointer to every array that reaches the descriptor. -/
theorem Consistent.store (h : Consistent s m order) (hm : m d = none)
    (hd : d < s.instancesSize) (mem : Addr) :
    ∃ s', s.store d mem = some s' ∧ s'.instancesSize = s.instancesSize ∧
      Consistent s' (Function.update m d (some mem)) (order ++ [d]) := by
  have horder : (order ++ [d]).Nodup :=
    List.nodup_append.mpr ⟨h.nodup, List.nodup_singleton d, fun e he e' he' heq =>
      (h.mem e).mp he (by rw [heq, List.mem_singleton.mp he', hm])⟩
  have hmem : ∀ e, e ∈ order ++ [d] ↔ Function.update m d (some mem) e ≠ none := by
    intro e
    by_cases he : e = d
    · simp [he]
    · simp [he, h.mem e]
  have houtside : ∀ e, s.instancesSize ≤ e → Function.update m d (some mem) e = none :=
    fun e he => by rw [Function.update_of_ne (hd.trans_le he).ne', h.outside e he]
  -- The slot of the live array.
  obtain ⟨g₁, hset₁, hslot₁⟩ := exists_setSlot
    (s := { s with insertionOrder := s.insertionOrder ++ [d] }) (h.live d hd) mem
  have hlive₁ : ∀ e < s.instancesSize, ({ s with
      insertionOrder := s.insertionOrder ++ [d]
      instancesGraveyard := g₁ } : SingletonArrays).slot s.instancesBase e =
        some (Function.update m d (some mem) e) := by
    intro e he
    rw [hslot₁]
    by_cases hed : e = d
    · rw [if_pos ⟨rfl, hed⟩, hed, Function.update_self]
    · rw [if_neg fun h => hed h.2, Function.update_of_ne hed]
      exact h.live e he
  rw [SingletonArrays.store, hset₁, Option.bind_some]
  split_ifs with hmirror
  · -- The live array has grown since the start: the frozen one is written, too.
    obtain ⟨hlt, -, hne⟩ := hmirror
    have hfrozen₁ : ({ s with
        insertionOrder := s.insertionOrder ++ [d]
        instancesGraveyard := g₁ } : SingletonArrays).slot s.frozenBase d = some (m d) := by
      rw [hslot₁, if_neg fun h => hne h.1]
      exact h.frozen d hlt
    obtain ⟨g₂, hset₂, hslot₂⟩ := exists_setSlot hfrozen₁ mem
    refine ⟨_, hset₂, rfl, fun e he => ?_, fun e he => ?_, h.size, houtside, ?_, horder, hmem⟩
    · rw [hslot₂, if_neg fun h => hne h.1.symm]
      exact hlive₁ e he
    · rw [hslot₂]
      by_cases hed : e = d
      · rw [if_pos ⟨rfl, hed⟩, hed, Function.update_self]
      · rw [if_neg fun h => hed h.2, Function.update_of_ne hed, hslot₁,
          if_neg fun h => hed h.2]
        exact h.frozen e he
    · exact congrArg (· ++ [d]) h.insertionOrder
  · refine ⟨_, rfl, rfl, hlive₁, fun e he => ?_, h.size, houtside, ?_, horder, hmem⟩
    · by_cases hbase : s.frozenBase = s.instancesBase
      · have hlive := hlive₁ e (he.trans_le h.size)
        rw [← hbase] at hlive
        exact hlive
      · -- The descriptor lies beyond the frozen array.
        have hne : e ≠ d := by
          rintro rfl
          refine hmirror ⟨he, fun hnull => ?_, hbase⟩
          have hslot := h.frozen e he
          rw [hnull] at hslot
          cases hslot
        rw [hslot₁, if_neg fun h => hne h.2, Function.update_of_ne hne]
        exact h.frozen e he
    · exact congrArg (· ++ [d]) h.insertionOrder

/-- `growAndStore` copies the live array to one that reaches the descriptor, and stores there. -/
theorem Consistent.growAndStore (h : Consistent s m order) (hm : m d = none) (mem : Addr) :
    ∃ s', s.growAndStore d mem = some s' ∧ s'.instancesSize = max s.instancesSize (d + 1) ∧
      Consistent s' (Function.update m d (some mem)) (order ++ [d]) := by
  rw [SingletonArrays.growAndStore]
  split_ifs with hgrow
  · have hcopied : s.copied s.instancesSize = some ((List.range s.instancesSize).map m) := by
      have hlive := h.live
      rw [copied]
      split
      · rename_i hnull
        rw [hnull] at hlive
        have hsize : s.instancesSize = 0 := by
          by_contra hne
          cases hlive 0 (Nat.pos_of_ne_zero hne)
        rw [hsize]
        rfl
      · rename_i a hbase
        rw [hbase] at hlive
        exact ArrayHeap.copy_eq hlive
    rw [hcopied, Option.bind_some]
    -- The new array holds the map below its size, where the old one did not reach as null.
    have hlen : ((List.range s.instancesSize).map m).length = s.instancesSize := by simp
    suffices hgrown : Consistent _ m order from
      (hgrown.store hm (Nat.lt_succ_self d) mem).imp fun s' hs' =>
        ⟨hs'.1, hs'.2.1.trans (max_eq_right (Nat.le_of_lt hgrow)).symm, hs'.2.2⟩
    refine ⟨fun e he => ?_, fun e he => ?_, h.size.trans (Nat.le_of_lt hgrow), fun e he => ?_,
      h.insertionOrder, h.nodup, h.mem⟩
    · rw [slot, Option.bind_some, ArrayHeap.read_alloc_length]
      by_cases hold : e < s.instancesSize
      · rw [List.getElem?_append_left (by rwa [hlen])]
        simp [hold]
      · have hle := Nat.le_of_not_lt hold
        rw [List.getElem?_append_right (by rwa [hlen]), hlen, List.getElem?_replicate,
          if_pos (Nat.sub_lt_sub_right hle he), h.outside e hle]
    · obtain ⟨a, hbase, hr⟩ := Option.bind_eq_some_iff.mp (h.frozen e he)
      exact Option.bind_eq_some_iff.mpr ⟨a, hbase, ArrayHeap.read_alloc_of_some hr⟩
    · exact h.outside e ((Nat.le_of_lt hgrow).trans he)
  · have hlt : d < s.instancesSize := Nat.lt_of_succ_le (Nat.le_of_not_lt hgrow)
    obtain ⟨s', hs', hsize, hc⟩ := h.store hm hlt mem
    exact ⟨s', hs', hsize.trans (max_eq_left (Nat.le_of_not_lt hgrow)).symm, hc⟩

/-- Without insertions the map is null everywhere. -/
theorem Consistent.eq_none (h : Consistent s m order) (hempty : s.insertionOrder = []) :
    m = fun _ => none := by
  funext d
  by_contra hd
  have hmem := (h.mem d).mpr hd
  rw [← h.insertionOrder, hempty] at hmem
  cases hmem

/-- `resize` gives an empty store an empty array, which is the frozen one, too. -/
theorem Consistent.resize (h : Consistent s m order) (hempty : s.insertionOrder = []) (n : ℕ) :
    Consistent (s.resize n) m order := by
  obtain rfl := h.eq_none hempty
  have hslot : ∀ d < n, (s.resize n).slot (some s.instancesGraveyard.length) d = some none :=
    fun d hd => by
      rw [slot, Option.bind_some, SingletonArrays.resize, ArrayHeap.read_alloc_length,
        List.getElem?_replicate, if_pos hd]
  exact ⟨hslot, hslot, le_rfl, fun _ _ => rfl, h.insertionOrder, h.nodup, h.mem⟩

/-- The step lemma: a call that meets its precondition stays inside the arrays, which then hold
    the map and the order that the call describes. -/
theorem Consistent.perform (h : Consistent s m order) (hc : s.Meets c) :
    ∃ s', s.perform c = some s' ∧ Consistent s' (stored m [c]) (storeOrder order [c]) := by
  cases c with
  | resize n => exact ⟨_, rfl, h.resize hc n⟩
  | store d mem =>
    have hm : m d = none := Option.some.inj ((h.find_eq d).symm.trans hc.1)
    obtain ⟨s', hs', -, hs⟩ := h.store hm hc.2 mem
    exact ⟨s', hs', hs⟩
  | growAndStore d mem =>
    have hm : m d = none := Option.some.inj ((h.find_eq d).symm.trans hc)
    obtain ⟨s', hs', -, hs⟩ := h.growAndStore hm mem
    exact ⟨s', hs', hs⟩
  | releaseAll => exact ⟨_, rfl, .empty⟩

/-! ## The abstract store -/

/-- A call on the abstract store. -/
def Call.effect : Call → SingletonStore → SingletonStore
  | .resize descriptorCount, ss => ss.resize descriptorCount
  | .store descId mem, ss => ss.store descId mem
  | .growAndStore descId mem, ss => ss.growAndStore descId mem
  | .releaseAll, ss => ss.releaseAll

/-- The partial map that the store stands for. -/
def abstract (s : SingletonArrays) : SingletonStore where
  instances d := (s.find d).join
  size := s.instancesSize
  insertionOrder := s.insertionOrder

theorem Consistent.abstract_eq (h : Consistent s m order) :
    s.abstract = ⟨m, s.instancesSize, order⟩ := by
  rw [abstract, h.insertionOrder]
  congr 1
  funext d
  rw [h.find_eq, Option.join_some]

/-- Lookups are those of the abstract store. -/
theorem Consistent.abstract_find (h : Consistent s m order) (d : DescriptorId) :
    s.find d = some (s.abstract.find d) := by
  rw [h.find_eq, h.abstract_eq, SingletonStore.find]
  split_ifs with hd
  · rfl
  · exact congrArg some (h.outside d (Nat.le_of_not_lt hd))

/-- Calls that meet their preconditions are those of the abstract store. -/
theorem Consistent.abstract_perform (h : Consistent s m order) (hc : s.Meets c)
    (hs : s.perform c = some s') : s'.abstract = c.effect s.abstract := by
  obtain ⟨t, ht, h'⟩ := h.perform hc
  obtain rfl := Option.some.inj (ht.symm.trans hs)
  rw [h'.abstract_eq, h.abstract_eq]
  cases c with
  | resize n =>
    obtain rfl := h.eq_none hc
    obtain rfl := Option.some.inj hs
    rfl
  | store d mem =>
    obtain ⟨s₁, hs₁, hsize, -⟩ := h.store (Option.some.inj ((h.find_eq d).symm.trans hc.1)) hc.2 mem
    obtain rfl := Option.some.inj (hs₁.symm.trans hs)
    rw [hsize]
    rfl
  | growAndStore d mem =>
    obtain ⟨s₁, hs₁, hsize, -⟩ :=
      h.growAndStore (Option.some.inj ((h.find_eq d).symm.trans hc)) mem
    obtain rfl := Option.some.inj (hs₁.symm.trans hs)
    rw [hsize]
    rfl
  | releaseAll =>
    obtain rfl := Option.some.inj hs
    rfl

/-! ## Runs -/

theorem stored_cons (m : DescriptorId → Option Addr) (c : Call) (cs : List Call) :
    stored m (c :: cs) = stored (stored m [c]) cs := by
  cases c <;> rfl

theorem storeOrder_cons (order : List DescriptorId) (c : Call) (cs : List Call) :
    storeOrder order (c :: cs) = storeOrder (storeOrder order [c]) cs := by
  cases c <;> rfl

/-- The run lemma. -/
theorem Consistent.run (h : Consistent s m order) {cs : List Call}
    (hcs : machine.Along Meets s cs) :
    ∃ s', machine.run s cs = some s' ∧ Consistent s' (stored m cs) (storeOrder order cs) := by
  induction cs generalizing s m order with
  | nil => exact ⟨s, rfl, h⟩
  | cons c cs ih =>
    obtain ⟨s₁, hs₁, h₁⟩ := h.perform hcs.1
    obtain ⟨s', hr, h'⟩ := ih h₁ (hcs.tail hs₁)
    rw [stored_cons, storeOrder_cons]
    exact ⟨s', Option.bind_eq_some_iff.mpr ⟨s₁, hs₁, hr⟩, h'⟩

/-- Along every sequence of calls that meet their preconditions no access leaves an array, a
    lookup returns the pointer that was stored last since the last `releaseAll` or null, the
    frozen array agrees with the live one wherever it reaches, and the insertion order is the
    store order of the descriptors with an instance. -/
theorem find_eq_stored (cs : List Call) (hcs : machine.Along Meets {} cs) :
    ∃ s, machine.run {} cs = some s ∧
      (∀ d, s.find d = some (stored (fun _ => none) cs d)) ∧
      (∀ d < s.frozenSize, s.slot s.frozenBase d = s.slot s.instancesBase d) ∧
      s.insertionOrder = storeOrder [] cs ∧ s.insertionOrder.Nodup ∧
      ∀ d, d ∈ s.insertionOrder ↔ ∃ mem, s.find d = some (some mem) := by
  obtain ⟨s, hr, h⟩ := Consistent.empty.run hcs
  refine ⟨s, hr, h.find_eq, fun d hd => ?_, h.insertionOrder, ?_, fun d => ?_⟩
  · rw [h.frozen d hd, h.live d (hd.trans_le h.size)]
  · rw [h.insertionOrder]
    exact h.nodup
  · rw [h.insertionOrder, h.mem, h.find_eq, Option.ne_none_iff_exists']
    simp

/-- A singleton of the start is materialized after a binding has grown the array. -/
theorem find_eq_stored_grown : ∃ s,
    machine.run {} [.resize 2, .growAndStore 2 7, .store 0 8] = some s ∧
      (∀ d, s.find d =
        some (stored (fun _ => none) [.resize 2, .growAndStore 2 7, .store 0 8] d)) ∧
      (∀ d < s.frozenSize, s.slot s.frozenBase d = s.slot s.instancesBase d) ∧
      s.insertionOrder = storeOrder [] [.resize 2, .growAndStore 2 7, .store 0 8] ∧
      s.insertionOrder.Nodup ∧
      ∀ d, d ∈ s.insertionOrder ↔ ∃ mem, s.find d = some (some mem) :=
  find_eq_stored [.resize 2, .growAndStore 2 7, .store 0 8] (by decide)

end SingletonArrays
end Ctorium
