import Mathlib.Data.List.Induction
import Mathlib.Data.Set.Function
import Ctorium.TypeIndex

/-!
# Qualified names

`qualifiedNameOf` names a type by its chain of enclosing scopes. A first pass over
the scopes counts the characters, a second one writes the segments into a buffer
from its end. Both stop at a scope that is neither a namespace nor a class, at one
without an identifier, and behind a template specialization, whose display string
says all of it. Types are interned under this name alone, and looked up under
their `std::type_index`.

* `qualifiedNameOf_eq_iff`: two types have the same name exactly if they have the
  same path, which ends where the passes stop;
* `distinct_ids_iff`: distinct types of a program have distinct names and identifiers,
  and are found under them, exactly if no two of them have the same path.
-/

namespace Ctorium.QualifiedName

/-- The characters of identifiers: letters, digits, those that count as letters, and those
    outside of ASCII. -/
def isIdentifierChar (c : Char) : Bool :=
  c.isAlphanum || c == '_' || c == '$' || decide (128 ≤ c.toNat)

/-- An identifier of the program text. -/
structure Identifier where
  chars : List Char
  ne_nil : chars ≠ []
  plain : chars.all isIdentifierChar = true
  deriving DecidableEq

/-- A character of the punctuation is not one of an identifier. -/
theorem Identifier.not_mem (name : Identifier) {c : Char} (hc : ¬isIdentifierChar c) :
    c ∉ name.chars :=
  fun hmem => hc (List.all_eq_true.mp name.plain c hmem)

/-- What `std::meta` says of the template specializations `δ`. The display string of a
    specialization says all of it, its enclosing scopes included. -/
structure Specializations (δ : Type*) where
  displayStringOf : δ → List Char
  hasIdentifier : δ → Bool
  displayStringOf_injective : Function.Injective displayStringOf
  /-- It ends with its template arguments. -/
  getLast?_displayStringOf : ∀ s, (displayStringOf s).getLast? = some '>'

/-- A scope that encloses a type. Each translation unit has unnamed namespaces of its own. -/
inductive Scope (δ : Type*)
  | namedNamespace (name : Identifier)
  | unnamedNamespace (unit : ℕ)
  | namedClass (name : Identifier)
  | unnamedClass (tag : ℕ)
  | unionType (tag : ℕ)
  | specialization (s : δ)
  deriving DecidableEq

/-- A type that is not local to a function, with the scopes that enclose it up to the global
    namespace, the innermost one first. -/
inductive EnclosedType (δ : Type*)
  | named (name : Identifier) (scopes : List (Scope δ))
  | specialization (s : δ)
  deriving DecidableEq

/-! ## The passes -/

namespace Specializations

variable {δ : Type*} (D : Specializations δ)

/-- `parentInScope`: namespaces and classes; a union is not a class type. -/
def parentInScope : Scope δ → Bool
  | .unionType _ => false
  | _ => true

/-- `parentSegment`, empty for a scope without identifier. -/
def parentSegment : Scope δ → List Char
  | .namedNamespace name => name.chars
  | .namedClass name => name.chars
  | .specialization s => if D.hasIdentifier s then D.displayStringOf s else []
  | _ => []

/-- The `stopAfterSegment` of a scope. -/
def stopAfterSegment : Scope δ → Bool
  | .specialization s => D.hasIdentifier s
  | _ => false

/-- The first pass: the length of the segments, and their number. -/
def countSegments : List (Scope δ) → ℕ × ℕ → ℕ × ℕ
  | [], count => count
  | parent :: parents, (segmentLength, segmentCount) =>
    if parentInScope parent then
      if D.parentSegment parent = [] then (segmentLength, segmentCount)
      else
        let count := (segmentLength + (D.parentSegment parent).length, segmentCount + 1)
        if D.stopAfterSegment parent then count else countSegments parents count
    else (segmentLength, segmentCount)

/-- Overwrite the characters of a buffer from a position on. -/
def write (buffer : List Char) (pos : ℕ) (segment : List Char) : List Char :=
  buffer.take pos ++ segment ++ buffer.drop (pos + segment.length)

/-- The second pass: each segment is written in front of what is written already. -/
def writeSegments : List (Scope δ) → List Char × ℕ → List Char × ℕ
  | [], out => out
  | parent :: parents, (buffer, writeEnd) =>
    if parentInScope parent then
      if D.parentSegment parent = [] then (buffer, writeEnd)
      else
        let (buffer, writeEnd) :=
          if writeEnd > 0 then (write buffer (writeEnd - 2) [':', ':'], writeEnd - 2)
          else (buffer, writeEnd)
        let writeEnd := writeEnd - (D.parentSegment parent).length
        let out := (write buffer writeEnd (D.parentSegment parent), writeEnd)
        if D.stopAfterSegment parent then out else writeSegments parents out
    else (buffer, writeEnd)

def qualifiedNameOf : EnclosedType δ → String
  | .specialization s => String.ofList (D.displayStringOf s)
  | .named name scopes =>
    let (segmentLength, segmentCount) := D.countSegments scopes (name.chars.length, 1)
    let totalLength := segmentLength + if segmentCount > 1 then (segmentCount - 1) * 2 else 0
    let writeEnd := totalLength - name.chars.length
    let buffer := write (List.replicate totalLength (Char.ofNat 0)) writeEnd name.chars
    String.ofList (D.writeSegments scopes (buffer, writeEnd)).1

end Specializations

/-! ## Paths -/

/-- The identifiers on the way from a type to the scope at which the passes stop, the innermost
    one first, and the specialization that this scope is, if it is one. -/
structure Path (δ : Type*) where
  names : List Identifier
  root : Option δ
  deriving DecidableEq

namespace Specializations

variable {δ : Type*} (D : Specializations δ)

def pathOfScopes : List (Scope δ) → Path δ
  | [] => ⟨[], none⟩
  | .namedNamespace name :: parents | .namedClass name :: parents =>
    ⟨name :: (pathOfScopes parents).names, (pathOfScopes parents).root⟩
  | .specialization s :: _ => ⟨[], if D.hasIdentifier s then some s else none⟩
  | .unnamedNamespace _ :: _ | .unnamedClass _ :: _ | .unionType _ :: _ => ⟨[], none⟩

def path : EnclosedType δ → Path δ
  | .specialization s => ⟨[], some s⟩
  | .named name scopes => ⟨name :: (D.pathOfScopes scopes).names, (D.pathOfScopes scopes).root⟩

/-- The characters of a path, from the last one on. -/
def backwards : List Identifier → Option δ → List Char
  | [], none => []
  | [], some s => (D.displayStringOf s).reverse
  | name :: names, root =>
    name.chars.reverse ++
      if names = [] ∧ root.isNone then [] else ':' :: ':' :: backwards names root

variable {D}

theorem displayStringOf_reverse (s : δ) :
    ∃ cs, (D.displayStringOf s).reverse = '>' :: cs := by
  have h := D.getLast?_displayStringOf s
  rw [← List.head?_reverse] at h
  obtain ⟨cs, hcs⟩ := List.head?_eq_some_iff.1 h
  exact ⟨cs, hcs⟩

theorem backwards_ne_nil (names : List Identifier) (root : Option δ)
    (h : ¬(names = [] ∧ root.isNone)) : D.backwards names root ≠ [] := by
  cases names with
  | nil =>
    cases root with
    | none => exact absurd ⟨rfl, rfl⟩ h
    | some s =>
      obtain ⟨cs, hcs⟩ := D.displayStringOf_reverse s
      rw [backwards, hcs]
      exact List.cons_ne_nil _ _
  | cons name names =>
    exact List.append_ne_nil_of_left_ne_nil (List.reverse_ne_nil_iff.2 name.ne_nil) _

/-- An identifier ends where a colon or nothing follows. -/
theorem identifier_append_inj {name name' : Identifier} {rest rest' : List Char}
    (hrest : rest = [] ∨ ∃ cs, rest = ':' :: cs) (hrest' : rest' = [] ∨ ∃ cs, rest' = ':' :: cs)
    (h : name.chars.reverse ++ rest = name'.chars.reverse ++ rest') :
    name = name' ∧ rest = rest' := by
  have hcolon (name : Identifier) : ':' ∉ name.chars.reverse := fun hmem =>
    name.not_mem (by decide) (List.mem_reverse.1 hmem)
  have hends (name : Identifier) {rest : List Char} (hrest : rest = [] ∨ ∃ cs, rest = ':' :: cs) :
      (name.chars.reverse ++ rest).takeWhile (· ≠ ':') = name.chars.reverse := by
    rw [List.takeWhile_append_of_pos fun c hc => by
      simpa using fun heq : c = ':' => hcolon name (heq ▸ hc)]
    rcases hrest with rfl | ⟨cs, rfl⟩ <;> simp
  have hname : name.chars.reverse = name'.chars.reverse := by
    rw [← hends name hrest, ← hends name' hrest', h]
  refine ⟨?_, ?_⟩
  · cases name
    cases name'
    simpa using hname
  · rw [hname] at h
    exact List.append_cancel_left h

theorem rest_eq (names : List Identifier) (root : Option δ) :
    (if names = [] ∧ root.isNone then [] else ':' :: ':' :: D.backwards names root) = [] ∨
      ∃ cs, (if names = [] ∧ root.isNone then [] else ':' :: ':' :: D.backwards names root) =
        ':' :: cs := by
  split
  · exact .inl rfl
  · exact .inr ⟨_, rfl⟩

/-- A display string does not start like an identifier, from the last character on. -/
theorem backwards_specialization_ne {s : δ} {name : Identifier} {cs : List Char} :
    (D.displayStringOf s).reverse ≠ name.chars.reverse ++ cs := by
  intro h
  obtain ⟨ds, hds⟩ := D.displayStringOf_reverse s
  have hmem : '>' ∈ name.chars := by
    cases hname : name.chars.reverse with
    | nil => exact absurd (List.reverse_eq_nil_iff.1 hname) name.ne_nil
    | cons c cs' =>
      rw [hds, hname] at h
      have hc : '>' = c := (List.cons.inj h).1
      rw [← List.mem_reverse, hname, hc]
      exact List.mem_cons_self
  exact name.not_mem (by decide) hmem

/-- The characters determine the path. -/
theorem backwards_inj {names names' : List Identifier} {root root' : Option δ}
    (h : D.backwards names root = D.backwards names' root') : names = names' ∧ root = root' := by
  -- By induction on the chain: the innermost name can be read off, and so can the rest.
  induction names generalizing names' with
  | nil =>
    cases root with
    | none =>
      by_cases hempty : names' = [] ∧ root'.isNone
      · exact ⟨hempty.1.symm, (Option.isNone_iff_eq_none.1 hempty.2).symm⟩
      · exact absurd h.symm (backwards_ne_nil _ _ hempty)
    | some s =>
      cases names' with
      | nil =>
        cases root' with
        | none =>
          exact absurd h (backwards_ne_nil [] (some s) fun hand => nomatch hand.2)
        | some s' =>
          have hdisplay := D.displayStringOf_injective (List.reverse_injective h)
          exact ⟨rfl, congrArg some hdisplay⟩
      | cons name' names' => exact absurd h backwards_specialization_ne
  | cons name names ih =>
    cases names' with
    | nil =>
      cases root' with
      | none =>
        exact absurd h (backwards_ne_nil (name :: names) root fun hand => nomatch hand.1)
      | some s' => exact absurd h.symm backwards_specialization_ne
    | cons name' names' =>
      obtain ⟨rfl, hrest⟩ := identifier_append_inj (rest_eq names root) (rest_eq names' root') h
      -- The rests are empty or begin with a separator, both at the same time.
      by_cases hempty : names = [] ∧ root.isNone
      · by_cases hempty' : names' = [] ∧ root'.isNone
        · rw [hempty.1, hempty'.1, Option.isNone_iff_eq_none.1 hempty.2,
            Option.isNone_iff_eq_none.1 hempty'.2]
          exact ⟨rfl, rfl⟩
        · rw [if_pos hempty, if_neg hempty'] at hrest
          exact absurd hrest.symm (List.cons_ne_nil _ _)
      · by_cases hempty' : names' = [] ∧ root'.isNone
        · rw [if_neg hempty, if_pos hempty'] at hrest
          exact absurd hrest (List.cons_ne_nil _ _)
        · rw [if_neg hempty, if_neg hempty'] at hrest
          obtain ⟨rfl, rfl⟩ := ih (List.cons.inj (List.cons.inj hrest).2).2
          exact ⟨rfl, rfl⟩

/-! ## What the passes write -/

/-- The characters that the second pass writes in front of the identifier of the type. -/
def front (D : Specializations δ) : List (Scope δ) → List Char
  | [] => []
  | parent :: parents =>
    if parentInScope parent ∧ D.parentSegment parent ≠ [] then
      (if D.stopAfterSegment parent then [] else front D parents) ++
        D.parentSegment parent ++ [':', ':']
    else []

/-- The first pass counts the characters that the second one writes. -/
theorem countSegments_eq (scopes : List (Scope δ)) (segmentLength segmentCount : ℕ) :
    (D.countSegments scopes (segmentLength, segmentCount)).1 +
        2 * (D.countSegments scopes (segmentLength, segmentCount)).2 =
      segmentLength + 2 * segmentCount + (D.front scopes).length ∧
    segmentCount ≤ (D.countSegments scopes (segmentLength, segmentCount)).2 := by
  induction scopes generalizing segmentLength segmentCount with
  | nil => simp [countSegments, front]
  | cons parent parents ih =>
    simp only [countSegments, front]
    by_cases hscope : parentInScope parent
    · by_cases hsegment : D.parentSegment parent = []
      · simp [hscope, hsegment]
      · have hand : parentInScope parent ∧ D.parentSegment parent ≠ [] := ⟨hscope, hsegment⟩
        rw [if_pos hscope, if_neg hsegment, if_pos hand]
        by_cases hstop : D.stopAfterSegment parent
        · simp only [if_pos hstop, List.length_append, List.length_nil, List.length_cons]
          omega
        · rw [if_neg hstop, if_neg hstop]
          have := ih (segmentLength + (D.parentSegment parent).length) (segmentCount + 1)
          simp only [List.length_append, List.length_nil, List.length_cons]
          omega
    · simp [hscope]

/-- Writing right in front of what is written already. -/
theorem write_replicate (k : ℕ) (c : Char) (segment suffix : List Char) :
    write (List.replicate (k + segment.length) c ++ suffix) k segment =
      List.replicate k c ++ (segment ++ suffix) := by
  rw [write, List.take_append_of_le_length (by simp), List.take_replicate,
    Nat.min_eq_left (Nat.le_add_right _ _), List.drop_left' (by simp), List.append_assoc]

/-- The second pass fills the buffer. -/
theorem writeSegments_eq (scopes : List (Scope δ)) (c : Char) (suffix : List Char) :
    D.writeSegments scopes
        (List.replicate (D.front scopes).length c ++ suffix, (D.front scopes).length) =
      (D.front scopes ++ suffix, 0) := by
  induction scopes generalizing suffix with
  | nil => simp [writeSegments, front]
  | cons parent parents ih =>
    by_cases hand : parentInScope parent ∧ D.parentSegment parent ≠ []
    · obtain ⟨hscope, hsegment⟩ := hand
      let before := if D.stopAfterSegment parent then [] else D.front parents
      have hfront : D.front (parent :: parents) =
          before ++ D.parentSegment parent ++ [':', ':'] := if_pos ⟨hscope, hsegment⟩
      have hlength : (D.front (parent :: parents)).length =
          before.length + (D.parentSegment parent).length + [':', ':'].length := by
        rw [hfront, List.length_append, List.length_append]
      -- The colons and the segment go in front of the suffix.
      have hcolons : write (List.replicate (D.front (parent :: parents)).length c ++ suffix)
          ((D.front (parent :: parents)).length - 2) [':', ':'] =
            List.replicate (before.length + (D.parentSegment parent).length) c ++
              ([':', ':'] ++ suffix) := by
        rw [hlength]
        exact write_replicate _ c [':', ':'] suffix
      have hwrite := write_replicate before.length c (D.parentSegment parent)
        ([':', ':'] ++ suffix)
      have hpos : (D.front (parent :: parents)).length > 0 := by
        rw [hlength]
        exact Nat.succ_pos _
      simp only [writeSegments]
      rw [if_pos hscope, if_neg hsegment, if_pos hpos, hcolons]
      have hend : (D.front (parent :: parents)).length - 2 - (D.parentSegment parent).length =
          before.length := by
        rw [hlength]
        simp only [List.length_cons, List.length_nil]
        omega
      simp only [hend, hwrite]
      rw [hfront]
      by_cases hstop : D.stopAfterSegment parent
      · simp [before, hstop]
      · have hbefore : before = D.front parents := if_neg hstop
        rw [if_neg hstop, hbefore, ih]
        simp only [List.append_assoc]
    · have hfront : D.front (parent :: parents) = [] := if_neg hand
      rw [hfront]
      simp only [writeSegments]
      split
      · rename_i hscope
        rw [if_pos (not_not.1 fun hne => hand ⟨hscope, hne⟩)]
        rfl
      · rfl

/-- The name of a type, as a whole. -/
theorem qualifiedNameOf_named (name : Identifier) (scopes : List (Scope δ)) :
    D.qualifiedNameOf (.named name scopes) = String.ofList (D.front scopes ++ name.chars) := by
  obtain ⟨hlength, hcount⟩ := D.countSegments_eq scopes name.chars.length 1
  have htotal : ((D.countSegments scopes (name.chars.length, 1)).1 +
      if (D.countSegments scopes (name.chars.length, 1)).2 > 1 then
        ((D.countSegments scopes (name.chars.length, 1)).2 - 1) * 2 else 0) =
      (D.front scopes).length + name.chars.length := by
    split <;> omega
  have hwrite := write_replicate (D.front scopes).length (Char.ofNat 0) name.chars []
  rw [List.append_nil, List.append_nil] at hwrite
  simp only [qualifiedNameOf]
  rw [htotal, Nat.add_sub_cancel, hwrite, writeSegments_eq]

/-- What is written in front is the rest of the path. -/
theorem reverse_front (scopes : List (Scope δ)) :
    (D.front scopes).reverse =
      if (D.pathOfScopes scopes).names = [] ∧ (D.pathOfScopes scopes).root.isNone then []
      else ':' :: ':' :: D.backwards (D.pathOfScopes scopes).names
        (D.pathOfScopes scopes).root := by
  -- By induction on the enclosing scopes, from the outside.
  induction scopes with
  | nil => rfl
  | cons parent parents ih =>
    have hnamed (name : Identifier) :
        ((D.front parents ++ name.chars ++ [':', ':'] : List Char)).reverse =
          ':' :: ':' :: D.backwards (name :: (D.pathOfScopes parents).names)
            (D.pathOfScopes parents).root := by
      rw [List.reverse_append, List.reverse_append, ih]
      rfl
    cases parent with
    | namedNamespace name =>
      rw [front, if_pos ⟨rfl, name.ne_nil⟩]
      exact hnamed name
    | namedClass name =>
      rw [front, if_pos ⟨rfl, name.ne_nil⟩]
      exact hnamed name
    | specialization s =>
      obtain ⟨cs, hcs⟩ := D.displayStringOf_reverse s
      have hne : D.displayStringOf s ≠ [] := fun hnil => by simp [hnil] at hcs
      cases hid : D.hasIdentifier s <;>
        simp [front, parentSegment, stopAfterSegment, parentInScope, pathOfScopes, hid, hne,
          backwards]
    | unnamedNamespace unit => rfl
    | unnamedClass tag => rfl
    | unionType tag => rfl

/-- The characters of the name of a type, from the last one on, are those of its path. -/
theorem reverse_qualifiedNameOf (t : EnclosedType δ) :
    (D.qualifiedNameOf t).toList.reverse = D.backwards (D.path t).names (D.path t).root := by
  cases t with
  | specialization s => rw [qualifiedNameOf, String.toList_ofList]; rfl
  | named name scopes =>
    rw [qualifiedNameOf_named, String.toList_ofList, List.reverse_append, reverse_front]
    rfl

/-- Two types have the same name exactly if they have the same path. -/
theorem qualifiedNameOf_eq_iff {t u : EnclosedType δ} :
    D.qualifiedNameOf t = D.qualifiedNameOf u ↔ D.path t = D.path u := by
  constructor
  · intro h
    have hback := congrArg (fun name => name.toList.reverse) h
    simp only [reverse_qualifiedNameOf] at hback
    obtain ⟨hnames, hroot⟩ := backwards_inj hback
    cases ht : D.path t
    cases hu : D.path u
    simp_all
  · intro h
    have hback : (D.qualifiedNameOf t).toList.reverse = (D.qualifiedNameOf u).toList.reverse := by
      rw [reverse_qualifiedNameOf, reverse_qualifiedNameOf, h]
    exact String.toList_inj.1 (List.reverse_injective hback)

end Specializations

/-! ## Interning the types of a program -/

/-- The types of a program that can be discovered or bound. -/
structure Program (δ : Type*) extends Specializations δ where
  types : Set (EnclosedType δ)
  /-- The `std::type_index` of a type. -/
  typeIndex : EnclosedType δ → ℕ
  typeIndex_injOn : Set.InjOn typeIndex types

/-- A call on the interning table. -/
inductive Call (δ : Type*)
  | internByName (t : EnclosedType δ)
  | freeze

/-- The interning table, with the identifiers that the calls so far have returned. -/
structure Interned (δ : Type*) where
  table : TypeInterning := {}
  returned : List (EnclosedType δ × TypeId) := []

namespace Program

variable {δ : Type*} (P : Program δ)

/-- A type, as it is interned. -/
def cppType (t : EnclosedType δ) : CppType := ⟨P.qualifiedNameOf t, P.typeIndex t⟩

def apply (s : Interned δ) : Call δ → Interned δ
  | .internByName t =>
    { table := (s.table.internByName (P.cppType t)).2
      returned := s.returned ++ [(t, (s.table.internByName (P.cppType t)).1)] }
  | .freeze => { s with table := s.table.freeze }

def after (calls : List (Call δ)) : Interned δ := calls.foldl P.apply {}

/-- The calls are for types of the program. -/
def Calls (calls : List (Call δ)) : Prop := ∀ t, .internByName t ∈ calls → t ∈ P.types

/-- Distinct types have distinct names, get distinct identifiers in all sequences of calls, and
    are found under their own. -/
def DistinctIds : Prop :=
  (∀ t ∈ P.types, ∀ u ∈ P.types, t ≠ u → P.qualifiedNameOf t ≠ P.qualifiedNameOf u) ∧
    ∀ calls, P.Calls calls →
      (∀ p ∈ (P.after calls).returned, ∀ q ∈ (P.after calls).returned, p.1 ≠ q.1 → p.2 ≠ q.2) ∧
      ∀ p ∈ (P.after calls).returned,
        (P.after calls).table.lookupByTypeIndex (P.typeIndex p.1) = some p.2

/-- The table and the identifiers returned so far, where names tell types apart. -/
structure Consistent (s : Interned δ) : Prop where
  valid : s.table.Valid
  overflow : s.table.frozen = false → s.table.overflowIndexToId = []
  types : ∀ p ∈ s.returned, p.1 ∈ P.types
  named : ∀ p ∈ s.returned, p.2 < s.table.size ∧ s.table.nameOf p.2 = P.qualifiedNameOf p.1
  found : ∀ p ∈ s.returned, s.table.lookupByTypeIndex (P.typeIndex p.1) = some p.2
  only : ∀ index id, s.table.lookupByTypeIndex index = some id →
    ∃ p ∈ s.returned, P.typeIndex p.1 = index
  known : ∀ name ∈ s.table.allNames, ∃ p ∈ s.returned, P.qualifiedNameOf p.1 = name

variable {P} {s : Interned δ}

theorem consistent_empty : P.Consistent {} where
  valid := TypeInterning.valid_empty
  overflow := fun _ => rfl
  types := fun _ h => absurd h List.not_mem_nil
  named := fun _ h => absurd h List.not_mem_nil
  found := fun _ h => absurd h List.not_mem_nil
  only := fun _ _ h => nomatch h
  known := fun _ h => absurd h List.not_mem_nil

theorem Consistent.freeze (h : P.Consistent s) : P.Consistent (P.apply s .freeze) where
  valid := h.valid.freeze
  overflow := nofun
  types := h.types
  named := h.named
  found := h.found
  only := h.only
  known := h.known

/-- A known name is that of the type itself, which was interned before. -/
theorem Consistent.mem_returned (h : P.Consistent s) (hinj : Set.InjOn P.qualifiedNameOf P.types)
    {t : EnclosedType δ} (ht : t ∈ P.types) {id : TypeId} (hid : id < s.table.size)
    (hname : s.table.nameOf id = P.qualifiedNameOf t) : (t, id) ∈ s.returned := by
  obtain ⟨⟨u, id'⟩, hp, hu⟩ := h.known _ (hname ▸ TypeInterning.nameOf_mem hid)
  obtain rfl : u = t := hinj (h.types _ hp) ht hu
  have hnamed := h.named _ hp
  obtain rfl : id' = id :=
    TypeInterning.nameOf_injective h.valid hnamed.1 hid (hnamed.2.trans hname.symm)
  exact hp

/-- Interning a type, where names tell the types of the program apart. -/
theorem Consistent.internByName (h : P.Consistent s)
    (hinj : Set.InjOn P.qualifiedNameOf P.types) {t : EnclosedType δ} (ht : t ∈ P.types) :
    P.Consistent (P.apply s (.internByName t)) := by
  have hcases {p : EnclosedType δ × TypeId}
      (hp : p ∈ (P.apply s (.internByName t)).returned) :
      p ∈ s.returned ∨ p = (t, (s.table.internByName (P.cppType t)).1) := by
    rcases List.mem_append.1 hp with hp | hp
    · exact .inl hp
    · exact .inr (List.mem_singleton.1 hp)
  rcases TypeInterning.internByName_cases h.valid (P.cppType t) with
    ⟨hsame, hid, hname⟩ | ⟨hid, hnew, -, hnames, -⟩
  · -- Nothing changes but that an identifier is returned once more.
    have hmem := h.mem_returned hinj ht hid hname
    have hreturned : ∀ p ∈ (P.apply s (.internByName t)).returned, p ∈ s.returned := by
      intro p hp
      rcases hcases hp with hp | rfl
      · exact hp
      · exact hmem
    have hgrows : ∀ p ∈ s.returned, p ∈ (P.apply s (.internByName t)).returned :=
      fun p hp => List.mem_append_left _ hp
    have htable : (P.apply s (.internByName t)).table = s.table := hsame
    refine ⟨?_, ?_, fun p hp => h.types p (hreturned p hp), ?_, ?_, ?_, ?_⟩
    all_goals rw [htable]
    · exact h.valid
    · exact h.overflow
    · exact fun p hp => h.named p (hreturned p hp)
    · exact fun p hp => h.found p (hreturned p hp)
    · intro index id hid
      obtain ⟨p, hp, heq⟩ := h.only index id hid
      exact ⟨p, hgrows p hp, heq⟩
    · intro name hname
      obtain ⟨p, hp, heq⟩ := h.known name hname
      exact ⟨p, hgrows p hp, heq⟩
  · have hlookup := TypeInterning.lookupByTypeIndex_internByName_of_new h.valid h.overflow hnew
    have hlt := TypeInterning.internByName_lt h.valid (P.cppType t)
    -- The type is not found before, as its name is new.
    have hnone : s.table.lookupByTypeIndex (P.typeIndex t) = none := by
      by_contra hsome
      obtain ⟨id, hid⟩ := Option.ne_none_iff_exists'.mp hsome
      obtain ⟨p, hp, heq⟩ := h.only _ _ hid
      obtain rfl := P.typeIndex_injOn (h.types p hp) ht heq
      have hknown := TypeInterning.nameOf_mem (h.named p hp).1
      rw [(h.named p hp).2] at hknown
      exact hnew hknown
    refine ⟨h.valid.internByName _, ?_, ?_, ?_, ?_, ?_, ?_⟩
    · intro hfrozen
      change (s.table.internByName (P.cppType t)).2.frozen = false at hfrozen
      rw [TypeInterning.frozen_internByName] at hfrozen
      exact (TypeInterning.overflowIndexToId_internByName hfrozen _).trans (h.overflow hfrozen)
    · intro p hp
      rcases hcases hp with hp | rfl
      · exact h.types p hp
      · exact ht
    · intro p hp
      rcases hcases hp with hp | rfl
      · obtain ⟨hid, hname⟩ := h.named p hp
        exact ⟨hid.trans_le (TypeInterning.size_le_internByName h.valid _),
          (TypeInterning.nameOf_internByName h.valid hid).trans hname⟩
      · exact ⟨hlt, TypeInterning.nameOf_internByName_self h.valid _⟩
    · intro p hp
      refine (hlookup _).trans ?_
      rcases hcases hp with hp | rfl
      · rw [h.found p hp, Option.some_or]
      · rw [hnone, Option.none_or, hid]
        exact if_pos rfl
    · intro index id hid
      replace hid := (hlookup index).symm.trans hid
      rcases Option.or_eq_some_iff.mp hid with hid | ⟨-, hid⟩
      · obtain ⟨p, hp, heq⟩ := h.only index id hid
        exact ⟨p, List.mem_append_left _ hp, heq⟩
      · obtain ⟨hindex, -⟩ := Option.ite_none_right_eq_some.1 hid
        exact ⟨_, List.mem_append_right _ (List.mem_singleton_self _), hindex⟩
    · intro name hname
      have hname : name ∈ (s.table.internByName (P.cppType t)).2.allNames := hname
      rw [hnames] at hname
      rcases List.mem_append.1 hname with hname | hname
      · obtain ⟨p, hp, heq⟩ := h.known name hname
        exact ⟨p, List.mem_append_left _ hp, heq⟩
      · exact ⟨_, List.mem_append_right _ (List.mem_singleton_self _),
          (List.mem_singleton.1 hname).symm⟩

/-- The table and the identifiers after any calls for types of the program. -/
theorem consistent_after (hinj : Set.InjOn P.qualifiedNameOf P.types) {calls : List (Call δ)}
    (hcalls : P.Calls calls) : P.Consistent (P.after calls) := by
  induction calls using List.reverseRecOn with
  | nil => exact consistent_empty
  | append_singleton calls call ih =>
    have h := ih fun t ht => hcalls t (List.mem_append_left _ ht)
    rw [after, List.foldl_append]
    cases call with
    | internByName t =>
      exact h.internByName hinj (hcalls t (List.mem_append_right _ (List.mem_singleton_self _)))
    | freeze => exact h.freeze

/-- Distinct types have distinct names and identifiers, and are found under them, exactly if no
    two types of the program have the same path. -/
theorem distinct_ids_iff (P : Program δ) : P.DistinctIds ↔ Set.InjOn P.path P.types := by
  constructor
  · intro h t ht u hu heq
    by_contra hne
    exact h.1 t ht u hu hne (Specializations.qualifiedNameOf_eq_iff.2 heq)
  · intro h
    have hinj : Set.InjOn P.qualifiedNameOf P.types := fun t ht u hu heq =>
      h ht hu (Specializations.qualifiedNameOf_eq_iff.1 heq)
    refine ⟨fun t ht u hu hne heq => hne (hinj ht hu heq), fun calls hcalls => ?_⟩
    have hc := consistent_after hinj hcalls
    refine ⟨fun p hp q hq hne heq => hne (hinj (hc.types p hp) (hc.types q hq) ?_), hc.found⟩
    rw [← (hc.named p hp).2, heq, (hc.named q hq).2]

end Program

/-! ## A type in an unnamed namespace -/

/-- `app::(unnamed)::Cache` and `::Cache`. -/
def hiddenCache : EnclosedType Empty :=
  .named ⟨['C', 'a', 'c', 'h', 'e'], by decide, by decide⟩
    [.unnamedNamespace 0, .namedNamespace ⟨['a', 'p', 'p'], by decide, by decide⟩]

def globalCache : EnclosedType Empty := .named ⟨['C', 'a', 'c', 'h', 'e'], by decide, by decide⟩ []

def caches : Program Empty where
  displayStringOf := Empty.elim
  hasIdentifier := Empty.elim
  displayStringOf_injective := nofun
  getLast?_displayStringOf := nofun
  types := {hiddenCache, globalCache}
  typeIndex t := if t = hiddenCache then 0 else 1
  typeIndex_injOn := by
    rintro t (rfl | rfl) u (rfl | rfl) <;> simp [hiddenCache, globalCache]

/-- The namespace `app` is lost behind the unnamed one: both types are named `Cache`, get the
    same identifier, and the second one is not found. -/
theorem caches_same_id : ¬ caches.DistinctIds ∧
    (caches.after [.internByName hiddenCache, .internByName globalCache]).returned =
      [(hiddenCache, 0), (globalCache, 0)] ∧
    (caches.after [.internByName hiddenCache, .internByName globalCache]).table.lookupByTypeIndex
      (caches.typeIndex globalCache) = none := by
  refine ⟨fun h => ?_, by decide, by decide⟩
  exact h.1 hiddenCache (.inl rfl) globalCache (.inr rfl) (by decide) (by decide)

end Ctorium.QualifiedName
