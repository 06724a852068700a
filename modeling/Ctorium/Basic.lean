import Mathlib.Algebra.Group.Nat.Defs
import Mathlib.Data.Nat.Notation

/-!
# Identifiers and enumerations

The identifiers that the subsystems of the registry share. The source's dense
32-bit identifiers are natural numbers here; the two places where a width
matters (freelist tags and reference counts) use fixed-width types of their own.
-/

namespace Ctorium

/-- The index of a bean descriptor in the descriptor table. -/
abbrev DescriptorId := ℕ

/-- The "no descriptor" sentinel, the largest 32-bit number. -/
def kInvalidDescriptorId : DescriptorId := 2 ^ 32 - 1

/-- The index of a session bean in the session stores of all scopes. -/
abbrev SessionSlot := ℕ

/-- The "no session slot" sentinel, the largest 32-bit number. -/
def kInvalidSessionSlot : SessionSlot := 2 ^ 32 - 1

/-- A scoped context, identified with its address. -/
abbrev ScopeId := ℕ

/-- The address of a constructed object (never null). -/
abbrev Addr := ℕ

/-- The lifetimes of beans. -/
inductive Lifetime
  | prototype
  | singleton
  | session
  | threadLocal
  deriving DecidableEq, Repr

/-- Where the descriptor of a bean comes from. -/
inductive Origin
  | annotatedType
  | factoryProduct
  | runtimeBinding
  deriving DecidableEq, Repr

theorem Origin.annotatedType_ne_runtimeBinding : annotatedType ≠ runtimeBinding := nofun

theorem Origin.factoryProduct_ne_runtimeBinding : factoryProduct ≠ runtimeBinding := nofun

/-- The states of a scoped context. -/
inductive ScopeState
  | stopped
  | running
  | stopping
  deriving DecidableEq, Repr

/-- The exceptions that the library raises, with their texts, and the exceptions
    of user code that pass through it. -/
inductive Failure
  | resolutionError (message : String)
  | contextStateError (message : String)
  | configurationError (message : String)
  | userException
  deriving DecidableEq, Repr

end Ctorium
