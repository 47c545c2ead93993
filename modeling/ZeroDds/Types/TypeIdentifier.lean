/-
Type identifiers.
-/
import Mathlib.Algebra.Ring.Nat
import Mathlib.Order.Fin.Basic
import Mathlib.Data.List.Basic

namespace ZeroDds.Types

/-- The fourteen octets of a hash, the first one the most significant, so that the order of the
numbers is that of the octets. -/
abbrev EquivalenceHash := Fin (2 ^ 112)

namespace EquivalenceKind

def minimal : Nat := 0xF1
def complete : Nat := 0xF2
def both : Nat := 0xF3

end EquivalenceKind

inductive PrimitiveKind where
  | boolean | byte | int8 | int16 | int32 | int64 | uint8 | uint16 | uint32 | uint64
  | float32 | float64 | float128 | char8 | char16
deriving DecidableEq

structure PlainCollectionHeader where
  equivKind : Nat
  elementFlags : UInt16
deriving DecidableEq

structure StronglyConnectedComponentId where
  equivalenceKind : Nat
  hash : EquivalenceHash
  sccLength : Int
  /-- Numbered from one; 0 names the component and no type in it. -/
  sccIndex : Int
deriving DecidableEq

inductive TypeIdentifier where
  | none
  | primitive (kind : PrimitiveKind)
  | string8Small (bound : Nat)
  | string8Large (bound : Nat)
  | string16Small (bound : Nat)
  | string16Large (bound : Nat)
  | plainSequenceSmall (header : PlainCollectionHeader) (bound : Nat) (element : TypeIdentifier)
  | plainSequenceLarge (header : PlainCollectionHeader) (bound : Nat) (element : TypeIdentifier)
  | plainArraySmall (header : PlainCollectionHeader) (arrayBounds : List Nat)
      (element : TypeIdentifier)
  | plainArrayLarge (header : PlainCollectionHeader) (arrayBounds : List Nat)
      (element : TypeIdentifier)
  | plainMapSmall (header : PlainCollectionHeader) (bound : Nat) (element : TypeIdentifier)
      (keyFlags : UInt16) (key : TypeIdentifier)
  | plainMapLarge (header : PlainCollectionHeader) (bound : Nat) (element : TypeIdentifier)
      (keyFlags : UInt16) (key : TypeIdentifier)
  | stronglyConnectedComponent (scc : StronglyConnectedComponentId)
  | equivalenceHashMinimal (hash : EquivalenceHash)
  | equivalenceHashComplete (hash : EquivalenceHash)
  | extended (discriminator : Nat) (body : List UInt8)
deriving DecidableEq, Inhabited

namespace TypeIdentifier

/-- The identifiers a plain collection is made of, down to those that are no plain collection. -/
def leaves : TypeIdentifier → List TypeIdentifier
  | plainSequenceSmall _ _ element | plainSequenceLarge _ _ element
  | plainArraySmall _ _ element | plainArrayLarge _ _ element => element.leaves
  | plainMapSmall _ _ element _ key | plainMapLarge _ _ element _ key =>
    element.leaves ++ key.leaves
  | other => [other]

end TypeIdentifier

end ZeroDds.Types
