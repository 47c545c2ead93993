/-
The registry of known type objects.
-/
import ZeroDds.Lib.SortedMap
import ZeroDds.Types.TypeObject

namespace ZeroDds.Types

inductive ResolveError where
  | depthExceeded (limit : Nat)
  | nodeLimitExceeded (limit : Nat)
  | unknown (hash : EquivalenceHash)
  | cycle
  | unsupportedComponentReference
  | unsupportedReference
deriving DecidableEq

structure TypeRegistry where
  minimals : SortedMap EquivalenceHash MinimalTypeObject
  completes : SortedMap EquivalenceHash CompleteTypeObject
  components : SortedMap EquivalenceHash (List CompleteTypeObject)
  minimalComponents : SortedMap EquivalenceHash (List MinimalTypeObject)
  minimalComponentOf : SortedMap EquivalenceHash EquivalenceHash
  minimalMemberTrailingOctet : Bool
  generation : UInt64

namespace TypeRegistry

def new : TypeRegistry := ⟨.empty, .empty, .empty, .empty, .empty, false, 0⟩

variable (reg : TypeRegistry) (hash : EquivalenceHash)

def insertMinimal (t : MinimalTypeObject) : TypeRegistry :=
  { reg with minimals := reg.minimals.insert hash t, generation := reg.generation + 1 }

def insertComplete (t : CompleteTypeObject) : TypeRegistry :=
  { reg with completes := reg.completes.insert hash t, generation := reg.generation + 1 }

def insertComponent (members : List CompleteTypeObject) : TypeRegistry :=
  { reg with components := reg.components.insert hash members, generation := reg.generation + 1 }

def insertMinimalComponent (completeHash minimalHash : EquivalenceHash)
    (members : List MinimalTypeObject) : TypeRegistry :=
  { reg with
    minimalComponents := reg.minimalComponents.insert minimalHash members
    minimalComponentOf := reg.minimalComponentOf.insert completeHash minimalHash
    generation := reg.generation + 1 }

/-- Under the hash of its own serialisation; an object that does not serialise is not filed. -/
def insertObject [Digests] (object : TypeObject) : Option EquivalenceHash × TypeRegistry :=
  match computeHash object with
  | none => (none, reg)
  | some hash =>
    match object with
    | .minimal m => (some hash, reg.insertMinimal hash m)
    | .complete c => (some hash, reg.insertComplete hash c)

def getMinimal : Option MinimalTypeObject := reg.minimals.get? hash

def getComplete : Option CompleteTypeObject := reg.completes.get? hash

def minimalComponentHash : Option EquivalenceHash :=
  reg.minimalComponentOf.get? hash

def componentMinimalMember (scc : StronglyConnectedComponentId) : Option MinimalTypeObject :=
  if scc.sccIndex < 1 then none
  else
    let minimalHash :=
      if scc.equivalenceKind = EquivalenceKind.complete then reg.minimalComponentOf.get? scc.hash
      else some scc.hash
    minimalHash.bind fun hash =>
      (reg.minimalComponents.get? hash).bind fun members => members[(scc.sccIndex - 1).toNat]?

def holdsComponent (scc : StronglyConnectedComponentId) : Bool :=
  if scc.equivalenceKind = EquivalenceKind.complete then
    reg.components.contains scc.hash &&
      (reg.minimalComponentOf.get? scc.hash).any reg.minimalComponents.contains
  else reg.minimalComponents.contains scc.hash

def aliasTarget (current : TypeIdentifier) : Except ResolveError (Option TypeIdentifier) :=
  match current with
  | .equivalenceHashMinimal hash =>
    match reg.getMinimal hash with
    | some (.aliasType a) => .ok (some a.relatedType)
    | some _ => .ok none
    | none => .error (.unknown hash)
  | .equivalenceHashComplete hash =>
    match reg.getComplete hash with
    | some (.aliasType a) => .ok (some a.relatedType)
    | some _ => .ok none
    | none => .error (.unknown hash)
  | _ => .ok none

variable {reg}

theorem aliasTarget_cases {ti target : TypeIdentifier}
    (h : reg.aliasTarget ti = .ok (some target)) :
    (∃ hash a, ti = .equivalenceHashMinimal hash ∧ reg.getMinimal hash = some (.aliasType a) ∧
      target = a.relatedType) ∨
    ∃ hash a, ti = .equivalenceHashComplete hash ∧ reg.getComplete hash = some (.aliasType a) ∧
      target = a.relatedType := by
  cases ti with
  | equivalenceHashMinimal hash =>
    simp only [aliasTarget] at h
    cases hget : reg.getMinimal hash with
    | none => simp [hget] at h
    | some o =>
      cases o <;> simp only [hget, Except.ok.injEq, Option.some.injEq, reduceCtorEq] at h
      next a => exact Or.inl ⟨hash, a, rfl, hget, h.symm⟩
  | equivalenceHashComplete hash =>
    simp only [aliasTarget] at h
    cases hget : reg.getComplete hash with
    | none => simp [hget] at h
    | some c =>
      cases c <;> simp only [hget, Except.ok.injEq, Option.some.injEq, reduceCtorEq] at h
      next a => exact Or.inr ⟨hash, a, rfl, hget, h.symm⟩
  | _ => cases h

end TypeRegistry

def TypeIdentifier.hash? : TypeIdentifier → Option EquivalenceHash
  | .equivalenceHashMinimal h | .equivalenceHashComplete h => some h
  | _ => .none

def resolveAliasLoop (reg : TypeRegistry) (limit : Nat) :
    Nat → TypeIdentifier → List EquivalenceHash → Except ResolveError TypeIdentifier
  | 0, _, _ => .error (.depthExceeded limit)
  | rounds + 1, current, visited =>
    match current.hash? with
    | none => .ok current
    | some hash =>
      if visited.contains hash then .error .cycle
      else
        match reg.aliasTarget current with
        | .error e => .error e
        | .ok none => .ok current
        | .ok (some target) => resolveAliasLoop reg limit rounds target (hash :: visited)

theorem resolveAliasLoop_closed {reg : TypeRegistry} {P : TypeIdentifier → Prop}
    (hclosed : ∀ ti target, P ti → reg.aliasTarget ti = .ok (some target) → P target)
    {limit rounds : Nat} {visited : List EquivalenceHash} {ti ti' : TypeIdentifier} (hti : P ti)
    (h : resolveAliasLoop reg limit rounds ti visited = .ok ti') : P ti' := by
  induction rounds generalizing ti visited with
  | zero => cases h
  | succ rounds ih =>
    rw [resolveAliasLoop] at h
    cases hhash : ti.hash? with
    | none =>
      simp only [hhash, Except.ok.injEq] at h
      exact h ▸ hti
    | some hash =>
      simp only [hhash] at h
      split at h
      · cases h
      · cases htarget : reg.aliasTarget ti with
        | error e => simp [htarget] at h
        | ok target =>
          cases target with
          | none =>
            simp only [htarget, Except.ok.injEq] at h
            exact h ▸ hti
          | some target =>
            simp only [htarget] at h
            exact ih (hclosed ti target hti htarget) h

def resolveAliasChain (start : TypeIdentifier) (reg : TypeRegistry) (maxDepth : Nat) :
    Except ResolveError TypeIdentifier :=
  resolveAliasLoop reg maxDepth maxDepth start []

end ZeroDds.Types
