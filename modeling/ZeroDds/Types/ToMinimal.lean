/-
Projection of a COMPLETE type object onto its MINIMAL form.
-/
import ZeroDds.Types.TypeRegistry

namespace ZeroDds.Types

inductive ToMinimalError where
  | unresolvedDependency (hash : EquivalenceHash)
  | stronglyConnectedComponent
  | unknownIdentifier (discriminator : Nat)
  | extendedTypeKind (typeKind : Nat)
  | tooDeep
  | hash
deriving DecidableEq

def maxDependencyDepth : Nat := 64

def elementEquivKind (source : Nat) (projected : TypeIdentifier) : Nat :=
  match projected with
  | .equivalenceHashMinimal _ => EquivalenceKind.minimal
  | _ => if source = EquivalenceKind.complete then EquivalenceKind.both else source

def PlainCollectionHeader.projected (header : PlainCollectionHeader) (element : TypeIdentifier) :
    PlainCollectionHeader :=
  ⟨elementEquivKind header.equivKind element, header.elementFlags⟩

def orderedByNameHash (parameters : List MinimalAnnotationParameter) :
    List MinimalAnnotationParameter :=
  parameters.insertionSort fun a b => a.nameHash ≤ b.nameHash

section

variable [Digests] (minimalId : TypeIdentifier → Except ToMinimalError TypeIdentifier)

/-! ### The kinds of objects

`minimalId` projects the identifiers an object names. -/

def minimalAlias (a : CompleteAliasType) : Except ToMinimalError MinimalAliasType := do
  let relatedType ← minimalId a.relatedType
  return ⟨a.aliasFlags, a.relatedFlags, relatedType⟩

def minimalAnnotationParameter (p : CompleteAnnotationParameter) :
    Except ToMinimalError MinimalAnnotationParameter := do
  let memberTypeId ← minimalId p.common.memberTypeId
  return ⟨⟨minimalMemberFlags p.common.memberFlags, memberTypeId⟩, Digests.nameHash p.name,
    p.defaultValue⟩

def minimalAnnotation (a : CompleteAnnotationType) :
    Except ToMinimalError MinimalAnnotationType := do
  let memberSeq ← a.memberSeq.mapM (minimalAnnotationParameter minimalId)
  return ⟨a.annotationFlag, orderedByNameHash memberSeq⟩

def minimalStructMember (m : CompleteStructMember) : Except ToMinimalError MinimalStructMember := do
  let memberTypeId ← minimalId m.common.memberTypeId
  return ⟨⟨m.common.memberId, minimalMemberFlags m.common.memberFlags, memberTypeId⟩,
    Digests.nameHash m.detail.name⟩

def minimalStruct (s : CompleteStructType) : Except ToMinimalError MinimalStructType := do
  let memberSeq ← s.memberSeq.mapM (minimalStructMember minimalId)
  let baseType ← minimalId s.baseType
  return ⟨minimalTypeFlags s.structFlags, baseType, memberSeq⟩

def minimalUnionMember (m : CompleteUnionMember) : Except ToMinimalError MinimalUnionMember := do
  let typeId ← minimalId m.common.typeId
  return ⟨⟨m.common.memberId, minimalUnionMemberFlags m.common.memberFlags, typeId,
    m.common.labelSeq⟩, Digests.nameHash m.detail.name⟩

def minimalUnion (u : CompleteUnionType) : Except ToMinimalError MinimalUnionType := do
  let typeId ← minimalId u.discriminator.common.typeId
  let memberSeq ← u.memberSeq.mapM (minimalUnionMember minimalId)
  return ⟨minimalTypeFlags u.unionFlags,
    ⟨minimalMemberFlags u.discriminator.common.memberFlags, typeId⟩, memberSeq⟩

def minimalBitset (b : CompleteBitsetType) : MinimalBitsetType :=
  ⟨b.bitsetFlags, b.fieldSeq.map fun f => ⟨f.common, Digests.nameHash f.detail.name⟩⟩

def minimalElement (e : CompleteCollectionElement) :
    Except ToMinimalError CommonCollectionElement := do
  let typeId ← minimalId e.common.typeId
  return ⟨e.common.elementFlags, typeId⟩

def minimalSequence (s : CompleteSequenceType) : Except ToMinimalError MinimalSequenceType := do
  let element ← minimalElement minimalId s.element
  return ⟨s.collectionFlag, s.bound, element⟩

def minimalArray (a : CompleteArrayType) : Except ToMinimalError MinimalArrayType := do
  let element ← minimalElement minimalId a.element
  return ⟨a.collectionFlag, a.boundSeq, element⟩

def minimalMap (m : CompleteMapType) : Except ToMinimalError MinimalMapType := do
  let key ← minimalElement minimalId m.key
  let element ← minimalElement minimalId m.element
  return ⟨m.collectionFlag, m.bound, key, element⟩

def minimalEnumerated (e : CompleteEnumeratedType) : MinimalEnumeratedType :=
  ⟨e.enumFlags, e.bitBound, e.literalSeq.map fun l => ⟨l.common, Digests.nameHash l.detail.name⟩⟩

def minimalBitmask (b : CompleteBitmaskType) : MinimalBitmaskType :=
  ⟨b.bitmaskFlags, b.bitBound, b.flagSeq.map fun f => ⟨f.common, Digests.nameHash f.detail.name⟩⟩

def CompleteTypeObject.toMinimalWith :
    CompleteTypeObject → Except ToMinimalError MinimalTypeObject
  | .aliasType a => .aliasType <$> minimalAlias minimalId a
  | .annotationType a => .annotationType <$> minimalAnnotation minimalId a
  | .struct s => .struct <$> minimalStruct minimalId s
  | .union u => .union <$> minimalUnion minimalId u
  | .bitset b => .ok (.bitset (minimalBitset b))
  | .sequence s => .sequence <$> minimalSequence minimalId s
  | .array a => .array <$> minimalArray minimalId a
  | .map m => .map <$> minimalMap minimalId m
  | .enumerated e => .ok (.enumerated (minimalEnumerated e))
  | .bitmask b => .ok (.bitmask (minimalBitmask b))
  | .extended typeKind _ => .error (.extendedTypeKind typeKind)

omit [Digests] in
/-- The plain identifier of a COMPLETE collection, which is an object of its own only for the
annotations of its element. -/
def plainCollection : CompleteTypeObject → Except ToMinimalError (Option TypeIdentifier)
  | .sequence s => do
    let element ← minimalId s.element.common.typeId
    let header : PlainCollectionHeader :=
      ⟨elementEquivKind EquivalenceKind.complete element, s.element.common.elementFlags⟩
    if s.bound ≤ 255 then return some (.plainSequenceSmall header s.bound element)
    else return some (.plainSequenceLarge header s.bound element)
  | .array a => do
    let element ← minimalId a.element.common.typeId
    let header : PlainCollectionHeader :=
      ⟨elementEquivKind EquivalenceKind.complete element, a.element.common.elementFlags⟩
    if a.boundSeq.all (· ≤ 255) then return some (.plainArraySmall header a.boundSeq element)
    else return some (.plainArrayLarge header a.boundSeq element)
  | .map m => do
    let element ← minimalId m.element.common.typeId
    let key ← minimalId m.key.common.typeId
    let header : PlainCollectionHeader :=
      ⟨elementEquivKind EquivalenceKind.complete element, m.element.common.elementFlags⟩
    if m.bound ≤ 255 then
      return some (.plainMapSmall header m.bound element m.key.common.elementFlags key)
    else return some (.plainMapLarge header m.bound element m.key.common.elementFlags key)
  | _ => .ok none

end

section

variable [Digests] (reg : TypeRegistry)

def minimalIdentifierAt : Nat → TypeIdentifier → Except ToMinimalError TypeIdentifier
  | 0, _ => .error .tooDeep
  | left + 1, id =>
    match id with
    | .none | .primitive _ | .string8Small _ | .string8Large _ | .string16Small _
    | .string16Large _ | .equivalenceHashMinimal _ => .ok id
    | .plainSequenceSmall header bound element => do
      let element ← minimalIdentifierAt left element
      return .plainSequenceSmall (header.projected element) bound element
    | .plainSequenceLarge header bound element => do
      let element ← minimalIdentifierAt left element
      return .plainSequenceLarge (header.projected element) bound element
    | .plainArraySmall header arrayBounds element => do
      let element ← minimalIdentifierAt left element
      return .plainArraySmall (header.projected element) arrayBounds element
    | .plainArrayLarge header arrayBounds element => do
      let element ← minimalIdentifierAt left element
      return .plainArrayLarge (header.projected element) arrayBounds element
    | .plainMapSmall header bound element keyFlags key => do
      let element ← minimalIdentifierAt left element
      let key ← minimalIdentifierAt left key
      return .plainMapSmall (header.projected element) bound element keyFlags key
    | .plainMapLarge header bound element keyFlags key => do
      let element ← minimalIdentifierAt left element
      let key ← minimalIdentifierAt left key
      return .plainMapLarge (header.projected element) bound element keyFlags key
    | .equivalenceHashComplete hash =>
      match reg.getComplete hash with
      | none => .error (.unresolvedDependency hash)
      | some complete => do
        match ← plainCollection (minimalIdentifierAt left) complete with
        | some plain => return plain
        | none =>
          -- The object is one level down, its members two.
          let minimal ← match left with
            | 0 => .error .tooDeep
            | below + 1 => complete.toMinimalWith (minimalIdentifierAt below)
          match Digests.computeMinimalHashWith minimal reg.minimalMemberTrailingOctet with
          | none => .error .hash
          | some minimalHash => return .equivalenceHashMinimal minimalHash
    | .stronglyConnectedComponent scc =>
      if scc.equivalenceKind ≠ EquivalenceKind.complete then .ok id
      else
        match reg.minimalComponentHash scc.hash with
        | none => .error .stronglyConnectedComponent
        | some minimalHash =>
          .ok (.stronglyConnectedComponent
            ⟨EquivalenceKind.minimal, minimalHash, scc.sccLength, scc.sccIndex⟩)
    | .extended discriminator _ => .error (.unknownIdentifier discriminator)

def minimalIdentifier (id : TypeIdentifier) : Except ToMinimalError TypeIdentifier :=
  minimalIdentifierAt reg (maxDependencyDepth + 1) id

def CompleteTypeObject.toMinimal (object : CompleteTypeObject) :
    Except ToMinimalError MinimalTypeObject :=
  object.toMinimalWith (minimalIdentifierAt reg maxDependencyDepth)

end

end ZeroDds.Types
