/-
Type objects in both forms.
-/
import ZeroDds.Types.TypeIdentifier

namespace ZeroDds.Types

def hasFlag (flags bit : UInt16) : Bool := flags &&& bit != 0

namespace TypeFlag

def isFinal : UInt16 := 1
def isAppendable : UInt16 := 2
def isMutable : UInt16 := 4
def ignoreLiteralNames : UInt16 := 32
def minimalMask : UInt16 := 0x0007

end TypeFlag

namespace MemberFlag

def tryConstruct1 : UInt16 := 1
def isOptional : UInt16 := 8
def isMustUnderstand : UInt16 := 16
def isKey : UInt16 := 32
def isDefault : UInt16 := 64
def minimalMask : UInt16 := 0x003f

end MemberFlag

def minimalMemberFlags (bits : UInt16) : UInt16 := bits &&& MemberFlag.minimalMask

def minimalUnionMemberFlags (bits : UInt16) : UInt16 :=
  bits &&& (MemberFlag.minimalMask ||| MemberFlag.isDefault)

def minimalTypeFlags (bits : UInt16) : UInt16 := bits &&& TypeFlag.minimalMask

/-! ### Parts of both forms -/

/-- The first four octets of the digest of a name, the first one the most significant. -/
abbrev NameHash := Fin (2 ^ 32)

abbrev MemberId := Nat

structure CommonStructMember where
  memberId : MemberId
  memberFlags : UInt16
  memberTypeId : TypeIdentifier
deriving DecidableEq

structure CommonUnionMember where
  memberId : MemberId
  memberFlags : UInt16
  typeId : TypeIdentifier
  labelSeq : List Int
deriving DecidableEq

structure CommonDiscriminatorMember where
  memberFlags : UInt16
  typeId : TypeIdentifier
deriving DecidableEq

structure CommonCollectionElement where
  elementFlags : UInt16
  typeId : TypeIdentifier
deriving DecidableEq

structure CommonEnumeratedLiteral where
  value : Int
  flags : UInt16
deriving DecidableEq

structure CommonBitflag where
  position : Nat
  flags : UInt16
deriving DecidableEq

structure CommonBitfield where
  position : Nat
  flags : UInt16
  bitcount : Nat
  holderType : Nat
deriving DecidableEq

structure CommonAnnotationParameter where
  memberFlags : UInt16
  memberTypeId : TypeIdentifier
deriving DecidableEq

inductive AnnotationParameterValue where
  | boolean (v : Bool)
  | byte (v : UInt8)
  | int8 (v : Int)
  | uint8 (v : UInt8)
  | int16 (v : Int)
  | uint16 (v : UInt16)
  | int32 (v : Int)
  | uint32 (v : UInt32)
  | int64 (v : Int)
  | uint64 (v : UInt64)
  | float32Bits (v : UInt32)
  | float64Bits (v : UInt64)
  | float128Bits (v : BitVec 128)
  | char8 (v : Char)
  | char16 (v : Char)
  | enum (v : Int)
  | string8 (v : String)
  | string16 (v : String)
  | extended (kind : UInt8) (body : List UInt8)
deriving DecidableEq

/-! ### The MINIMAL form -/

structure MinimalStructMember where
  common : CommonStructMember
  detail : NameHash
deriving DecidableEq

structure MinimalStructType where
  structFlags : UInt16
  baseType : TypeIdentifier
  memberSeq : List MinimalStructMember
deriving DecidableEq

structure MinimalUnionMember where
  common : CommonUnionMember
  detail : NameHash
deriving DecidableEq

structure MinimalUnionType where
  unionFlags : UInt16
  discriminator : CommonDiscriminatorMember
  memberSeq : List MinimalUnionMember
deriving DecidableEq

structure MinimalAliasType where
  aliasFlags : UInt16
  relatedFlags : UInt16
  relatedType : TypeIdentifier
deriving DecidableEq

structure MinimalAnnotationParameter where
  common : CommonAnnotationParameter
  nameHash : NameHash
  defaultValue : AnnotationParameterValue
deriving DecidableEq

structure MinimalAnnotationType where
  annotationFlag : UInt16
  memberSeq : List MinimalAnnotationParameter
deriving DecidableEq

structure MinimalBitfield where
  common : CommonBitfield
  nameHash : NameHash
deriving DecidableEq

structure MinimalBitsetType where
  bitsetFlags : UInt16
  fieldSeq : List MinimalBitfield
deriving DecidableEq

structure MinimalSequenceType where
  collectionFlag : UInt16
  bound : Nat
  element : CommonCollectionElement
deriving DecidableEq

structure MinimalArrayType where
  collectionFlag : UInt16
  boundSeq : List Nat
  element : CommonCollectionElement
deriving DecidableEq

structure MinimalMapType where
  collectionFlag : UInt16
  bound : Nat
  key : CommonCollectionElement
  element : CommonCollectionElement
deriving DecidableEq

structure MinimalEnumeratedLiteral where
  common : CommonEnumeratedLiteral
  detail : NameHash
deriving DecidableEq

structure MinimalEnumeratedType where
  enumFlags : UInt16
  bitBound : Nat
  literalSeq : List MinimalEnumeratedLiteral
deriving DecidableEq

structure MinimalBitflag where
  common : CommonBitflag
  detail : NameHash
deriving DecidableEq

structure MinimalBitmaskType where
  bitmaskFlags : UInt16
  bitBound : Nat
  flagSeq : List MinimalBitflag
deriving DecidableEq

inductive MinimalTypeObject where
  | aliasType (a : MinimalAliasType)
  | annotationType (a : MinimalAnnotationType)
  | struct (s : MinimalStructType)
  | union (u : MinimalUnionType)
  | bitset (b : MinimalBitsetType)
  | sequence (s : MinimalSequenceType)
  | array (a : MinimalArrayType)
  | map (m : MinimalMapType)
  | enumerated (e : MinimalEnumeratedType)
  | bitmask (b : MinimalBitmaskType)
  | extended (typeKind : Nat) (body : List UInt8)
deriving DecidableEq

/-! ### The COMPLETE form -/

inductive VerbatimPlacement where
  | beginFile | before | beginDeclaration | endDeclaration | after | endFile
  | other (text : String)
deriving DecidableEq

structure AppliedVerbatimAnnotation where
  placement : VerbatimPlacement
  language : String
  text : String
deriving DecidableEq

structure AppliedAnnotationParameter where
  paramnameHash : NameHash
  value : AnnotationParameterValue
deriving DecidableEq

structure AppliedAnnotation where
  annotationTypeid : TypeIdentifier
  paramSeq : List AppliedAnnotationParameter
deriving DecidableEq

abbrev OptionalAppliedAnnotationSeq := Option (List AppliedAnnotation)

structure CompleteTypeDetail where
  annBuiltin : Option AppliedVerbatimAnnotation
  annCustom : OptionalAppliedAnnotationSeq
  typeName : String
deriving DecidableEq

structure AppliedBuiltinMemberAnnotations where
  unit : Option String
  min : Option AnnotationParameterValue
  max : Option AnnotationParameterValue
  hashId : Option String
  defaultValue : Option String
deriving DecidableEq

structure CompleteMemberDetail where
  name : String
  annBuiltin : AppliedBuiltinMemberAnnotations
  annCustom : OptionalAppliedAnnotationSeq
deriving DecidableEq

structure CompleteStructMember where
  common : CommonStructMember
  detail : CompleteMemberDetail
deriving DecidableEq

structure CompleteStructType where
  structFlags : UInt16
  baseType : TypeIdentifier
  detail : CompleteTypeDetail
  memberSeq : List CompleteStructMember
deriving DecidableEq

structure CompleteDiscriminatorMember where
  common : CommonDiscriminatorMember
  annBuiltin : Option AppliedVerbatimAnnotation
  annCustom : OptionalAppliedAnnotationSeq
deriving DecidableEq

structure CompleteUnionMember where
  common : CommonUnionMember
  detail : CompleteMemberDetail
deriving DecidableEq

structure CompleteUnionType where
  unionFlags : UInt16
  detail : CompleteTypeDetail
  discriminator : CompleteDiscriminatorMember
  memberSeq : List CompleteUnionMember
deriving DecidableEq

structure CompleteAliasType where
  aliasFlags : UInt16
  detail : CompleteTypeDetail
  relatedFlags : UInt16
  relatedType : TypeIdentifier
  bodyAnnBuiltin : AppliedBuiltinMemberAnnotations
  bodyAnnCustom : OptionalAppliedAnnotationSeq
deriving DecidableEq

structure CompleteAnnotationParameter where
  common : CommonAnnotationParameter
  name : String
  defaultValue : AnnotationParameterValue
deriving DecidableEq

structure CompleteAnnotationType where
  annotationFlag : UInt16
  annotationName : String
  memberSeq : List CompleteAnnotationParameter
deriving DecidableEq

structure CompleteBitfield where
  common : CommonBitfield
  detail : CompleteMemberDetail
deriving DecidableEq

structure CompleteBitsetType where
  bitsetFlags : UInt16
  detail : CompleteTypeDetail
  fieldSeq : List CompleteBitfield
deriving DecidableEq

structure CompleteCollectionElement where
  common : CommonCollectionElement
  annBuiltin : AppliedBuiltinMemberAnnotations
  annCustom : OptionalAppliedAnnotationSeq
deriving DecidableEq

structure CompleteSequenceType where
  collectionFlag : UInt16
  bound : Nat
  detail : Option CompleteTypeDetail
  element : CompleteCollectionElement
deriving DecidableEq

structure CompleteArrayType where
  collectionFlag : UInt16
  boundSeq : List Nat
  detail : CompleteTypeDetail
  element : CompleteCollectionElement
deriving DecidableEq

structure CompleteMapType where
  collectionFlag : UInt16
  bound : Nat
  detail : Option CompleteTypeDetail
  key : CompleteCollectionElement
  element : CompleteCollectionElement
deriving DecidableEq

structure CompleteEnumeratedLiteral where
  common : CommonEnumeratedLiteral
  detail : CompleteMemberDetail
deriving DecidableEq

structure CompleteEnumeratedType where
  enumFlags : UInt16
  bitBound : Nat
  detail : CompleteTypeDetail
  literalSeq : List CompleteEnumeratedLiteral
deriving DecidableEq

structure CompleteBitflag where
  common : CommonBitflag
  detail : CompleteMemberDetail
deriving DecidableEq

structure CompleteBitmaskType where
  bitmaskFlags : UInt16
  bitBound : Nat
  detail : CompleteTypeDetail
  flagSeq : List CompleteBitflag
deriving DecidableEq

inductive CompleteTypeObject where
  | aliasType (a : CompleteAliasType)
  | annotationType (a : CompleteAnnotationType)
  | struct (s : CompleteStructType)
  | union (u : CompleteUnionType)
  | bitset (b : CompleteBitsetType)
  | sequence (s : CompleteSequenceType)
  | array (a : CompleteArrayType)
  | map (m : CompleteMapType)
  | enumerated (e : CompleteEnumeratedType)
  | bitmask (b : CompleteBitmaskType)
  | extended (typeKind : Nat) (body : List UInt8)
deriving DecidableEq

inductive TypeObject where
  | minimal (m : MinimalTypeObject)
  | complete (c : CompleteTypeObject)
deriving DecidableEq

/-- The digests over names and over serialised objects.  An object whose serialisation fails has
no hash; `trailingOctet` is the reading of two vendors, one octet more after each member of a
MINIMAL aggregate. -/
class Digests where
  nameHash : String → NameHash
  computeMinimalHashWith : MinimalTypeObject → (trailingOctet : Bool) → Option EquivalenceHash
  computeCompleteHash : CompleteTypeObject → Option EquivalenceHash

def computeHash [Digests] : TypeObject → Option EquivalenceHash
  | .minimal m => Digests.computeMinimalHashWith m false
  | .complete c => Digests.computeCompleteHash c

end ZeroDds.Types
