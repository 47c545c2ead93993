/-
In-line QoS.
-/
import ZeroDds.Rtps.WireTypes

namespace ZeroDds.Rtps

def mustUnderstandBit : UInt16 := 0x4000

def vendorSpecificBit : UInt16 := 0x8000

namespace Pid

def ownershipStrength : UInt16 := 0x0006
def lifespan : UInt16 := 0x002b
def coherentSet : UInt16 := 0x0056
def directedWrite : UInt16 := 0x0057
def originalWriterInfo : UInt16 := 0x0061
def groupCoherentSet : UInt16 := 0x0063
def groupSeqNum : UInt16 := 0x0064
def writerGroupInfo : UInt16 := 0x0065
def secureWriterGroupInfo : UInt16 := 0x0066
def keyHash : UInt16 := 0x0070
def statusInfo : UInt16 := 0x0071
def relatedSampleIdentity : UInt16 := 0x0083
def eprosimaRelatedSampleIdentity : UInt16 := 0x800f

end Pid

structure Parameter where
  id : UInt16
  value : Octets
  deriving DecidableEq

namespace Parameter

def masked (p : Parameter) : UInt16 := p.id &&& ~~~(mustUnderstandBit ||| vendorSpecificBit)

end Parameter

def paddedTo4 (len : Nat) : Nat := (len + 3) / 4 * 4

structure ParameterList where
  parameters : List Parameter
  littleEndian : Bool
  deriving DecidableEq

namespace ParameterList

def withByteOrder (littleEndian : Bool) : ParameterList := ⟨[], littleEndian⟩

def new : ParameterList := withByteOrder true

/-- Octets on the wire: a four-octet header and the padded value for each
parameter, then the sentinel. -/
def wireLen (pl : ParameterList) : Nat :=
  (pl.parameters.map fun p => 4 + paddedTo4 p.value.length).sum + 4

def push (pl : ParameterList) (p : Parameter) : ParameterList :=
  { pl with parameters := pl.parameters ++ [p] }

def find (pl : ParameterList) (id : UInt16) : Option Parameter :=
  pl.parameters.find? fun p => p.id = id

end ParameterList

structure SampleIdentityBytes where
  writerGuid : Octets
  sequenceNumber : Nat
  deriving DecidableEq

namespace SampleIdentityBytes

def fromBytes (b : Octets) (littleEndian : Bool) : Except WireError SampleIdentityBytes :=
  if b.length < 24 then .error (.unexpectedEof 24 0)
  else
    .ok ⟨b.take 16,
      (sequenceNumberOfBytes littleEndian (b.drop 16) % 18446744073709551616).toNat⟩

end SampleIdentityBytes

structure QosDuration where
  seconds : Int
  fraction : Nat
  deriving DecidableEq

def decodeDuration (b : Octets) (littleEndian : Bool) : Option QosDuration :=
  if b.length < 8 then none
  else some ⟨i32OfBytes littleEndian b, u32OfBytes littleEndian (b.drop 4)⟩

structure InlineQosOverride where
  ownershipStrength : Option Int
  lifespan : Option QosDuration
  deriving DecidableEq

structure ChangeGroupInfo where
  gsn : Int
  writerSet : GroupDigest
  coherentSetGsn : Option Int
  deriving DecidableEq

namespace InlineQosOverride

def default : InlineQosOverride := ⟨none, none⟩

def of : Option ParameterList → InlineQosOverride
  | none => default
  | some pl =>
    { ownershipStrength := (pl.find Pid.ownershipStrength).bind fun p =>
        if p.value.length = 4 then some (i32OfBytes pl.littleEndian p.value) else none
      lifespan := (pl.find Pid.lifespan).bind fun p => decodeDuration p.value pl.littleEndian }

end InlineQosOverride

namespace InlineQos

def disposed : Nat := 1
def unregistered : Nat := 2
def filtered : Nat := 4

def statusInfoParam (bits : Nat) : Parameter := ⟨Pid.statusInfo, u32ToBytes false bits⟩

variable (pl : ParameterList)

def findStatusInfo : Option Nat :=
  (pl.find Pid.statusInfo).bind fun p =>
    if p.value.length = 4 then some (u32OfBytes false p.value) else none

def findKeyHash : Option KeyHash :=
  (pl.find Pid.keyHash).bind fun p =>
    if h : p.value.length = 16 then some ⟨p.value.toArray, by simpa using h⟩ else none

def lifecycleInlineQosStatusOnly (statusBits : Nat) : ParameterList :=
  ParameterList.new.push (statusInfoParam statusBits)

def lifecycleInlineQos (keyHash : KeyHash) (statusBits : Nat) : ParameterList :=
  (ParameterList.new.push ⟨Pid.keyHash, keyHash.toList⟩).push (statusInfoParam statusBits)

/-- A parameter whose value is a `SequenceNumber_t`: `PID_COHERENT_SET`,
`PID_GROUP_COHERENT_SET` and `PID_GROUP_SEQ_NUM`. -/
def sequenceNumberParam (id : UInt16) (sn : Int) (littleEndian : Bool) : Parameter :=
  ⟨id, sequenceNumberToBytes littleEndian sn⟩

def coherentSetParam (setFirstSn : Int) (littleEndian : Bool) : Parameter :=
  sequenceNumberParam Pid.coherentSet setFirstSn littleEndian

def groupCoherentSetParam (groupFirstGsn : Int) (littleEndian : Bool) : Parameter :=
  sequenceNumberParam Pid.groupCoherentSet groupFirstGsn littleEndian

def groupSeqNumParam (gsn : Int) (littleEndian : Bool) : Parameter :=
  sequenceNumberParam Pid.groupSeqNum gsn littleEndian

variable (littleEndian : Bool)

/-- `PID_COHERENT_SET`: the first parameter of that id decides, also when its
value is too short; SEQUENCENUMBER_UNKNOWN names no set. -/
def findCoherentSet : Option Int :=
  (pl.parameters.find? fun p => p.masked = Pid.coherentSet).bind fun p =>
    if p.value.length < 8 then none
    else
      let sn := sequenceNumberOfBytes littleEndian p.value
      if sn = sequenceNumberUnknown then none else some sn

def coherentSetInlineQos (setFirstSn : Int) (littleEndian : Bool) : ParameterList :=
  (ParameterList.withByteOrder littleEndian).push (coherentSetParam setFirstSn littleEndian)

def findSequenceNumber (id : UInt16) (littleEndian : Bool) : Option Int :=
  (pl.parameters.find? fun p => p.masked = id ∧ 8 ≤ p.value.length).map fun p =>
    sequenceNumberOfBytes littleEndian p.value

def findGroupCoherentSet : Option Int :=
  findSequenceNumber pl Pid.groupCoherentSet littleEndian

def findGroupSeqNum : Option Int :=
  findSequenceNumber pl Pid.groupSeqNum littleEndian

def writerGroupInfoParam (writerSet : GroupDigest) : Parameter :=
  ⟨Pid.writerGroupInfo, writerSet.octets.toList⟩

def secureWriterGroupInfoParam (writerSet : GroupDigest) : Parameter :=
  ⟨Pid.secureWriterGroupInfo, writerSet.octets.toList⟩

def findWriterGroupInfo : Option GroupDigest :=
  let find := fun id =>
    (pl.parameters.find? fun p => p.masked = id).bind fun p => GroupDigest.readFrom p.value
  (find Pid.writerGroupInfo).or (find Pid.secureWriterGroupInfo)

def findChangeGroupInfo : Option ChangeGroupInfo :=
  (findGroupSeqNum pl pl.littleEndian).map fun gsn =>
    { gsn := gsn
      writerSet := (findWriterGroupInfo pl).getD GroupDigest.empty
      coherentSetGsn := findGroupCoherentSet pl pl.littleEndian }

def originalWriterInfoParam (originalGuid : Octets) (originalSn : Int) (littleEndian : Bool) :
    Parameter :=
  ⟨Pid.originalWriterInfo, originalGuid ++ sequenceNumberToBytes littleEndian originalSn⟩

def findOriginalWriterInfo : Except WireError (Option (Octets × Int)) :=
  match pl.parameters.find? fun p => p.masked = Pid.originalWriterInfo with
  | none => .ok none
  | some p =>
    if p.value.length < 24 then .error (.unexpectedEof 24 0)
    else .ok (some (p.value.take 16, sequenceNumberOfBytes littleEndian (p.value.drop 16)))

/-- Whether a sample is addressed to the reader, or to no reader in particular.
One `PID_DIRECTED_WRITE` per target. -/
def directedWriteAccepts (ownReaderGuid : Octets) : Except WireError Bool :=
  go pl.parameters false
where
  go : List Parameter → Bool → Except WireError Bool
    | [], directed => .ok !directed
    | p :: rest, directed =>
      if p.masked ≠ Pid.directedWrite then go rest directed
      else if p.value.length < 16 then .error (.unexpectedEof 16 0)
      else if p.value.take 16 = ownReaderGuid then .ok true
      else go rest true

def findRelatedSampleIdentity : Except WireError (Option SampleIdentityBytes) :=
  match pl.parameters.find? fun p => p.id &&& ~~~mustUnderstandBit = Pid.relatedSampleIdentity with
  | none => .ok none
  | some p => (SampleIdentityBytes.fromBytes p.value littleEndian).map some

def findEprosimaRelatedSampleIdentity : Option SampleIdentityBytes :=
  (pl.parameters.find? fun p => p.id = Pid.eprosimaRelatedSampleIdentity).bind fun p =>
    (SampleIdentityBytes.fromBytes p.value littleEndian).toOption

end InlineQos
end ZeroDds.Rtps
