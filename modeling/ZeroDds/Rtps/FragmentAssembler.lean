/-
Fragment reassembly.

One buffer for each sample in flight.
-/
import Mathlib.Order.Interval.Finset.Nat
import ZeroDds.Lib.SortedMap
import ZeroDds.Rtps.Submessages

namespace ZeroDds.Rtps

structure CompletedSample where
  keyHash : Option KeyHash
  inlineQos : Option ParameterList
  sequenceNumber : Int
  payload : Octets
  keyFlag : Bool
  deriving DecidableEq

structure AssemblerCaps where
  maxPendingSns : Nat
  maxSampleBytes : Nat
  maxFragmentSize : Nat
  deriving DecidableEq

namespace AssemblerCaps

def default : AssemblerCaps := ⟨64, 1024 * 1024, u16Max⟩

end AssemblerCaps

def divCeil (a b : Nat) : Nat := (a + b - 1) / b

structure FragmentBuffer where
  keyHash : Option KeyHash
  inlineQos : Option ParameterList
  keyFlag : Bool
  sampleSize : Nat
  fragmentSize : Nat
  totalFragments : Nat
  received : Finset Nat
  data : Octets
  deriving DecidableEq

inductive DropReason where
  | sampleTooLarge
  | fragmentSizeInvalid
  | fragmentIndexZero
  | fragmentIndexOutOfRange
  | payloadSizeMismatch
  | inconsistentWithBuffered
  | fragmentsInSubmessageInvalid
  | pendingSnsCapExceeded
  | assemblerDisabled
  deriving DecidableEq

namespace DataFragSubmessage

/-- The number of the last fragment of the bundle, `u32::MAX` where it does not
fit. -/
def lastFrag (df : DataFragSubmessage) : Nat :=
  let n := df.fragmentStartingNum + (df.fragmentsInSubmessage - 1)
  if n ≤ u32Max then n else u32Max

def covers (df : DataFragSubmessage) : Finset Nat :=
  Finset.Ico df.fragmentStartingNum (df.fragmentStartingNum + df.fragmentsInSubmessage)

end DataFragSubmessage

namespace FragmentBuffer

def new (sampleSize fragmentSize : Nat) : FragmentBuffer where
  keyHash := none
  inlineQos := none
  keyFlag := false
  sampleSize := sampleSize
  fragmentSize := fragmentSize
  totalFragments := if fragmentSize = 0 then 0 else divCeil sampleSize fragmentSize
  received := ∅
  data := List.replicate sampleSize 0

variable (b : FragmentBuffer)

def isComplete : Bool :=
  0 < b.totalFragments && b.received.card = b.totalFragments

def missingNums : List Nat :=
  (List.range' 1 b.totalFragments).filter fun f => f ∉ b.received

def missing : FragmentNumberSet :=
  if b.totalFragments = 0 then FragmentNumberSet.fromMissing 1 []
  else
    FragmentNumberSet.fromMissing
      (b.missingNums.head?.getD (min (b.totalFragments + 1) u32Max)) b.missingNums

variable (df : DataFragSubmessage)

def tailSize : Nat :=
  if min df.lastFrag b.totalFragments = b.totalFragments then
    b.sampleSize - (b.totalFragments - 1) * b.fragmentSize
  else b.fragmentSize

def expectedLen : Nat :=
  (df.fragmentsInSubmessage - 1) * b.fragmentSize + b.tailSize df

def payloadFits : Bool :=
  b.expectedLen df ≤ df.serializedPayload.length &&
    (min df.lastFrag b.totalFragments = b.totalFragments ||
      df.serializedPayload.length = b.expectedLen df)

def overwrite (data : Octets) (start : Nat) (chunk : Octets) : Octets :=
  data.take start ++ chunk ++ data.drop (start + chunk.length)

/-- The bundle's in-line QoS noted on the buffer: the first fragment's wins, else
the first that came. -/
def noteInlineQos : FragmentBuffer :=
  { b with
    keyHash := ((df.inlineQos.bind InlineQos.findKeyHash).or b.keyHash)
    inlineQos :=
      if df.inlineQos.isSome ∧ (df.fragmentStartingNum = 1 ∨ b.inlineQos.isNone) then df.inlineQos
      else b.inlineQos
    keyFlag := b.keyFlag || df.keyFlag }

/-- Feeds a bundle into its buffer; the second component is why it was dropped,
if it was. -/
def accept : FragmentBuffer × Option DropReason :=
  if !b.payloadFits df then (b, some .payloadSizeMismatch)
  else if (df.inlineQos.bind InlineQos.findKeyHash).any fun key =>
      b.keyHash.any fun previous => previous ≠ key then
    (b, some .inconsistentWithBuffered)
  else
    let b' := b.noteInlineQos df
    let byteStart := (df.fragmentStartingNum - 1) * b.fragmentSize
    if byteStart + b.expectedLen df > b.data.length then (b', some .payloadSizeMismatch)
    else
      ({ b' with
          data := overwrite b.data byteStart (df.serializedPayload.take (b.expectedLen df))
          received := b.received ∪ df.covers }, none)

end FragmentBuffer

structure FragmentAssembler where
  buffers : SortedMap Int FragmentBuffer
  caps : AssemblerCaps
  dropCount : Nat
  lastDropReason : Option DropReason
  deriving DecidableEq

namespace FragmentAssembler

def new (caps : AssemblerCaps) : FragmentAssembler := ⟨SortedMap.empty, caps, 0, none⟩

variable (a : FragmentAssembler)

def recordDrop (reason : DropReason) : FragmentAssembler :=
  { a with
    dropCount := if a.dropCount < 18446744073709551615 then a.dropCount + 1 else a.dropCount
    lastDropReason := some reason }

def hasGaps : Bool := a.buffers.values.any fun b => !b.isComplete

def incompleteSns : List Int :=
  (a.buffers.entries.filter fun e => !e.2.isComplete).map Prod.fst

def missingFragments (sn : Int) : FragmentNumberSet :=
  match a.buffers.get? sn with
  | some b => b.missing
  | none => FragmentNumberSet.fromMissing 1 []

def discard (sn : Int) : FragmentAssembler :=
  { a with buffers := a.buffers.erase sn }

def gate (caps : AssemblerCaps) (df : DataFragSubmessage) : Option DropReason :=
  if df.fragmentSize = 0 ∨ df.fragmentSize > caps.maxFragmentSize then some .fragmentSizeInvalid
  else if df.fragmentsInSubmessage = 0 then some .fragmentsInSubmessageInvalid
  else if df.sampleSize > caps.maxSampleBytes then some .sampleTooLarge
  else if df.fragmentStartingNum = 0 then some .fragmentIndexZero
  else if df.lastFrag > divCeil df.sampleSize df.fragmentSize then some .fragmentIndexOutOfRange
  else none

/-- Room for the number: the lowest one in flight goes when there are too many.
`none` when no number may enter at all. -/
def makeRoom (sn : Int) : Option FragmentAssembler :=
  if ¬a.buffers.contains sn ∧ a.buffers.size ≥ a.caps.maxPendingSns then
    a.buffers.minKey?.map fun oldest =>
      { a with buffers := a.buffers.erase oldest }.recordDrop .pendingSnsCapExceeded
  else some a

/-- The buffer a bundle goes into, a fresh one for a new number; `none` when it
contradicts the one in flight. -/
def bufferFor (df : DataFragSubmessage) : Option FragmentBuffer :=
  match a.buffers.get? df.writerSn with
  | some b =>
    if b.sampleSize ≠ df.sampleSize ∨ b.fragmentSize ≠ df.fragmentSize then none else some b
  | none => some (FragmentBuffer.new df.sampleSize df.fragmentSize)

def insert (a : FragmentAssembler) (df : DataFragSubmessage) :
    FragmentAssembler × Option CompletedSample :=
  match gate a.caps df with
  | some reason => (a.recordDrop reason, none)
  | none =>
    match a.makeRoom df.writerSn with
    | none => (a.recordDrop .assemblerDisabled, none)
    | some a =>
      match a.bufferFor df with
      | none => (a.recordDrop .inconsistentWithBuffered, none)
      | some b =>
        match b.accept df with
        | (b, some reason) =>
          ({ a with buffers := a.buffers.insert df.writerSn b }.recordDrop reason, none)
        | (b, none) =>
          if b.isComplete then
            ({ a with buffers := a.buffers.erase df.writerSn },
              some {
                keyHash := b.keyHash
                inlineQos := b.inlineQos
                sequenceNumber := df.writerSn
                payload := b.data
                keyFlag := b.keyFlag })
          else ({ a with buffers := a.buffers.insert df.writerSn b }, none)

theorem insert_of_accept {a a' : FragmentAssembler} {df : DataFragSubmessage}
    {b b' : FragmentBuffer} (hgate : gate a.caps df = none)
    (hroom : a.makeRoom df.writerSn = some a') (hb : a'.bufferFor df = some b)
    (haccept : b.accept df = (b', none)) :
    a.insert df =
      if b'.isComplete then
        ({ a' with buffers := a'.buffers.erase df.writerSn },
          some ⟨b'.keyHash, b'.inlineQos, df.writerSn, b'.data, b'.keyFlag⟩)
      else ({ a' with buffers := a'.buffers.insert df.writerSn b' }, none) := by
  simp [insert, hgate, hroom, hb, haccept]

theorem insert_frame {a : FragmentAssembler} {df : DataFragSubmessage}
    (hroom : a.makeRoom df.writerSn = some a) :
    (a.insert df).1.caps = a.caps ∧
      ∀ sn, sn ≠ df.writerSn → (a.insert df).1.buffers.get? sn = a.buffers.get? sn := by
  unfold insert
  split
  · exact ⟨rfl, fun _ _ => rfl⟩
  · simp only [hroom]
    split
    · exact ⟨rfl, fun _ _ => rfl⟩
    · split
      · exact ⟨rfl, fun sn h => by simp [recordDrop, SortedMap.get?_insert, h]⟩
      · split
        · exact ⟨rfl, fun sn h => by simp [SortedMap.get?_erase, h]⟩
        · exact ⟨rfl, fun sn h => by simp [SortedMap.get?_insert, h]⟩

end FragmentAssembler
end ZeroDds.Rtps
