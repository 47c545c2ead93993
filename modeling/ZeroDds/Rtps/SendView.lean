/-
What a writer sends for a change.

The build helpers of the writer.
-/
import ZeroDds.Rtps.Dialect
import ZeroDds.Rtps.FragmentAssembler
import ZeroDds.Rtps.MessageBuilder
import ZeroDds.Rtps.ReaderProxy

namespace ZeroDds.Rtps

def HeartbeatGroupInfo.isValid (g : HeartbeatGroupInfo) : Bool :=
  0 < g.currentGsn && 0 < g.firstGsn && 0 ≤ g.lastGsn && g.firstGsn - 1 ≤ g.lastGsn &&
    g.firstGsn ≤ g.currentGsn

def ChangeKind.isAliveKind (k : ChangeKind) : Bool := k = .alive || k = .aliveFiltered

def ChangeKind.statusBits : ChangeKind → Nat
  | .notAliveDisposed => InlineQos.disposed
  | .notAliveUnregistered => InlineQos.unregistered
  | .notAliveDisposedUnregistered => InlineQos.disposed + InlineQos.unregistered
  | .alive | .aliveFiltered => InlineQos.disposed

def zeroKeyHash : KeyHash := Vector.replicate 16 0

/-- A datagram and the matched reader it was built for.  The source returns the
datagrams alone, in the same order. -/
structure AddressedDatagram where
  peer : Guid
  datagram : OutboundDatagram
  deriving DecidableEq

structure Assembly where
  builder : MessageBuilder
  out : List AddressedDatagram

namespace Assembly

def finish (a : Assembly) (peer : Guid) : List AddressedDatagram :=
  a.out ++ (a.builder.finish.map fun d => ⟨peer, d⟩).toList

def flush (a : Assembly) (peer : Guid) (fresh : MessageBuilder) : Assembly :=
  ⟨fresh, a.finish peer⟩

end Assembly

structure LifecycleMarker where
  keyHash : KeyHash
  serializedKey : Octets
  statusBits : Nat
  form : DisposeKeyForm

structure FragmentSlice where
  number : Nat
  count : Nat
  size : Nat
  sampleSize : Nat
  bytes : Octets

structure SendView where
  guid : Guid
  vendorId : VendorId
  readers : List RemoteReader
  cache : HistoryCache
  fragmentSize : Nat
  mtu : Nat
  behaviour : BehaviourTable
  group : Option WriterGroup
  gsnOf : SortedMap Int Int
  lastGsn : Option Int
  inlineWriterQos : Option ParameterList
  inlineQosReaders : Nat
  secureGroupInfo : Bool
  filteredReaders : Nat
  lastWrittenSn : Int
  pushMode : Bool
  heartbeatPeriod : Nat
  nackResponseDelay : Nat
  nackSuppressionDuration : Nat
  clock : Nat

namespace SendView

variable (v : SendView)

def rtpsHeader : RtpsHeader := .new v.vendorId v.guid.guidPrefix

def reader? (peer : Guid) : Option RemoteReader :=
  v.readers.find? fun r => r.remoteReaderGuid = peer

def messageSizeFor (peer : Guid) : Nat :=
  match (v.reader? peer).bind RemoteReader.messageLimit with
  | none => v.mtu
  | some limit => max limit v.mtu

def openBuilderFor (peer : Guid) (targets : List Locator) : MessageBuilder :=
  let b := MessageBuilder.openWith v.rtpsHeader targets (v.messageSizeFor peer)
  if (v.behaviour.forPeer peer).directedAddressing.emitsInfoDst then
    (b.tryAddSubmessage (.infoDst peer.guidPrefix)).toOption.getD b
  else b

/-! ### In-line QoS and sizes -/

def groupInfoFor (peer : Guid) : Bool :=
  (v.behaviour.forPeer peer).groupWireForm = .specification

def expectsInlineQos (peer : Guid) : Bool :=
  0 < v.inlineQosReaders &&
    v.readers.any fun r => r.remoteReaderGuid = peer && r.expectsInlineQos

/-- Adds the coherent-set and group parameters of a change; `none` for the peer is
the largest case. -/
def pushSetParams (change : CacheChange) (peer : Option Guid) (qos : Option ParameterList) :
    Option ParameterList :=
  let groupInfo := peer.all v.groupInfoFor
  let qos :=
    match change.coherentSetSn with
    | none => qos
    | some first =>
      if change.coherentSetEnd ∧ change.group.isSome ∧ groupInfo = false then qos
      else
        let list := qos.getD ParameterList.new
        some { list with
          parameters := list.parameters ++ (InlineQos.coherentSetInlineQos first true).parameters }
  match change.group.filter fun _ => groupInfo with
  | none => qos
  | some g =>
    let list := (qos.getD ParameterList.new).push (InlineQos.groupSeqNumParam g.gsn true)
    let list := list.push
      (if v.secureGroupInfo then InlineQos.secureWriterGroupInfoParam g.writerSet
        else InlineQos.writerGroupInfoParam g.writerSet)
    let sent := peer.all fun p => (v.behaviour.forPeer p).groupCoherentSet = .sent
    match g.coherentSetGsn with
    | some first => if sent then some (list.push (InlineQos.groupCoherentSetParam first true))
      else some list
    | none => some list

variable (sn : Int)

/-- The in-line QoS of a change: the writer's where the reader expects it, the
change's own, the set and group parameters and the key hash. -/
def sampleInlineQosFor (peer : Option Guid) : Option ParameterList :=
  match v.cache.get sn with
  | none => none
  | some change =>
    let qos :=
      match v.inlineWriterQos.filter fun _ => peer.all v.expectsInlineQos with
      | none => change.inlineQos
      | some list =>
        some { list with
          parameters := list.parameters ++ (change.inlineQos.map (·.parameters)).getD [] }
    let qos := v.pushSetParams change peer qos
    match change.keyHash with
    | none => qos
    | some key => some ((qos.getD ParameterList.new).push ⟨Pid.keyHash, key.toList⟩)

variable (peer : Guid) (payload : Octets)

def sampleInlineQos : Option ParameterList :=
  v.sampleInlineQosFor sn (some peer)

def carriesMore (change : CacheChange) (peer : Option Guid) : Bool :=
  change.inlineQos.isSome || change.coherentSetSn.isSome || change.coherentSetEnd ||
    change.group.isSome || (v.inlineWriterQos.isSome && peer.all v.expectsInlineQos)

def sampleInlineQosLen (peer : Option Guid) : Nat :=
  match v.cache.get sn with
  | none => 0
  | some change =>
    if v.carriesMore change peer then
      ((v.sampleInlineQosFor sn peer).map ParameterList.wireLen).getD 0
    else if change.keyHash.isSome then 4 + 16 + 4
    else 0

/-- Octets beside the payload of a DATA: RTPS header, INFO_DST, INFO_TS and the
submessage's header and fixed octets. -/
def besideData : Nat := 20 + 16 + 12 + 24

def besideDataFrag : Nat := 20 + 16 + 12 + 36

def fragmentSizeFor : Nat :=
  let qos := v.sampleInlineQosLen sn none
  let room := min (v.mtu - (besideDataFrag + qos)) (u16Max - (32 + qos))
  max (min v.fragmentSize room) 1

/-- Octets one DATA to the peer holds where the path to it carries more than the
writer's own message size; 0 otherwise. -/
def unfragmentedRoom : Nat :=
  let size := v.messageSizeFor peer
  if size ≤ v.mtu then 0
  else min (size - (besideData + v.sampleInlineQosLen sn (some peer))) u32Max

def needsFragmentation : Bool :=
  !payload.isEmpty &&
    max (v.fragmentSizeFor sn) (v.unfragmentedRoom sn peer) < min payload.length u32Max

def fragmentsPerMessage (fragSize : Nat) : Nat :=
  let room := v.messageSizeFor peer - (besideDataFrag + v.sampleInlineQosLen sn (some peer))
  min (max (room / max fragSize 1) 1) u16Max

/-! ### Which changes go to a peer, and in what form -/

def passesDdsFilter (change : CacheChange) (peer : Guid) : Bool :=
  v.filteredReaders = 0 || ((v.reader? peer).bind RemoteReader.filter).all fun f => f change

def isRelevant : Bool :=
  (v.cache.get sn).all fun c =>
    c.isRelevantTo peer && v.passesDdsFilter c peer &&
      !(c.coherentSetEnd && (v.behaviour.forPeer peer).endOfSetForm = .gap)

def gapGroupInfo : Option GapGroupInfo :=
  if v.group.isNone ∨ v.groupInfoFor peer = false then none
  else
    (((v.cache.get sn).bind fun c => c.group.map (·.gsn)).or (v.gsnOf.get? sn)).map fun gsn =>
      ⟨gsn, gsn⟩

def gapOf : GapSubmessage where
  readerId := peer.entityId
  writerId := v.guid.entityId
  gapStart := sn
  gapList := ⟨sn + 1, 0, []⟩
  groupInfo := v.gapGroupInfo sn peer
  filteredCount := some (if (v.cache.get sn).isSome then 1 else 0)

/-- The DATA whose only in-line QoS is a key hash, built without a parameter list;
`none` for a change that carries more. -/
def compactData (peer : Guid) : Option DataSubmessage :=
  match v.cache.get sn with
  | none => none
  | some change =>
    if v.carriesMore change (some peer) then none
    else
      some
        { extraFlags := 0
          readerId := peer.entityId
          writerId := v.guid.entityId
          writerSn := sn
          inlineQos := change.keyHash.map fun key => ⟨[⟨Pid.keyHash, key.toList⟩], true⟩
          dataFlag := true
          keyFlag := false
          nonStandardFlag := change.nonStandardPayload
          serializedPayload := payload }

def dataOf (peer : Guid) : DataSubmessage :=
  match v.compactData sn payload peer with
  | some d => d
  | none =>
    { extraFlags := 0
      readerId := peer.entityId
      writerId := v.guid.entityId
      writerSn := sn
      inlineQos := v.sampleInlineQos sn peer
      dataFlag := !(v.cache.get sn).any fun c => c.coherentSetEnd
      keyFlag := false
      nonStandardFlag := (v.cache.get sn).any fun c => c.nonStandardPayload
      serializedPayload := payload }

def dataFragOf (fragment : FragmentSlice) (peer : Guid) : DataFragSubmessage where
  inlineQos := v.sampleInlineQos sn peer
  extraFlags := 0
  readerId := peer.entityId
  writerId := v.guid.entityId
  writerSn := sn
  fragmentStartingNum := fragment.number
  fragmentsInSubmessage := fragment.count
  fragmentSize := fragment.size
  sampleSize := fragment.sampleSize
  serializedPayload := fragment.bytes
  inlineQosFlag := (v.sampleInlineQos sn peer).isSome
  keyFlag := false
  nonStandardFlag := (v.cache.get sn).any fun c => c.nonStandardPayload

def markerOf (change : CacheChange) (defaultKey : KeyHash) (peer : Guid) : LifecycleMarker where
  keyHash := change.keyHash.getD defaultKey
  serializedKey := change.payload
  statusBits := change.kind.statusBits
  form := (v.behaviour.forPeer peer).disposeKeyForm.withKeyAvailable !change.payload.isEmpty

def lifecycleData (marker : LifecycleMarker) (peer : Guid) : DataSubmessage :=
  let qos :=
    if marker.form.emitsKeyHash then InlineQos.lifecycleInlineQos marker.keyHash marker.statusBits
    else InlineQos.lifecycleInlineQosStatusOnly marker.statusBits
  { extraFlags := 0
    readerId := peer.entityId
    writerId := v.guid.entityId
    writerSn := sn
    inlineQos :=
      match v.cache.get sn with
      | none => some qos
      | some change =>
        v.pushSetParams change (some peer) (some { qos with
          parameters := qos.parameters ++ (change.inlineQos.map (·.parameters)).getD [] })
    dataFlag := false
    keyFlag := marker.form.setsKeyFlag
    nonStandardFlag := false
    serializedPayload := if marker.form.setsKeyFlag then marker.serializedKey else [] }

/-- `heartbeat_group_info`: `none` outside a group, and where the first sample is no
longer there to name. -/
def heartbeatGroupInfo (first last : Int) (peer : Guid) : Option HeartbeatGroupInfo :=
  v.group.bind fun g =>
    if v.groupInfoFor peer = false then none
    else
      let sendDigests := (v.behaviour.forPeer peer).heartbeatGroupDigests = .sent
      let gsnOf := fun sn => (v.cache.get sn).bind fun c => c.group.map (·.gsn)
      ((gsnOf last).or v.lastGsn).bind fun lastGsn =>
        (if last < first then some (lastGsn + 1) else gsnOf first).bind fun firstGsn =>
          let info : HeartbeatGroupInfo :=
            { currentGsn := g.currentGsn
              firstGsn := firstGsn
              lastGsn := lastGsn
              writerSet := if sendDigests then some g.writerSet else none
              secureWriterSet := if sendDigests then some GroupDigest.empty else none }
          if info.isValid then some info else none

def heartbeatOf (first last count : Int) (finalFlag livelinessFlag : Bool) (peer : Guid) :
    HeartbeatSubmessage :=
  let first := min first (satSucc last)
  { readerId := peer.entityId
    writerId := v.guid.entityId
    firstSn := first
    lastSn := last
    count := count
    finalFlag := finalFlag
    livelinessFlag := livelinessFlag
    groupInfo := v.heartbeatGroupInfo first last peer }

/-! ### Appending to an open datagram -/

def appendInfoTs (b : MessageBuilder) (sn : Int) : MessageBuilder :=
  match (v.cache.get sn).bind fun c => c.sourceTimestamp with
  | none => b
  | some ts => (b.tryAddSubmessage (.infoTs ts)).toOption.getD b

def appendSubmessage (a : Assembly) (s : Submessage) (peer : Guid) (targets : List Locator)
    (kindHint : String) : Except WireError Assembly :=
  match a.builder.tryAddSubmessage s with
  | .ok b => .ok { a with builder := b }
  | .error .bodyTooLarge => .error (.valueOutOfRange (kindHint ++ " body exceeds u16::MAX"))
  | .error _ =>
    let a := a.flush peer (v.openBuilderFor peer targets)
    match a.builder.tryAddSubmessage s with
    | .ok b => .ok { a with builder := b }
    | .error _ => .error (.valueOutOfRange "submessage does not fit into fresh datagram")

def appendGap (a : Assembly) (sn : Int) (peer : Guid) (targets : List Locator) :
    Except WireError Assembly :=
  v.appendSubmessage a (.gap (v.gapOf sn peer)) peer targets "GAP"

def appendData (a : Assembly) (sn : Int) (payload : Octets) (peer : Guid)
    (targets : List Locator) : Except WireError Assembly :=
  if v.isRelevant sn peer then
    v.appendSubmessage { a with builder := v.appendInfoTs a.builder sn }
      (.data (v.dataOf sn payload peer)) peer targets "DATA"
  else v.appendGap a sn peer targets

def appendLifecycle (a : Assembly) (sn : Int) (marker : LifecycleMarker) (peer : Guid)
    (targets : List Locator) : Except WireError Assembly :=
  v.appendSubmessage { a with builder := v.appendInfoTs a.builder sn }
    (.data (v.lifecycleData sn marker peer)) peer targets "DATA"

def appendHeartbeat (a : Assembly) (first last count : Int) (finalFlag livelinessFlag : Bool)
    (peer : Guid) (targets : List Locator) : Except WireError Assembly :=
  v.appendSubmessage a (.heartbeat (v.heartbeatOf first last count finalFlag livelinessFlag peer))
    peer targets "HEARTBEAT"

/-! ### Datagrams of their own -/

def buildAlone (s : Submessage) (stamped : Option Int) (peer : Guid) (targets : List Locator)
    (message : String) : Except WireError AddressedDatagram :=
  let b := v.openBuilderFor peer targets
  let b := (stamped.map fun sn => v.appendInfoTs b sn).getD b
  match b.tryAddSubmessage s with
  | .error _ => .error (.valueOutOfRange message)
  | .ok b =>
    match b.finish with
    | some d => .ok ⟨peer, d⟩
    | none => .error (.valueOutOfRange "MessageBuilder finish returned no datagram")

def buildGapDatagram (targets : List Locator) : Except WireError AddressedDatagram :=
  v.buildAlone (.gap (v.gapOf sn peer)) none peer targets "GAP submessage does not fit into MTU"

def buildSingleDataDatagram (peer : Guid) (targets : List Locator) :
    Except WireError AddressedDatagram :=
  v.buildAlone (.data (v.dataOf sn payload peer)) (some sn) peer targets
    "DATA submessage does not fit into MTU"

def buildLifecycleDatagram (marker : LifecycleMarker) (peer : Guid) (targets : List Locator) :
    Except WireError AddressedDatagram :=
  v.buildAlone (.data (v.lifecycleData sn marker peer)) (some sn) peer targets
    "lifecycle DATA submessage does not fit into MTU"

def buildDataFragSubmessageDatagram (fragment : FragmentSlice) (peer : Guid)
    (targets : List Locator) : Except WireError AddressedDatagram :=
  v.buildAlone (.dataFrag (v.dataFragOf sn fragment peer)) (some sn) peer targets
    "DATA_FRAG submessage does not fit into MTU"

def sliceOf (start stop : Nat) : Octets := (payload.take stop).drop start

/-- The DATA_FRAGs of a sample from octet `pos` on.  The fuel is the octets left at
most, since every datagram takes one or more of them. -/
def fragmentDatagrams (sn : Int) (payload : Octets) (fragSize perMessage : Nat) (peer : Guid)
    (targets : List Locator) : Nat → Nat → Nat → Except WireError (List AddressedDatagram)
  | 0, _, _ => .ok []
  | fuel + 1, fragNum, pos =>
    if pos < payload.length then
      let stop := min (pos + perMessage * fragSize) payload.length
      let count := divCeil (stop - pos) fragSize
      if u16Max < count then
        .error (.valueOutOfRange "fragments in submessage exceed u16::MAX")
      else
        match v.buildDataFragSubmessageDatagram sn
            ⟨fragNum, count, fragSize, payload.length, sliceOf payload pos stop⟩ peer targets with
        | .error e => .error e
        | .ok d =>
          if u32Max < fragNum + count then .error (.valueOutOfRange "fragment number overflow")
          else (fragmentDatagrams sn payload fragSize perMessage peer targets fuel
            (fragNum + count) stop).map (d :: ·)
    else .ok []

/-- `push_sample_datagrams`: a sample as one DATA or as its DATA_FRAGs, or the GAP
of a change the peer does not get. -/
def buildSampleDatagrams (peer : Guid) (targets : List Locator) :
    Except WireError (List AddressedDatagram) :=
  if v.isRelevant sn peer = false then (v.buildGapDatagram sn peer targets).map ([·])
  else if v.needsFragmentation sn peer payload = false then
    (v.buildSingleDataDatagram sn payload peer targets).map ([·])
  else
    let fragSize := v.fragmentSizeFor sn
    if u32Max < payload.length then .error (.valueOutOfRange "sample size exceeds u32::MAX")
    else if u16Max < fragSize then .error (.valueOutOfRange "fragment_size exceeds u16::MAX")
    else
      v.fragmentDatagrams sn payload fragSize (v.fragmentsPerMessage sn peer fragSize) peer targets
        payload.length 1 0

def buildDataFragDatagram (frag count : Nat) (payload : Octets) (peer : Guid)
    (targets : List Locator) : Except WireError AddressedDatagram :=
  let fragSize := v.fragmentSizeFor sn
  let start := (frag - 1) * fragSize
  let stop := min (start + max count 1 * fragSize) payload.length
  if v.isRelevant sn peer = false then v.buildGapDatagram sn peer targets
  else if frag = 0 then .error (.valueOutOfRange "fragment number must be >= 1")
  else if payload.length ≤ start then .error (.valueOutOfRange "fragment number beyond sample")
  else if u16Max < divCeil (stop - start) fragSize then
    .error (.valueOutOfRange "fragments in submessage exceed u16::MAX")
  else if u32Max < payload.length then .error (.valueOutOfRange "sample size exceeds u32::MAX")
  else if u16Max < fragSize then .error (.valueOutOfRange "fragment_size exceeds u16::MAX")
  else
    v.buildDataFragSubmessageDatagram sn
      ⟨frag, divCeil (stop - start) fragSize, fragSize, payload.length,
        sliceOf payload start stop⟩ peer targets

/-! ### A change as what the cache holds of it -/

/-- Appends a change to the open datagram; a fragmented sample goes out in
datagrams of its own. -/
def appendChange (a : Assembly) (sn : Int) (peer : Guid) (targets : List Locator) :
    Except WireError Assembly :=
  match v.cache.get sn with
  | none => v.appendGap a sn peer targets
  | some change =>
    if change.kind.isAliveKind = false then
      v.appendLifecycle a sn (v.markerOf change zeroKeyHash peer) peer targets
    else if v.needsFragmentation sn peer change.payload then
      let a := a.flush peer (v.openBuilderFor peer targets)
      (v.buildSampleDatagrams sn change.payload peer targets).map fun ds =>
        { a with out := a.out ++ ds }
    else v.appendData a sn change.payload peer targets

/-- A change in datagrams of its own, as the drains of `write_lifecycle` and
`emit_coherent_set_end` send it. -/
def buildChangeDatagrams (defaultKey : KeyHash) (sn : Int) (peer : Guid)
    (targets : List Locator) : Except WireError (List AddressedDatagram) :=
  match v.cache.get sn with
  | none => (v.buildGapDatagram sn peer targets).map ([·])
  | some change =>
    if change.kind.isAliveKind then v.buildSampleDatagrams sn change.payload peer targets
    else
      (v.buildLifecycleDatagram sn (v.markerOf change defaultKey peer) peer targets).map ([·])

end SendView
end ZeroDds.Rtps
