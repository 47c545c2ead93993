/-
The reliable reader.

The handlers for incoming submessages, the release of held samples and the outgoing ACKNACKs and
NACK_FRAGs.
-/
import ZeroDds.Lib.Run
import ZeroDds.Rtps.WriterProxyState

namespace ZeroDds.Rtps

inductive PayloadOpening where
  | asIs
  | opened (payload : Octets)
  | refused

/-- What a payload opener makes of a payload: the writer, the writer it was
forwarded for, the payload and its NonStandardPayloadFlag. -/
abbrev PayloadOpener := Guid → Option Guid → Octets → Bool → PayloadOpening

inductive ReaderCounter where
  | filteredSample
  | refusedPayload
  | oversizePayload
  | cacheFull
  | duplicateFrag
  deriving DecidableEq

def statusChangeKind (bits : Nat) : ChangeKind :=
  let disposed := bits.testBit 0
  let unregistered := bits.testBit 1
  if disposed && unregistered then .notAliveDisposedUnregistered
  else if disposed then .notAliveDisposed
  else if unregistered then .notAliveUnregistered
  else if bits.testBit 2 then .aliveFiltered
  else .alive

/-- A body makes a DATA a sample whatever the status says, unless it was
filtered; without one the status decides. -/
def classifyChangeKind (data : DataSubmessage) : ChangeKind :=
  let status := data.inlineQos.bind InlineQos.findStatusInfo
  if data.dataFlag then
    if status.any fun bits => statusChangeKind bits = .aliveFiltered then .aliveFiltered
    else .alive
  else (status.map statusChangeKind).getD .alive

def completedChangeKind (c : CompletedSample) : ChangeKind :=
  let statusKind := ((c.inlineQos.bind InlineQos.findStatusInfo).map statusChangeKind).getD .alive
  if c.keyFlag ∨ statusKind = .aliveFiltered then statusKind else .alive

def openPayload (opener : Option PayloadOpener) (writer : Guid) (original : Option Guid)
    (payload : Octets) (marked : Bool) : Option Octets :=
  match opener with
  | none => some payload
  | some o =>
    match o writer original payload marked with
    | .asIs => some payload
    | .opened p => some p
    | .refused => none

def changeOfData (data : DataSubmessage) (payload : Octets) (ts : Option HeTimestamp)
    (opened : Bool) : CacheChange where
  inlineQos := data.inlineQos
  sequenceNumber := data.writerSn
  payload := payload
  kind := classifyChangeKind data
  keyHash := data.inlineQos.bind InlineQos.findKeyHash
  sourceTimestamp := ts
  coherentSetSn := coherentSetOf data.inlineQos
  coherentSetEnd := !data.dataFlag && !data.keyFlag && classifyChangeKind data = .alive
  group := data.inlineQos.bind InlineQos.findChangeGroupInfo
  nonStandardPayload := data.nonStandardFlag && !opened
  destination := none
  destinationReaders := none

def changeOfCompleted (sn : Int) (c : CompletedSample) (payload : Octets)
    (ts : Option HeTimestamp) (nonStandard : Bool) : CacheChange :=
  { CacheChange.alive sn payload with
    kind := completedChangeKind c
    keyHash := c.keyHash
    group := c.inlineQos.bind InlineQos.findChangeGroupInfo
    inlineQos := c.inlineQos
    sourceTimestamp := ts
    coherentSetSn := coherentSetOf c.inlineQos
    nonStandardPayload := nonStandard }

/-- How a change is ruled out for this reader.  A reassembled sample for another
reader has been marked received before its address is looked at. -/
inductive Ruling where
  | irrelevant
  | filtered
  | receivedIrrelevant
  deriving DecidableEq

namespace Ruling

def mark (sn : Int) : Ruling → WriterProxy → WriterProxy
  | .irrelevant, p => p.irrelevantChangeSet sn
  | .filtered, p => p.notAvailableChangeSet sn .filtered
  | .receivedIrrelevant, p => (p.receivedChangeSet sn).irrelevantChangeSet sn

end Ruling

/-- What a DATA, or the DATA_FRAG that completes a sample, is to the reader: of no
account, a change without a sample for it, or a change to keep. -/
inductive Arrival where
  | ignored (counter : Option ReaderCounter)
  | ruledOut (ruling : Ruling) (counter : Option ReaderCounter)
  | change (c : CacheChange)

namespace WriterProxyState

variable (s : WriterProxyState)

/-- The original writer whose key protects a payload, where the forwarder is
honoured. -/
def trustedOriginal (qos : Option ParameterList) : Option Guid :=
  (originalWriterOf qos).bind fun (guid, _) => if s.forwarderTrusted then some guid else none

def oversize (payload : Octets) : Bool :=
  s.dataMaxSize.any fun max => max < payload.length

def arrivalOfData (own : Guid) (opener : Option PayloadOpener) (data : DataSubmessage)
    (ts : Option HeTimestamp) : Arrival :=
  let kind := classifyChangeKind data
  if s.proxy.isKnown data.writerSn ∨ data.writerSn ≤ s.deliveredUpTo then .ignored none
  else if kind = .aliveFiltered then .ruledOut .filtered (some .filteredSample)
  else if data.keyFlag ∧ kind = .alive then .ruledOut .irrelevant none
  else if addressedElsewhere data.inlineQos own then .ruledOut .irrelevant none
  else
    match openPayload opener s.proxy.remoteWriterGuid (s.trustedOriginal data.inlineQos)
        data.serializedPayload data.nonStandardFlag with
    | none => .ignored (some .refusedPayload)
    | some payload =>
      if s.oversize payload then .ruledOut .irrelevant (some .oversizePayload)
      else .change (changeOfData data payload ts opener.isSome)

def arrivalOfCompleted (own : Guid) (opener : Option PayloadOpener) (df : DataFragSubmessage)
    (completed : CompletedSample) (ts : Option HeTimestamp) : Arrival :=
  match openPayload opener s.proxy.remoteWriterGuid (s.trustedOriginal completed.inlineQos)
      completed.payload df.nonStandardFlag with
  | none => .ignored (some .refusedPayload)
  | some payload =>
    let kind := completedChangeKind completed
    if s.oversize payload then .ruledOut .irrelevant (some .oversizePayload)
    else if kind = .aliveFiltered then .ruledOut .filtered (some .filteredSample)
    else if completed.keyFlag ∧ kind = .alive then .ruledOut .irrelevant none
    else if addressedElsewhere completed.inlineQos own then .ruledOut .receivedIrrelevant none
    else
      .change (changeOfCompleted df.writerSn completed payload ts
        (df.nonStandardFlag && opener.isNone))

def arrivalOfDataFrag (own : Guid) (opener : Option PayloadOpener) (df : DataFragSubmessage)
    (ts : Option HeTimestamp) : WriterProxyState × Arrival :=
  if s.proxy.isKnown df.writerSn ∨ df.writerSn ≤ s.deliveredUpTo then
    (s, .ignored (some .duplicateFrag))
  else
    let s' := { s with assembler := (s.assembler.insert df).1 }
    match (s.assembler.insert df).2 with
    | none => (s', .ignored none)
    | some c => (s', s'.arrivalOfCompleted own opener df c ts)

end WriterProxyState

namespace Delivery

variable (bestEffort : Bool) (d : Delivery) (change : CacheChange)

def markAndCollect (f : WriterProxy → WriterProxy) : Delivery :=
  (d.setProxy f).collectInOrder bestEffort

def handDirect : Delivery :=
  let sn := change.sequenceNumber
  let gapSkipped := d.state.deliveredUpTo + 1 < sn
  let d := d.handOut (deliveredSampleOf d.state.proxy.remoteWriterGuid change)
  let s := { d.state with deliveredUpTo := sn }
  let s := if gapSkipped then s.loseBefore (sn + 1) else s
  { d with state := { s with deliveredAny := true } }.spend

/-- With the cache empty there is more to hand out only where the numbers right
behind are known or gone. -/
def deliverDirect : Delivery :=
  let next := change.sequenceNumber + 1
  let d := d.handDirect change
  if !d.state.receivedCache.isEmpty ∨ d.state.proxy.isKnown next ∨
      next < d.state.proxy.firstAvailableSn then
    d.collectInOrder bestEffort
  else d

def storeAndCollect : Delivery × Option ReaderCounter :=
  match d.state.storeReceived change with
  | (s, false) => ({ d with state := s }, some .cacheFull)
  | (s, true) => ({ d with state := s }.collectInOrder bestEffort, none)

/-- Takes a change the handlers have classified.  Only a DATA may be handed out
without a stay in the cache, and only when the cache is empty, the consumer has
room and nothing has to be waited for. -/
def takeArrival (direct : Bool) (d : Delivery) (sn : Int) :
    Arrival → Delivery × Option ReaderCounter
  | .ignored counter => (d, counter)
  | .ruledOut ruling counter => (d.markAndCollect bestEffort (ruling.mark sn), counter)
  | .change c =>
    let d := d.setProxy (·.receivedChangeSet sn)
    if direct ∧ d.state.receivedCache.isEmpty ∧
        (¬d.state.deliveredUpTo + 1 < sn ∨ bestEffort) ∧ d.budget ≠ some 0 then
      (d.deliverDirect bestEffort c, none)
    else d.storeAndCollect bestEffort c

def receiveData (own : Guid) (bestEffort : Bool) (opener : Option PayloadOpener) (d : Delivery)
    (data : DataSubmessage) (ts : Option HeTimestamp) : Delivery × Option ReaderCounter :=
  d.takeArrival bestEffort true data.writerSn (d.state.arrivalOfData own opener data ts)

def receiveDataFrag (own : Guid) (bestEffort : Bool) (opener : Option PayloadOpener)
    (d : Delivery) (df : DataFragSubmessage) (ts : Option HeTimestamp) :
    Delivery × Option ReaderCounter :=
  let (s, arrival) := d.state.arrivalOfDataFrag own opener df ts
  { d with state := s }.takeArrival bestEffort false df.writerSn arrival

def receiveHeartbeat (hb : HeartbeatSubmessage) (now : Nat) : Delivery :=
  let s := { d.state with lastHeartbeatAt := some now }
  let (proxy, lost) := s.proxy.updateFromHeartbeat hb.firstSn hb.lastSn
  let s := { s with proxy := proxy }.noteLost lost
  let s :=
    if !hb.finalFlag ∨
        (!hb.livelinessFlag ∧ (s.proxy.hasMissingChanges ∨ s.assembler.hasGaps)) then
      { s with pendingAcknackSince := s.pendingAcknackSince.or (some now) }
    else s
  { d with state := s }.collectInOrder bestEffort

def gapNumbers (gap : GapSubmessage) : List Int :=
  Int.range gap.gapStart gap.gapList.bitmapBase ++ gap.gapList.iterSet

def gapKind (gap : GapSubmessage) : NotAvailableKind :=
  NotAvailableKind.forGap
    (satAdd (gap.gapList.bitmapBase - gap.gapStart).toNat gap.gapList.iterSet.length)
    (gap.filteredCount.getD 0)

def receiveGap (gap : GapSubmessage) : Delivery :=
  let s := (gapNumbers gap).foldl
    (fun s sn =>
      { s with
        proxy := s.proxy.notAvailableChangeSet sn (gapKind gap)
        assembler := s.assembler.discard sn }) d.state
  { d with state := s }.collectInOrder bestEffort

end Delivery

def unmatchedWritersRemembered : Nat := 32

def originalWritersRemembered : Nat := 64

structure ReliableReader where
  guid : Guid
  vendorId : VendorId
  writerProxies : List WriterProxyState
  heartbeatResponseDelay : Nat
  heartbeatSuppressionDuration : Nat
  acknackCount : Int
  nackfragCount : Int
  duplicateFragCount : Nat
  maxSamplesPerProxy : Nat
  assemblerCaps : AssemblerCaps
  unknownSrcCount : Nat
  unmatchedHighest : List (Guid × Int)
  cacheFullCount : Nat
  bestEffort : Bool
  releaseBudget : Option Nat
  departed : List WriterProxyState
  departedDone : List Guid
  departedLost : Nat
  forwardedWithoutProxy : List (Guid × SnRanges)
  endedWriters : List Guid
  forwardedDuplicateCount : Nat
  untrustedForwardCount : Nat
  refusedPayloadCount : Nat
  oversizePayloadCount : Nat
  filteredSampleCount : Nat
  deriving DecidableEq

structure ReliableReaderConfig where
  guid : Guid
  vendorId : VendorId
  writerProxies : List WriterProxy
  maxSamplesPerProxy : Nat
  heartbeatResponseDelay : Nat
  assemblerCaps : AssemblerCaps

def pushBounded {α : Type} (bound : Nat) (l : List α) (a : α) : List α :=
  (if bound ≤ l.length then l.drop 1 else l) ++ [a]

namespace ReliableReader

def new (cfg : ReliableReaderConfig) : ReliableReader where
  guid := cfg.guid
  vendorId := cfg.vendorId
  writerProxies := cfg.writerProxies.map fun p =>
    WriterProxyState.new p cfg.maxSamplesPerProxy cfg.assemblerCaps
  heartbeatResponseDelay := cfg.heartbeatResponseDelay
  heartbeatSuppressionDuration := 0
  acknackCount := 0
  nackfragCount := 0
  duplicateFragCount := 0
  maxSamplesPerProxy := cfg.maxSamplesPerProxy
  assemblerCaps := cfg.assemblerCaps
  unknownSrcCount := 0
  unmatchedHighest := []
  cacheFullCount := 0
  bestEffort := false
  releaseBudget := none
  departed := []
  departedDone := []
  departedLost := 0
  forwardedWithoutProxy := []
  endedWriters := []
  forwardedDuplicateCount := 0
  untrustedForwardCount := 0
  refusedPayloadCount := 0
  oversizePayloadCount := 0
  filteredSampleCount := 0

variable (r : ReliableReader)

def bump : Option ReaderCounter → ReliableReader
  | none => r
  | some .filteredSample => { r with filteredSampleCount := satInc r.filteredSampleCount }
  | some .refusedPayload => { r with refusedPayloadCount := satInc r.refusedPayloadCount }
  | some .oversizePayload => { r with oversizePayloadCount := satInc r.oversizePayloadCount }
  | some .cacheFull => { r with cacheFullCount := satInc r.cacheFullCount }
  | some .duplicateFrag => { r with duplicateFragCount := satInc r.duplicateFragCount }

def noteUnknownSrc : ReliableReader :=
  { r with unknownSrcCount := satInc r.unknownSrcCount }

def rememberUnmatched (guid : Guid) (sn : Int) : ReliableReader :=
  let r := r.noteUnknownSrc
  if sn < 1 then r
  else if r.unmatchedHighest.any fun e => e.1 = guid then
    { r with
      unmatchedHighest := r.unmatchedHighest.map fun e =>
        if e.1 = guid ∧ e.2 < sn then (e.1, sn) else e }
  else
    { r with
      unmatchedHighest := pushBounded unmatchedWritersRemembered r.unmatchedHighest (guid, sn) }

def proxyIndexByWriter (guid : Guid) : Option Nat :=
  r.writerProxies.findIdx? fun s => s.proxy.remoteWriterGuid = guid

/-! ### Committing what was released -/

def stateOf (writer : Guid) : Option WriterProxyState :=
  (r.writerProxies ++ r.departed).find? fun s => s.proxy.remoteWriterGuid = writer

def modifyFirst {α : Type} (p : α → Bool) (f : α → α) : List α → List α
  | [] => []
  | a :: rest => if p a then f a :: rest else a :: modifyFirst p f rest

def modifyStateOf (writer : Guid) (f : WriterProxyState → WriterProxyState) : ReliableReader :=
  let isWriter := fun s : WriterProxyState => decide (s.proxy.remoteWriterGuid = writer)
  if r.writerProxies.any isWriter then
    { r with writerProxies := modifyFirst isWriter f r.writerProxies }
  else { r with departed := modifyFirst isWriter f r.departed }

def noteEnded (writer : Guid) : ReliableReader :=
  { r with
    endedWriters := pushBounded originalWritersRemembered
      (r.endedWriters.filter fun g => g ≠ writer) writer }

def rememberForwarded (writer : Guid) (committed : SnRanges) : ReliableReader :=
  if committed.ranges.isEmpty then r
  else
    { r with
      forwardedWithoutProxy := pushBounded originalWritersRemembered
        (r.forwardedWithoutProxy.filter fun e => e.1 ≠ writer) (writer, committed) }

/-- Records a change forwarded on behalf of `original`; `false` when it was handed
out already or waits in the original's receive cache. -/
def commitForwarded (original : Guid) (sn : Int) : ReliableReader × Bool :=
  match r.stateOf original with
  | some s =>
    if (s.receivedCache.get sn).isSome then (r, false)
    else
      (r.modifyStateOf original fun s => { s with committed := (s.committed.insert sn).1 },
        (s.committed.insert sn).2)
  | none =>
    match r.forwardedWithoutProxy.find? fun e => e.1 = original with
    | some e =>
      ({ r with
          forwardedWithoutProxy := modifyFirst (fun e => decide (e.1 = original))
            (fun e => (e.1, (e.2.insert sn).1)) r.forwardedWithoutProxy },
        (e.2.insert sn).2)
    | none => (r.rememberForwarded original (SnRanges.empty.insert sn).1, true)

def noteDuplicate : ReliableReader :=
  { r with forwardedDuplicateCount := satInc r.forwardedDuplicateCount }

def commitOwn (sample : DeliveredSample) : ReliableReader × Option DeliveredSample :=
  match r.stateOf sample.writerGuid with
  | none => (r, some sample)
  | some s =>
    let (committed, fresh) := s.committed.insert sample.sequenceNumber
    let r := r.modifyStateOf sample.writerGuid fun s => { s with committed := committed }
    if fresh then (r, some sample) else (r.noteDuplicate, none)

def commitSample (sample : DeliveredSample) : ReliableReader × Option DeliveredSample :=
  if sample.coherentSetEnd then (r, some sample)
  else
    let source := sample.writerGuid
    let trusted := (r.stateOf source).any fun s => s.forwarderTrusted
    match sample.originalWriter with
    | some (original, originalSn) =>
      if trusted ∧ original ≠ source then
        match r.commitForwarded original originalSn with
        | (r, true) =>
          (r, some { sample with
            writerGuid := original
            sequenceNumber := originalSn
            forwardedBy := some source })
        | (r, false) => (r.noteDuplicate, none)
      else if original ≠ source then
        { r with untrustedForwardCount := satInc r.untrustedForwardCount }.commitOwn sample
      else r.commitOwn sample
    | none => r.commitOwn sample

def commitReleased (r : ReliableReader) : List DeliveredSample →
    ReliableReader × List DeliveredSample
  | [] => (r, [])
  | sample :: rest =>
    let (r, kept) := r.commitSample sample
    let (r, out) := r.commitReleased rest
    (r, kept.toList ++ out)

def deliverAt (idx : Nat) (f : Delivery → Delivery × Option ReaderCounter) :
    ReliableReader × List DeliveredSample :=
  match r.writerProxies[idx]? with
  | none => (r, [])
  | some s =>
    let (d, counter) := f ⟨s, r.releaseBudget, []⟩
    { r with
      writerProxies := r.writerProxies.set idx d.state
      releaseBudget := d.budget }.bump counter |>.commitReleased d.out

variable (sourcePrefix : GuidPrefix) (s : WriterProxyState)

def handleData (data : DataSubmessage) (ts : Option HeTimestamp) (opener : Option PayloadOpener) :
    ReliableReader × List DeliveredSample :=
  match r.proxyIndexByWriter ⟨sourcePrefix, data.writerId⟩ with
  | none => (r.rememberUnmatched ⟨sourcePrefix, data.writerId⟩ data.writerSn, [])
  | some idx => r.deliverAt idx fun d => d.receiveData r.guid r.bestEffort opener data ts

def handleDataFrag (df : DataFragSubmessage) (ts : Option HeTimestamp)
    (opener : Option PayloadOpener) : ReliableReader × List DeliveredSample :=
  match r.proxyIndexByWriter ⟨sourcePrefix, df.writerId⟩ with
  | none => (r.rememberUnmatched ⟨sourcePrefix, df.writerId⟩ df.writerSn, [])
  | some idx => r.deliverAt idx fun d => d.receiveDataFrag r.guid r.bestEffort opener df ts

def suppresses (now : Nat) : Bool :=
  r.heartbeatSuppressionDuration ≠ 0 &&
    s.lastHeartbeatAt.any fun prev => now - prev < r.heartbeatSuppressionDuration

def handleHeartbeat (hb : HeartbeatSubmessage) (now : Nat) :
    ReliableReader × List DeliveredSample :=
  match r.proxyIndexByWriter ⟨sourcePrefix, hb.writerId⟩ with
  | none =>
    if hb.livelinessFlag then (r.noteUnknownSrc, [])
    else (r.rememberUnmatched ⟨sourcePrefix, hb.writerId⟩ hb.lastSn, [])
  | some idx =>
    if r.writerProxies[idx]?.any fun s => r.suppresses s now then (r, [])
    else r.deliverAt idx fun d => (d.receiveHeartbeat r.bestEffort hb now, none)

def handleHeartbeatFrag (hbf : HeartbeatFragSubmessage) (now : Nat) : ReliableReader × Bool :=
  match r.proxyIndexByWriter ⟨sourcePrefix, hbf.writerId⟩ with
  | none => (r.noteUnknownSrc, false)
  | some idx =>
    if r.bestEffort ∨ hbf.writerSn ≤ 0 ∨ hbf.lastFragmentNum = 0 then (r, false)
    else
      match r.writerProxies[idx]? with
      | none => (r, false)
      | some s =>
        if (s.assembler.missingFragments hbf.writerSn).iterSet.any
            fun f => f ≤ hbf.lastFragmentNum then
          ({ r with
              writerProxies := r.writerProxies.set idx
                { s with pendingAcknackSince := s.pendingAcknackSince.or (some now) } }, true)
        else (r, false)

def handleGap (gap : GapSubmessage) : ReliableReader × List DeliveredSample :=
  match r.proxyIndexByWriter ⟨sourcePrefix, gap.writerId⟩ with
  | none => (r.noteUnknownSrc, [])
  | some idx => r.deliverAt idx fun d => (d.receiveGap r.bestEffort gap, none)

/-! ### Settings and the release of held samples -/

def setBestEffort (bestEffort : Bool) : ReliableReader :=
  { r with bestEffort := bestEffort }

def setReleaseBudget (budget : Option Nat) : ReliableReader :=
  { r with releaseBudget := budget }

def setHeartbeatSuppressionDuration (d : Nat) : ReliableReader :=
  { r with heartbeatSuppressionDuration := d }

def setMaxSamplesPerProxy (max : Nat) : ReliableReader :=
  { r with
    maxSamplesPerProxy := max
    writerProxies := r.writerProxies.map fun s =>
      { s with receivedCache := s.receivedCache.setKindAndMax s.receivedCache.kind max } }

def setForwarderTrusted (writer : Guid) (trusted : Bool) : ReliableReader :=
  match r.proxyIndexByWriter writer with
  | none => r
  | some idx =>
    { r with
      writerProxies := r.writerProxies.modify idx fun s => { s with forwarderTrusted := trusted } }

def setWriterDataMaxSize (writer : Guid) (max : Option Int) : ReliableReader :=
  match r.proxyIndexByWriter writer with
  | none => r
  | some idx =>
    { r with
      writerProxies := r.writerProxies.modify idx fun s =>
        { s with dataMaxSize := max.bind fun m => if 0 ≤ m then some m.toNat else none } }

def collectStates (bestEffort : Bool) :
    List WriterProxyState → Option Nat → List WriterProxyState × Option Nat × List DeliveredSample
  | [], budget => ([], budget, [])
  | s :: rest, budget =>
    let d := Delivery.collectInOrder bestEffort ⟨s, budget, []⟩
    let (states, budget, out) := collectStates bestEffort rest d.budget
    (d.state :: states, budget, d.out ++ out)

def drainDeparted : ReliableReader :=
  let drained := (r.departed.filter fun s => s.receivedCache.isEmpty).map fun s =>
    s.proxy.remoteWriterGuid
  drained.foldl (fun r guid => { r with departedDone := r.departedDone ++ [guid] }.noteEnded guid)
    { r with departed := r.departed.filter fun s => !s.receivedCache.isEmpty }

def releaseHeld : ReliableReader × List DeliveredSample :=
  let (proxies, budget, out) := collectStates r.bestEffort r.writerProxies r.releaseBudget
  let (departed, budget, departedOut) := collectStates r.bestEffort r.departed budget
  let (r, out) := { r with
    writerProxies := proxies
    departed := departed
    releaseBudget := budget }.commitReleased (out ++ departedOut)
  (r.drainDeparted, out)

/-! ### Outgoing ACKNACKs and NACK_FRAGs -/

def wrapToWriter (writerPrefix : GuidPrefix) (sub : Submessage) (targets : List Locator) :
    Except WireError OutboundDatagram :=
  if sub.bodyLen ≤ u16Max then
    .ok ⟨.new r.vendorId r.guid.guidPrefix, [.infoDst writerPrefix, sub], targets⟩
  else .error (.valueOutOfRange "submessage body exceeds u16::MAX")

def nackFragOf (sn : Int) : NackFragSubmessage where
  readerId := r.guid.entityId
  writerId := s.proxy.remoteWriterGuid.entityId
  writerSn := sn
  fragmentNumberState := s.assembler.missingFragments sn
  count := wrapSuccI32 r.nackfragCount

/-- How many missing changes an ACKNACK may name: no more than the cache can hold
while what it holds waits for the consumer. -/
def acknackLimit : Nat :=
  if s.nextChangeIsCached then
    min (s.receivedCache.maxSamples - s.receivedCache.len) rtpsBitmapMaxBits
  else rtpsBitmapMaxBits

def ackNackOf : AckNackSubmessage where
  readerId := r.guid.entityId
  writerId := s.proxy.remoteWriterGuid.entityId
  readerSnState := SequenceNumberSet.fromMissing s.proxy.acknackBase
    ((s.proxy.missingChanges (acknackLimit s)).filter fun sn => sn ∉ s.assembler.incompleteSns)
  count := wrapSuccI32 r.acknackCount
  finalFlag := (s.proxy.missingChanges (acknackLimit s)).isEmpty &&
    (1 ≤ s.proxy.lastAvailableSn || s.lastHeartbeatAt.isSome)

def buildNackFrags (s : WriterProxyState) :
    List Int → ReliableReader → ReliableReader × Except WireError (List OutboundDatagram)
  | [], r => (r, .ok [])
  | sn :: rest, r =>
    let built := r.wrapToWriter s.proxy.remoteWriterGuid.guidPrefix (.nackFrag (r.nackFragOf s sn))
      s.proxy.unicastLocators
    let r := { r with nackfragCount := wrapSuccI32 r.nackfragCount }
    match built with
    | .error e => (r, .error e)
    | .ok d =>
      match buildNackFrags s rest r with
      | (r, .error e) => (r, .error e)
      | (r, .ok ds) => (r, .ok (d :: ds))

def respond (idx : Nat) (s : WriterProxyState) :
    ReliableReader × Except WireError (List OutboundDatagram) :=
  let s := { s with pendingAcknackSince := none }
  let r := { r with writerProxies := r.writerProxies.set idx s }
  match buildNackFrags s s.assembler.incompleteSns r with
  | (r, .error e) => (r, .error e)
  | (r, .ok frags) =>
    let built := r.wrapToWriter s.proxy.remoteWriterGuid.guidPrefix (.ackNack (r.ackNackOf s))
      s.proxy.unicastLocators
    let r := { r with acknackCount := wrapSuccI32 r.acknackCount }
    match built with
    | .error e => (r, .error e)
    | .ok d => (r, .ok (frags ++ [d]))

def responseDue (now : Nat) : Bool :=
  (s.pendingAcknackSince.any fun since => r.heartbeatResponseDelay ≤ now - since) &&
    !s.fullForTheConsumer

def tickFrom (now : Nat) : Nat → Nat → ReliableReader →
    ReliableReader × Except WireError (List OutboundDatagram)
  | 0, _, r => (r, .ok [])
  | left + 1, idx, r =>
    match r.writerProxies[idx]? with
    | none => (r, .ok [])
    | some s =>
      if r.responseDue s now then
        match r.respond idx s with
        | (r, .error e) => (r, .error e)
        | (r, .ok ds) =>
          match tickFrom now left (idx + 1) r with
          | (r, .error e) => (r, .error e)
          | (r, .ok rest) => (r, .ok (ds ++ rest))
      else tickFrom now left (idx + 1) r

def tickOutbound (now : Nat) : ReliableReader × Except WireError (List OutboundDatagram) :=
  if r.bestEffort then
    ({ r with
        writerProxies := r.writerProxies.map fun s => { s with pendingAcknackSince := none } },
      .ok [])
  else tickFrom now r.writerProxies.length 0 r

end ReliableReader
end ZeroDds.Rtps
