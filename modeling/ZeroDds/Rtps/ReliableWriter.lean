/-
The reliable writer.

Staging a change, sending it, the periodic tick and the handlers of ACKNACK and NACK_FRAG.
-/
import ZeroDds.Lib.IntRange
import ZeroDds.Lib.Run
import ZeroDds.Rtps.ProxyTurn

namespace ZeroDds.Rtps

def maxRememberedGsns : Nat := 4096

def defaultNackResponseDelay : Nat := 200000000

structure ReliableWriter where
  guid : Guid
  vendorId : VendorId
  readerProxies : List ReaderProxy
  cache : HistoryCache
  heartbeatPeriod : Nat
  lastHeartbeat : Option Nat
  heartbeatCount : Int
  nackfragCount : Int
  unknownSrcCount : Nat
  nextSn : Int
  fragmentSize : Nat
  mtu : Nat
  behaviour : BehaviourTable
  pushMode : Bool
  coherentSetSn : Option Int
  coherentSetArmed : Bool
  group : Option WriterGroup
  gsnOf : SortedMap Int Int
  lastGsn : Option Int
  announcedCurrentGsn : Int
  inlineWriterQos : Option ParameterList
  inlineQosReaders : Nat
  secureGroupInfo : Bool
  filteredReaders : Nat
  nackResponseDelay : Nat
  nackSuppressionDuration : Nat
  clock : Nat
  sentAt : SortedMap Int Nat
  unackedWindow : Nat
  unacked : List (Int × Nat)
  unackedBytes : Nat
  ackRequested : Bool
  nextDestinationReaders : Option (List Guid)

structure ReliableWriterConfig where
  guid : Guid
  vendorId : VendorId
  readerProxies : List ReaderProxy
  maxSamples : Nat
  historyKind : HistoryKind
  heartbeatPeriod : Nat
  fragmentSize : Nat
  mtu : Nat

structure SampleWrite where
  payload : Octets
  sourceTimestamp : Option HeTimestamp
  keyHash : Option KeyHash
  inlineQos : Option ParameterList
  nonStandard : Bool
  destination : Option GuidPrefix

structure LifecycleWrite where
  keyHash : KeyHash
  serializedKey : Octets
  statusBits : Nat
  sourceTimestamp : Option HeTimestamp
  inlineQos : Option ParameterList

namespace LifecycleWrite

def kind? (l : LifecycleWrite) : Option ChangeKind :=
  match l.statusBits.testBit 0, l.statusBits.testBit 1 with
  | true, true => some .notAliveDisposedUnregistered
  | true, false => some .notAliveDisposed
  | false, true => some .notAliveUnregistered
  | false, false => none

end LifecycleWrite

abbrev WriterOutcome (α : Type) := Outcome ReliableWriter WireError α

namespace ReliableWriter

def new (cfg : ReliableWriterConfig) : ReliableWriter where
  guid := cfg.guid
  vendorId := cfg.vendorId
  readerProxies := cfg.readerProxies
  cache := HistoryCache.newWithKind cfg.historyKind cfg.maxSamples
  heartbeatPeriod := cfg.heartbeatPeriod
  lastHeartbeat := none
  heartbeatCount := 0
  nackfragCount := 0
  unknownSrcCount := 0
  nextSn := 0
  fragmentSize := cfg.fragmentSize
  mtu := cfg.mtu
  behaviour := BehaviourTable.new RtpsBehaviour.new
  pushMode := true
  coherentSetSn := none
  coherentSetArmed := false
  group := none
  gsnOf := SortedMap.empty
  lastGsn := none
  announcedCurrentGsn := 0
  inlineWriterQos := none
  inlineQosReaders := cfg.readerProxies.countP fun p => p.expectsInlineQos
  secureGroupInfo := false
  filteredReaders := cfg.readerProxies.countP fun p => p.filter.isSome
  nackResponseDelay := defaultNackResponseDelay
  nackSuppressionDuration := 0
  clock := 0
  sentAt := SortedMap.empty
  unackedWindow := 0
  unacked := []
  unackedBytes := 0
  ackRequested := false
  nextDestinationReaders := none

variable (w : ReliableWriter)

def view : SendView where
  guid := w.guid
  vendorId := w.vendorId
  readers := w.readerProxies.map ReaderProxy.toRemoteReader
  cache := w.cache
  fragmentSize := w.fragmentSize
  mtu := w.mtu
  behaviour := w.behaviour
  group := w.group
  gsnOf := w.gsnOf
  lastGsn := w.lastGsn
  inlineWriterQos := w.inlineWriterQos
  inlineQosReaders := w.inlineQosReaders
  secureGroupInfo := w.secureGroupInfo
  filteredReaders := w.filteredReaders
  lastWrittenSn := w.nextSn
  pushMode := w.pushMode
  heartbeatPeriod := w.heartbeatPeriod
  nackResponseDelay := w.nackResponseDelay
  nackSuppressionDuration := w.nackSuppressionDuration
  clock := w.clock

def lastWrittenSn : Int := w.nextSn

def sendLog : SendLog := ⟨w.heartbeatCount, w.sentAt⟩

def afterTurns (log : SendLog) (proxies : List ReaderProxy) : ReliableWriter :=
  { w with
    heartbeatCount := log.heartbeatCount
    sentAt := log.sentAt
    readerProxies := proxies }

def forProxies (turn : SendView → SendLog → ReaderProxy → TurnOutcome) :
    WriterOutcome (List AddressedDatagram) :=
  let r := Outcome.traverse (turn w.view) w.sendLog w.readerProxies
  (w.afterTurns r.1.1 r.1.2, r.2)

def proxyIndex (guid : Guid) : Option Nat :=
  w.readerProxies.findIdx? fun p => p.remoteReaderGuid = guid

/-! ### The flow-control window and the send times -/

def setUnackedWindow (octets : Nat) : ReliableWriter :=
  if octets = 0 then
    { w with unackedWindow := 0, unacked := [], unackedBytes := 0, ackRequested := false }
  else { w with unackedWindow := octets }

def windowFull : Bool :=
  0 < w.unackedWindow && w.unackedWindow ≤ w.unackedBytes

def askForAck : ReliableWriter × Bool :=
  if w.unackedWindow = 0 ∨ w.ackRequested ∨ w.unackedBytes * 2 < w.unackedWindow then (w, false)
  else ({ w with ackRequested := true, lastHeartbeat := none }, true)

def requestHeartbeat : ReliableWriter :=
  { w with ackRequested := true, lastHeartbeat := none }

def floorOf (keep : ReaderProxy → Bool) (f : ReaderProxy → Int) : Option Int :=
  ((w.readerProxies.filter keep).map f).min?

def releaseAcknowledgedWindow : ReliableWriter :=
  match w.floorOf (·.isReliable) (·.highestAckedSn) with
  | none => { w with unacked := [], unackedBytes := 0, ackRequested := false }
  | some floor =>
    let released := w.unacked.takeWhile fun e => e.1 ≤ floor
    { w with
      unacked := w.unacked.dropWhile fun e => e.1 ≤ floor
      unackedBytes := released.foldl (fun bytes e => bytes - e.2) w.unackedBytes
      ackRequested := released.isEmpty && w.ackRequested }

def setNackResponseDelay (delay : Nat) : ReliableWriter :=
  { w with nackResponseDelay := delay }

def setNackSuppressionDuration (duration : Nat) : ReliableWriter :=
  { w with
    nackSuppressionDuration := duration
    sentAt := if duration = 0 then SortedMap.empty else w.sentAt }

def tooSoon (sn : Int) (now : Nat) : Bool :=
  w.nackSuppressionDuration ≠ 0 &&
    (w.sentAt.get? sn).any fun sent => now - sent < w.nackSuppressionDuration

/-! ### Matching readers and trimming the cache -/

/-- Adds a proxy, in the place of one with the same GUID; the next tick sends a
HEARTBEAT. -/
def addReaderProxy (p : ReaderProxy) : ReliableWriter :=
  let replaced := (w.proxyIndex p.remoteReaderGuid).bind fun idx => w.readerProxies[idx]?
  { w with
    inlineQosReaders := w.inlineQosReaders + (if p.expectsInlineQos then 1 else 0) -
      (if replaced.any fun q : ReaderProxy => q.expectsInlineQos then 1 else 0)
    filteredReaders := w.filteredReaders + (if p.filter.isSome then 1 else 0) -
      (if replaced.any fun q : ReaderProxy => q.filter.isSome then 1 else 0)
    readerProxies :=
      match w.proxyIndex p.remoteReaderGuid with
      | some idx => w.readerProxies.set idx p
      | none => w.readerProxies ++ [p]
    lastHeartbeat := none }

def removeReaderProxy (guid : Guid) : ReliableWriter :=
  match w.proxyIndex guid with
  | none => w
  | some idx =>
    let removed := w.readerProxies[idx]?
    { w with
      readerProxies := w.readerProxies.eraseIdx idx
      inlineQosReaders := w.inlineQosReaders -
        (if removed.any fun q : ReaderProxy => q.expectsInlineQos then 1 else 0)
      filteredReaders := w.filteredReaders -
        (if removed.any fun q : ReaderProxy => q.filter.isSome then 1 else 0)
    }.releaseAcknowledgedWindow

/-- The number up to which every matched reader is done: acknowledged by a reliable
one, sent to a best-effort one. -/
def doneFloor : Option Int :=
  w.floorOf (fun _ => true) fun p => if p.isReliable then p.highestAckedSn else p.highestSentSn

/-- Removes what every reader is done with, the members of an open coherent set
kept. -/
def removeAcknowledged : ReliableWriter × Nat :=
  match w.cache.maxSn with
  | none => (w, 0)
  | some max =>
    let floor := w.doneFloor.getD max
    let floor :=
      match w.coherentSetSn with
      | some first => if 0 < first then min floor (first - 1) else floor
      | none => floor
    if floor < 1 then (w, 0)
    else
      let (cache, removed) := w.cache.removeUpTo floor
      ({ w with cache := cache }, removed)

def removeAcknowledgedLifecycle : ReliableWriter × Nat :=
  match w.cache.maxSn with
  | none => (w, 0)
  | some max =>
    let floor := w.doneFloor.getD max
    if floor < 1 then (w, 0)
    else
      let (cache, removed) := w.cache.removeUpToWhere floor fun c => !c.kind.isAliveKind
      ({ w with cache := cache }, removed)

def removeSamplesUpTo (upToExclusive : Int) : ReliableWriter × Nat :=
  let (cache, removed) := w.cache.removeUpTo (upToExclusive - 1)
  ({ w with cache := cache }, removed)

/-! ### Staging a change -/

def setNextDestinationReaders (readers : Option (List Guid)) : ReliableWriter :=
  { w with nextDestinationReaders := readers }

def setGroup (group : Option WriterGroup) : ReliableWriter :=
  { w with group := group }

def beginCoherentSet : ReliableWriter := { w with coherentSetArmed := true }

def nextChangeSn : WriterOutcome Int :=
  if w.nextSn < i64Max then ({ w with nextSn := w.nextSn + 1 }, .ok (w.nextSn + 1))
  else (w, .error (.valueOutOfRange "sequence number overflow"))

def claimCoherentSet (sn : Int) : ReliableWriter :=
  if w.coherentSetArmed ∧ w.coherentSetSn.isNone then { w with coherentSetSn := some sn } else w

def stampGroupChange : ReliableWriter × Option ChangeGroupInfo :=
  match w.group with
  | none => (w, none)
  | some g =>
    let (g, info) := g.stampChange
    ({ w with group := some g, lastGsn := some info.gsn }, some info)

/-- Remembers the group sequence number of a change; the oldest go beyond the
bound. -/
def noteGsn (sn : Int) : Option ChangeGroupInfo → ReliableWriter
  | none => w
  | some info =>
    let gsnOf := w.gsnOf.insert sn info.gsn
    { w with gsnOf := gsnOf.dropFirst (gsnOf.size - maxRememberedGsns) }

def sampleChange (sn : Int) (x : SampleWrite) (coherentSetSn : Option Int)
    (group : Option ChangeGroupInfo) (destinationReaders : Option (List Guid)) : CacheChange :=
  { CacheChange.alive sn x.payload with
    keyHash := x.keyHash
    inlineQos := x.inlineQos
    sourceTimestamp := x.sourceTimestamp
    coherentSetSn := coherentSetSn
    group := group
    nonStandardPayload := x.nonStandard
    destination := x.destination
    destinationReaders := destinationReaders }

/-- `stage_sample`: allocates the number and puts the change into the history.  A
refused change gives the number back. -/
def stageSample (x : SampleWrite) : WriterOutcome Int :=
  let readers := w.nextDestinationReaders
  { w with nextDestinationReaders := none }.nextChangeSn.andThen fun w sn =>
    let w := w.claimCoherentSet sn
    let (w, group) := w.stampGroupChange
    let w := w.noteGsn sn group
    match w.cache.insert (sampleChange sn x w.coherentSetSn group readers) with
    | (cache, .error _) =>
      ({ w with cache := cache, nextSn := sn - 1 },
        .error (.valueOutOfRange "history cache full or duplicate"))
    | (cache, .ok _) =>
      let w := { w with cache := cache }
      if 0 < w.unackedWindow ∧ w.readerProxies.any fun p => p.isReliable then
        ({ w with
            unacked := w.unacked ++ [(sn, x.payload.length)]
            unackedBytes := w.unackedBytes + x.payload.length }, .ok sn)
      else (w, .ok sn)

/-! ### Writing a sample -/

def writeStaged (x : SampleWrite) : WriterOutcome (List AddressedDatagram) :=
  (w.stageSample x).andThen fun w sn =>
    if w.pushMode then w.forProxies (·.pushTo sn x.payload) else (w, .ok [])

def writeStamped (payload : Octets) (ts : Option HeTimestamp) :
    WriterOutcome (List AddressedDatagram) :=
  w.writeStaged ⟨payload, ts, none, none, false, none⟩

def write (payload : Octets) : WriterOutcome (List AddressedDatagram) :=
  w.writeStamped payload none

def writeWithHeartbeatTo (payload : Octets) (now : Nat) (ts : Option HeTimestamp)
    (destination : Option GuidPrefix) : WriterOutcome (List AddressedDatagram) :=
  (w.stageSample ⟨payload, ts, none, none, false, destination⟩).andThen fun w sn =>
    (w.forProxies (·.pushWithHeartbeat sn payload now)).andThen fun w out =>
      ({ w with lastHeartbeat := some now }, .ok out)

/-! ### Lifecycle changes and the end of a coherent set -/

def lifecycleChange (sn : Int) (x : LifecycleWrite) (kind : ChangeKind)
    (coherentSetSn : Option Int) (group : Option ChangeGroupInfo) : CacheChange :=
  { CacheChange.lifecycle sn x.keyHash x.serializedKey kind with
    sourceTimestamp := x.sourceTimestamp
    coherentSetSn := coherentSetSn
    group := group
    inlineQos := x.inlineQos }

def stageLifecycle (x : LifecycleWrite) : WriterOutcome Int :=
  w.nextChangeSn.andThen fun w sn =>
    match x.kind? with
    | none =>
      (w, .error (.valueOutOfRange "lifecycle send requires DISPOSED or UNREGISTERED bit"))
    | some kind =>
      let w := w.claimCoherentSet sn
      let (w, group) := w.stampGroupChange
      let w := w.noteGsn sn group
      match w.cache.insert (lifecycleChange sn x kind w.coherentSetSn group) with
      | (cache, .error _) =>
        ({ w with cache := cache },
          .error (.valueOutOfRange "history cache full or duplicate (lifecycle)"))
      | (cache, .ok _) => ({ w with cache := cache }, .ok sn)

def writeLifecycle (x : LifecycleWrite) : WriterOutcome (List AddressedDatagram) :=
  (w.stageLifecycle x).andThen fun w sn => w.forProxies (·.drainTurn x.keyHash sn)

def emitCoherentSetEnd (change : CacheChange) : WriterOutcome (List AddressedDatagram) :=
  match w.cache.insert change with
  | (cache, .error _) =>
    ({ w with cache := cache },
      .error (.valueOutOfRange "history cache full or duplicate (coherent set end)"))
  | (cache, .ok _) =>
    { w with cache := cache }.forProxies (·.drainTurn zeroKeyHash change.sequenceNumber)

def endCoherentSet : WriterOutcome (List AddressedDatagram) :=
  let closed := { w with coherentSetArmed := false, coherentSetSn := none }
  if w.coherentSetSn.isNone then (closed, .ok [])
  else closed.nextChangeSn.andThen fun w sn => w.emitCoherentSetEnd (CacheChange.setEnd sn)

def endGroupCoherentSet (e : GroupSetEnd) : WriterOutcome (List AddressedDatagram) :=
  let first := w.coherentSetSn
  { w with coherentSetArmed := false, coherentSetSn := none }.nextChangeSn.andThen fun w sn =>
    { w with lastGsn := some e.ecsGsn }.emitCoherentSetEnd (CacheChange.groupSetEnd sn first e)

variable (now : Nat) (src : Guid)

def tickPlan : SendView.TickPlan :=
  let should := w.lastHeartbeat.all fun last => w.heartbeatPeriod ≤ now - last
  { now := now
    shouldHeartbeat := should
    emitHb := should && !w.cache.isEmpty
    groupHb := should && w.group.any fun g =>
      w.announcedCurrentGsn < g.currentGsn && w.lastGsn ≠ some g.currentGsn }

def tickStart : ReliableWriter :=
  { w with
    clock := max w.clock now
    sentAt :=
      if w.nackSuppressionDuration = 0 then w.sentAt
      else w.sentAt.filter fun sn _ => w.cache.minSn.getD i64Max ≤ sn }

def noteHeartbeats (emitted : Bool) : ReliableWriter :=
  if emitted then
    { w with
      lastHeartbeat := some now
      announcedCurrentGsn :=
        (w.group.map fun g => max w.announcedCurrentGsn g.currentGsn).getD w.announcedCurrentGsn }
  else w

def tick : WriterOutcome (List AddressedDatagram) :=
  let plan := w.tickPlan now
  let w := w.tickStart now
  match Outcome.traverse (w.view.tickTurn plan) (w.sendLog, false) w.readerProxies with
  | (((log, _), proxies), .error e) => (w.afterTurns log proxies, .error e)
  | (((log, emitted), proxies), .ok out) =>
    ((w.afterTurns log proxies).noteHeartbeats now emitted, .ok out)

/-- `liveliness_heartbeat`: a final HEARTBEAT with the liveliness flag to every
matched reader. -/
def livelinessHeartbeat : WriterOutcome (List AddressedDatagram) :=
  w.forProxies SendView.livelinessTurn

/-! ### Incoming ACKNACKs and NACK_FRAGs -/

def modifyProxyAt (idx : Nat) (f : ReaderProxy → ReaderProxy) : ReliableWriter :=
  { w with readerProxies := w.readerProxies.modify idx f }

def unackedTail (p : ReaderProxy) : List Int :=
  match w.cache.maxSn with
  | none => []
  | some max =>
    if p.unackedChanges max then
      (Int.range (p.highestAckedSn + 1) (max + 1)).filter fun sn => !w.tooSoon sn now
    else []

def acknackProxy (base : Int) (p : ReaderProxy) : ReaderProxy :=
  (p.acknackReceived now w.cache.isEmpty w.heartbeatPeriod).ackedChangesSet base

def requestProxy (base : Int) (requested : List Int) (windowCut : Bool) (p : ReaderProxy) :
    ReaderProxy :=
  let full := windowCut || rtpsBitmapMaxBits ≤ requested.length
  let p := p.requestedChangesSet (requested.filter fun sn => base ≤ sn && !w.tooSoon sn now)
  let p := if requested.isEmpty then p.requestedChangesSet (w.unackedTail now p) else p
  (p.noteNack now).noteWindow full

def handleAcknackWindow (base : Int) (requested : List Int) (windowCut : Bool) : ReliableWriter :=
  let w := { w with clock := max w.clock now }
  match w.proxyIndex src with
  | none => { w with unknownSrcCount := satInc w.unknownSrcCount }
  | some idx =>
    let w := (w.modifyProxyAt idx (w.acknackProxy now base)).releaseAcknowledgedWindow
    w.modifyProxyAt idx (w.requestProxy now base requested windowCut)

def handleAcknackAt (base : Int) (requested : List Int) : ReliableWriter :=
  w.handleAcknackWindow now src base requested false

def handleAcknack (base : Int) (requested : List Int) : ReliableWriter :=
  w.handleAcknackAt w.clock src base requested

def handleAcknackSetAt (set : SequenceNumberSet) : ReliableWriter :=
  w.handleAcknackWindow now src set.bitmapBase set.iterSet (rtpsBitmapMaxBits ≤ set.numBits)

def noteAcknackFinalFlag (finalFlag : Bool) : ReliableWriter :=
  if finalFlag then w
  else
    match w.proxyIndex src with
    | none => w
    | some idx => w.modifyProxyAt idx ReaderProxy.askHeartbeat

def handleNackfrag (nf : NackFragSubmessage) : ReliableWriter :=
  if nf.writerId ≠ w.guid.entityId then w
  else
    match w.proxyIndex src with
    | none => { w with unknownSrcCount := satInc w.unknownSrcCount }
    | some idx =>
      { w with nackfragCount := wrapSuccI32 w.nackfragCount }.modifyProxyAt idx
        (·.requestedFragmentsSet nf.writerSn nf.fragmentNumberState.iterSet)

end ReliableWriter
end ZeroDds.Rtps
