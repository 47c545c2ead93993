/-
What a reader keeps for one writer.

The proxy, the receive cache, the point up to which samples have been handed out, and the writer's
open coherent set.
-/
import ZeroDds.Rtps.FragmentAssembler
import ZeroDds.Rtps.HistoryCache
import ZeroDds.Rtps.WriterProxy

namespace ZeroDds.Rtps

structure SnRanges where
  ranges : List (Int × Int)
  deriving DecidableEq

namespace SnRanges

def maxRanges : Nat := 256

def empty : SnRanges := ⟨[]⟩

def insertAt (r : SnRanges) (sn : Int) : SnRanges × Bool :=
  let left := r.ranges.takeWhile fun x => x.2 < sn
  let right := r.ranges.drop left.length
  if right.head?.any fun x => x.1 ≤ sn then (r, false)
  else
    match left.getLast?.filter (fun x => x.2 + 1 = sn),
        right.head?.filter (fun x => x.1 = sn + 1) with
    | some l, some h => (⟨left.dropLast ++ (l.1, h.2) :: right.tail⟩, true)
    | some l, none => (⟨left.dropLast ++ (l.1, sn) :: right⟩, true)
    | none, some h => (⟨left ++ (sn, h.2) :: right.tail⟩, true)
    | none, none =>
      let ranges := left ++ (sn, sn) :: right
      (⟨if ranges.length > maxRanges then ranges.tail else ranges⟩, true)

def insert (r : SnRanges) (sn : Int) : SnRanges × Bool :=
  match r.ranges.getLast? with
  | some last =>
    if sn = last.2 + 1 then (⟨r.ranges.dropLast ++ [(last.1, sn)]⟩, true) else r.insertAt sn
  | none => r.insertAt sn

end SnRanges

/-- An open coherent set: its first number and how many of the writer's changes
from there on the reader has. -/
structure CoherentTrack where
  first : Int
  counted : Int
  deriving DecidableEq

namespace CoherentTrack

def completeBefore (t : CoherentTrack) (stop : Int) : Bool := t.counted = stop - t.first

end CoherentTrack

structure WriterProxyState where
  proxy : WriterProxy
  receivedCache : HistoryCache
  deliveredUpTo : Int
  assembler : FragmentAssembler
  pendingAcknackSince : Option Nat
  lastHeartbeatAt : Option Nat
  deliveredAny : Bool
  lostChanges : Nat
  coherent : Option CoherentTrack
  committed : SnRanges
  forwarderTrusted : Bool
  dataMaxSize : Option Nat
  deriving DecidableEq

structure DeliveredSample where
  writerGuid : Guid
  sequenceNumber : Int
  payload : Octets
  kind : ChangeKind
  keyHash : Option KeyHash
  sourceTimestamp : Option HeTimestamp
  coherentSetSn : Option Int
  coherentSetEnd : Bool
  relatedSampleIdentity : Option SampleIdentityBytes
  eprosimaRelatedSampleIdentity : Option SampleIdentityBytes
  group : Option ChangeGroupInfo
  coherentSetComplete : Option Bool
  originalWriter : Option (Guid × Int)
  forwardedBy : Option Guid
  nonStandardPayload : Bool
  inlineQosOverride : InlineQosOverride
  deriving DecidableEq

namespace DeliveredSample

/-- The delivery put in front of the change that ended an incomplete set without
being an end-of-set itself. -/
def incompleteSetEnd (writer : Guid) (sn : Int) : DeliveredSample where
  writerGuid := writer
  sequenceNumber := sn
  payload := []
  kind := .alive
  keyHash := none
  sourceTimestamp := none
  coherentSetSn := none
  coherentSetEnd := true
  relatedSampleIdentity := none
  eprosimaRelatedSampleIdentity := none
  group := none
  coherentSetComplete := some false
  originalWriter := none
  forwardedBy := none
  nonStandardPayload := false
  inlineQosOverride := InlineQosOverride.default

end DeliveredSample

variable (qos : Option ParameterList)

def relatedSampleIdentityOf : Option SampleIdentityBytes :=
  qos.bind fun pl => ((InlineQos.findRelatedSampleIdentity pl pl.littleEndian).toOption).join

def eprosimaRelatedSampleIdentityOf : Option SampleIdentityBytes :=
  qos.bind fun pl => InlineQos.findEprosimaRelatedSampleIdentity pl pl.littleEndian

def originalWriterOf : Option (Guid × Int) :=
  qos.bind fun pl =>
    ((InlineQos.findOriginalWriterInfo pl pl.littleEndian).toOption).join.map fun (guid, sn) =>
      (Guid.fromBytes guid, sn)

def coherentSetOf : Option Int :=
  qos.bind fun pl => InlineQos.findCoherentSet pl pl.littleEndian

/-- Whether the in-line QoS names target readers and `own` is none of them; a
malformed list addresses everyone. -/
def addressedElsewhere (own : Guid) : Bool :=
  qos.any fun pl => !((InlineQos.directedWriteAccepts pl own.toBytes).toOption.getD true)

def deliveredSampleOf (writer : Guid) (change : CacheChange) : DeliveredSample where
  writerGuid := writer
  sequenceNumber := change.sequenceNumber
  payload := change.payload
  kind := change.kind
  keyHash := change.keyHash
  sourceTimestamp := change.sourceTimestamp
  coherentSetSn := change.coherentSetSn
  coherentSetEnd := change.coherentSetEnd
  relatedSampleIdentity := relatedSampleIdentityOf change.inlineQos
  eprosimaRelatedSampleIdentity := eprosimaRelatedSampleIdentityOf change.inlineQos
  group := change.group
  coherentSetComplete := none
  originalWriter := originalWriterOf change.inlineQos
  forwardedBy := none
  nonStandardPayload := change.nonStandardPayload
  inlineQosOverride := InlineQosOverride.of change.inlineQos

namespace WriterProxyState

def new (proxy : WriterProxy) (maxSamples : Nat) (caps : AssemblerCaps) : WriterProxyState where
  proxy := proxy
  receivedCache := HistoryCache.new maxSamples
  deliveredUpTo := 0
  assembler := FragmentAssembler.new caps
  pendingAcknackSince := none
  lastHeartbeatAt := none
  deliveredAny := false
  lostChanges := 0
  coherent := none
  committed := SnRanges.empty
  forwarderTrusted := true
  dataMaxSize := none

variable (s : WriterProxyState)

/-- Follows the writer's coherent set across a change that is handed out; the
second component says whether the set the change ends was complete. -/
def followCoherentSet (sn : Int) (set : Option Int) (stop grouped : Bool) :
    WriterProxyState × Option Bool :=
  if grouped then (s, none)
  else if stop then
    ({ s with coherent := none }, s.coherent.map fun t => t.completeBefore sn)
  else
    match s.coherent, set with
    | some t, some first =>
      if t.first = first then
        ({ s with coherent := some { t with counted := t.counted + 1 } }, none)
      else ({ s with coherent := some ⟨first, 1⟩ }, some (t.completeBefore sn))
    | tracked, set =>
      ({ s with coherent := set.map fun first => ⟨first, 1⟩ },
        tracked.map fun t => t.completeBefore sn)

def followCoherentSetPast : WriterProxyState :=
  { s with coherent := s.coherent.map fun t => { t with counted := t.counted + 1 } }

def noteLost (lost : Nat) : WriterProxyState :=
  if s.deliveredAny then { s with lostChanges := satAdd s.lostChanges lost } else s

def loseBefore (first : Int) : WriterProxyState :=
  let (proxy, lost) := s.proxy.lostChangesUpdate first
  { s with proxy := proxy }.noteLost lost

def displaceFor (sn : Int) : WriterProxyState :=
  if s.receivedCache.kind = .keepAll ∧ s.receivedCache.len ≥ s.receivedCache.maxSamples ∧
      (s.receivedCache.maxSn.any fun highest => sn < highest) then
    match s.receivedCache.removeHighest with
    | (cache, some displaced) =>
      { s with
        receivedCache := cache
        proxy := s.proxy.unreceiveChangeSet displaced.sequenceNumber }
    | (cache, none) => { s with receivedCache := cache }
  else s

/-- Stores a change its proxy has marked received; `false` when there was no room
for it. -/
def storeReceived (change : CacheChange) : WriterProxyState × Bool :=
  let s := s.displaceFor change.sequenceNumber
  match s.receivedCache.insert change with
  | (cache, .ok _) => ({ s with receivedCache := cache }, true)
  | (cache, .error _) =>
    ({ s with
        receivedCache := cache
        proxy := s.proxy.unreceiveChangeSet change.sequenceNumber }, false)

def nextChangeIsCached : Bool :=
  (s.receivedCache.get (s.deliveredUpTo + 1)).isSome

def fullForTheConsumer : Bool :=
  s.receivedCache.len ≥ s.receivedCache.maxSamples && s.nextChangeIsCached &&
    s.proxy.hasMissingChanges

def horizon : Int :=
  max (max (s.proxy.firstAvailableSn - 1) s.proxy.knownUpTo)
    (max ((s.proxy.received ∪ s.proxy.irrelevant).max.unbotD 0) (s.receivedCache.maxSn.getD 0))

end WriterProxyState

/-- The state of one writer, the consumer's remaining room (`none` for no bound)
and what has been handed out. -/
structure Delivery where
  state : WriterProxyState
  budget : Option Nat
  out : List DeliveredSample
  deriving DecidableEq

namespace Delivery

def setProxy (d : Delivery) (f : WriterProxy → WriterProxy) : Delivery :=
  { d with state := { d.state with proxy := f d.state.proxy } }

def spend (d : Delivery) : Delivery := { d with budget := d.budget.map fun left => left - 1 }

def handOut (d : Delivery) (sample : DeliveredSample) : Delivery :=
  let (s, ended) := d.state.followCoherentSet sample.sequenceNumber sample.coherentSetSn
    sample.coherentSetEnd sample.group.isSome
  let released :=
    if sample.coherentSetEnd then [{ sample with coherentSetComplete := ended }]
    else if ended = some false then
      [DeliveredSample.incompleteSetEnd s.proxy.remoteWriterGuid sample.sequenceNumber, sample]
    else [sample]
  { d with state := s, out := d.out ++ released }

def collectStep (bestEffort : Bool) (d : Delivery) : Option Delivery :=
  let next := d.state.deliveredUpTo + 1
  match d.state.receivedCache.get next with
  | some change =>
    if d.budget = some 0 then none
    else
      let d := d.handOut (deliveredSampleOf d.state.proxy.remoteWriterGuid change)
      some { d with
        state := { d.state with
          deliveredUpTo := next
          deliveredAny := true
          receivedCache := (d.state.receivedCache.removeUpTo next).1 } }.spend
  | none =>
    if d.state.proxy.isKnown next then
      some { d with state := { d.state with deliveredUpTo := next }.followCoherentSetPast }
    else if next < d.state.proxy.firstAvailableSn then
      some { d with state := { d.state with deliveredUpTo := next } }
    else if bestEffort then
      match d.state.receivedCache.minSn with
      | some low =>
        if next < low then
          some { d with state := { d.state.loseBefore low with deliveredUpTo := low - 1 } }
        else none
      | none => none
    else none

def collectLoop (bestEffort : Bool) : Nat → Delivery → Delivery
  | 0, d => d
  | fuel + 1, d =>
    match d.collectStep bestEffort with
    | some d' => collectLoop bestEffort fuel d'
    | none => d

/-- `collect_in_order_into`.  Every turn moves `deliveredUpTo`, which never passes
the horizon, so the distance to it bounds the turns. -/
def collectInOrder (bestEffort : Bool) (d : Delivery) : Delivery :=
  collectLoop bestEffort (d.state.horizon - d.state.deliveredUpTo).toNat d

end Delivery
end ZeroDds.Rtps
