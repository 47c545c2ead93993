/-
The SEDP stack.

A submessage goes to one of five reliable readers; what the reader releases is split into
announcements and disposes, and the two lists go into the cache or the topics table one after the
other.
-/
import ZeroDds.Discovery.EndpointsCache
import ZeroDds.Rtps.Matching
import ZeroDds.Rtps.ParameterBytes

namespace ZeroDds.Discovery

open Rtps

inductive SedpReaderError where
  | invalidPayload (reason : String)
  | wire (e : WireError)
deriving DecidableEq

/-- The decoders of the announcements; that of a topic depends on the vendor that sent it. -/
structure SedpCodec (P S T : Type) where
  publication : Octets → Except SedpReaderError P
  subscription : Octets → Except SedpReaderError S
  topic : VendorId → Octets → Except SedpReaderError T

structure Announced (D : Type) where
  data : D
  sequence : Int
deriving DecidableEq

structure SedpDelta (D : Type) where
  added : List (Announced D) := []
  removed : List Guid := []
deriving DecidableEq

def isAliveKind : ChangeKind → Bool
  | .alive | .aliveFiltered => true
  | .notAliveDisposed | .notAliveUnregistered | .notAliveDisposedUnregistered => false

def serializedKey (payload : Octets) : Option ParameterList :=
  match payload with
  | b0 :: b1 :: _ :: _ :: body =>
    if b0 = 0x00 ∧ b1 = 0x03 then (ParameterList.fromBytes body true).toOption
    else if b0 = 0x00 ∧ b1 = 0x02 then (ParameterList.fromBytes body false).toOption
    else none
  | _ => none

def disposedEndpoint (s : DeliveredSample) : Option Guid :=
  match s.keyHash with
  | some h => some (Guid.fromBytes h.toList)
  | none => do
    let pl ← serializedKey s.payload
    let guid ← pl.find Pid.endpointGuid
    Guid.ofOctets guid.value

def VendorId.cyclone : VendorId := ⟨#v[0x01, 0x10]⟩

def topicKey (pl : ParameterList) (sender : VendorId) : Option Guid := do
  let guid ← (pl.find Pid.endpointGuid).or
    (if sender = VendorId.cyclone then pl.find Pid.cycloneTopicGuid else none)
  Guid.ofOctets guid.value

def disposedTopic (s : DeliveredSample) (sender : VendorId) : Option Guid :=
  match s.keyHash with
  | some h => some (Guid.fromBytes h.toList)
  | none => do
    let pl ← serializedKey s.payload
    topicKey pl sender

section Partition

variable {D : Type}

/-- One released sample as an item of the delta: an announcement, a dispose, or a dispose that
names nothing. -/
inductive SedpItem (D : Type) where
  | announced (a : Announced D)
  | disposed (g : Guid)
  | nothing
deriving DecidableEq

abbrev ReadSample (D : Type) := DeliveredSample → Except SedpReaderError (SedpItem D)

def SedpDelta.push (delta : SedpDelta D) : SedpItem D → SedpDelta D
  | .announced a => { delta with added := delta.added ++ [a] }
  | .disposed g => { delta with removed := delta.removed ++ [g] }
  | .nothing => delta

/-- The loop of the `partition_*_samples` functions; the first sample that cannot be read ends
it. -/
def partitionFrom (read : ReadSample D) (delta : SedpDelta D) :
    List DeliveredSample → Except SedpReaderError (SedpDelta D)
  | [] => .ok delta
  | s :: rest =>
    match read s with
    | .error e => .error e
    | .ok item => partitionFrom read (delta.push item) rest

def readEndpoint (decode : Octets → Except SedpReaderError D) : ReadSample D := fun s =>
  if isAliveKind s.kind then
    (decode s.payload).map fun data => .announced ⟨data, s.sequenceNumber⟩
  else
    match disposedEndpoint s with
    | some g => .ok (.disposed g)
    | none => .ok .nothing

def readTopic (decode : VendorId → Octets → Except SedpReaderError D) (sender : VendorId) :
    ReadSample D := fun s =>
  if isAliveKind s.kind then
    (decode sender s.payload).map fun data => .announced ⟨data, s.sequenceNumber⟩
  else
    match disposedTopic s sender with
    | some g => .ok (.disposed g)
    | none => .error (.invalidPayload "topic dispose names no topic")

end Partition

section Codec

variable {P S T : Type} (codec : SedpCodec P S T) (samples : List DeliveredSample)

def partitionPublicationSamples : Except SedpReaderError (SedpDelta P) :=
  partitionFrom (readEndpoint codec.publication) {} samples

def partitionSubscriptionSamples : Except SedpReaderError (SedpDelta S) :=
  partitionFrom (readEndpoint codec.subscription) {} samples

def partitionTopicSamples (sender : VendorId) : Except SedpReaderError (SedpDelta T) :=
  partitionFrom (readTopic codec.topic sender) {} samples

end Codec

inductive SedpReader where
  | publications
  | subscriptions
  | securePublications
  | secureSubscriptions
  | topics
deriving DecidableEq, Repr

namespace SedpReader

def readerId : SedpReader → EntityId
  | publications => ⟨#v[0x00, 0x00, 0x03, 0xc7]⟩
  | subscriptions => ⟨#v[0x00, 0x00, 0x04, 0xc7]⟩
  | securePublications => ⟨#v[0xff, 0x00, 0x03, 0xc7]⟩
  | secureSubscriptions => ⟨#v[0xff, 0x00, 0x04, 0xc7]⟩
  | topics => ⟨#v[0x00, 0x00, 0x02, 0xc7]⟩

def writerId : SedpReader → EntityId
  | publications => ⟨#v[0x00, 0x00, 0x03, 0xc2]⟩
  | subscriptions => ⟨#v[0x00, 0x00, 0x04, 0xc2]⟩
  | securePublications => ⟨#v[0xff, 0x00, 0x03, 0xc2]⟩
  | secureSubscriptions => ⟨#v[0xff, 0x00, 0x04, 0xc2]⟩
  | topics => ⟨#v[0x00, 0x00, 0x02, 0xc2]⟩

/-- `routes_to_reader`: by reader id, and by writer id where the reader is not named. -/
def routesTo (r : SedpReader) (readerId writerId : EntityId) : Bool :=
  readerId = r.readerId || (readerId = EntityId.unknown && writerId = r.writerId)

def route (readerId writerId : EntityId) : Option SedpReader :=
  [publications, subscriptions, securePublications, secureSubscriptions, topics].find?
    fun r => r.routesTo readerId writerId

/-- The bit of the builtin endpoint set by which a participant announces the writer. -/
def announcerFlag : SedpReader → Nat
  | publications => 2
  | subscriptions => 4
  | securePublications => 16
  | secureSubscriptions => 18
  | topics => 28

def reportsUnmatched : SedpReader → Bool
  | publications | subscriptions | topics => true
  | securePublications | secureSubscriptions => false

end SedpReader

structure SedpEvents (P S T : Type) where
  new_publications : List P := []
  new_subscriptions : List S := []
  removed_publications : List Guid := []
  removed_subscriptions : List Guid := []
  unmatched_writers : List Guid := []
  new_topics : List T := []
  removed_topics : List T := []
  refused : List (Guid × SedpReaderError) := []
deriving DecidableEq

structure DiscoveredEndpointsCache (P S : Type) where
  publications : EndpointTable P
  subscriptions : EndpointTable S
  evicted : Nat

def DiscoveredEndpointsCache.default (P S : Type) : DiscoveredEndpointsCache P S :=
  ⟨.new 256, .new 256, 0⟩

structure SedpStack (P S T : Type) where
  localPrefix : GuidPrefix
  readers : SedpReader → ReliableReader
  cache : DiscoveredEndpointsCache P S
  topics : SortedMap Guid T

def sedpReader (guid : Guid) (vendorId : VendorId) (writerProxies : List WriterProxy) :
    ReliableReader :=
  .new
    { guid, vendorId, writerProxies
      maxSamplesPerProxy := 256
      heartbeatResponseDelay := 500000000
      assemblerCaps := .default }

namespace SedpReader

/-- The reader of a new stack.  Those of the endpoints are made with a placeholder for a writer,
which is taken out at once. -/
def initial (localPrefix : GuidPrefix) (vendorId : VendorId) (r : SedpReader) : ReliableReader :=
  let guid : Guid := ⟨localPrefix, r.readerId⟩
  let placeholder : Guid := ⟨⟨Vector.replicate 12 0⟩, r.writerId⟩
  match r with
  | topics => sedpReader guid vendorId []
  | publications | subscriptions | securePublications | secureSubscriptions =>
    (sedpReader guid vendorId [.new placeholder [] [] true]).removeWriterProxy placeholder

def matchParticipant (r : SedpReader) (reader : ReliableReader) (remotePrefix : GuidPrefix)
    (unicast : List Locator) (flags : UInt32) : ReliableReader :=
  if flags.toNat.testBit r.announcerFlag then
    reader.addWriterProxy (.new ⟨remotePrefix, r.writerId⟩ unicast [] true)
  else reader

end SedpReader

structure Walked where
  sourceGuidPrefix : GuidPrefix
  source_vendor_id : VendorId
  destGuidPrefix : GuidPrefix
  sub : Submessage
deriving DecidableEq

def writerSubmessage : Submessage → Option (EntityId × EntityId)
  | .data d => some (d.readerId, d.writerId)
  | .dataFrag df => some (df.readerId, df.writerId)
  | .heartbeat h => some (h.readerId, h.writerId)
  | .gap g => some (g.readerId, g.writerId)
  | .infoDst _ | .infoTs _ | .ackNack _ | .nackFrag _ => none

def isData : Submessage → Bool
  | .data _ => true
  | _ => false

def readerOp (sourcePrefix : GuidPrefix) (now : Nat) : Submessage → Option ReaderOp
  | .data d => some (.data sourcePrefix d none none)
  | .dataFrag df => some (.dataFrag sourcePrefix df none none)
  | .heartbeat h => some (.heartbeat sourcePrefix h now)
  | .gap g => some (.gap sourcePrefix g)
  | .infoDst _ | .infoTs _ | .ackNack _ | .nackFrag _ => none

def receive (r : ReliableReader) (sourcePrefix : GuidPrefix) (now : Nat) (sub : Submessage) :
    ReliableReader × List DeliveredSample :=
  match readerOp sourcePrefix now sub with
  | none => (r, [])
  | some op => ((r.step op).1, (r.step op).2.delivered)

section Absorb

variable {D : Type} [Endpoint D]

/-- The first loop of `absorb_pub_delta`: the table, the evictions and what is reported. -/
def absorbAdded (now : Nat) (t : EndpointTable D) (evicted : Nat) :
    List (Announced D) → EndpointTable D × Nat × List D
  | [] => (t, evicted, [])
  | a :: rest =>
    match t.insertAnnounced a.data now a.sequence with
    | none => absorbAdded now t evicted rest
    | some (t, _, gone) =>
      let (t, evicted, reported) :=
        absorbAdded now t (if gone then satInc evicted else evicted) rest
      (t, evicted, a.data :: reported)

omit [Endpoint D] in
def absorbRemoved (t : EndpointTable D) (removed : List Guid) : EndpointTable D :=
  removed.foldl EndpointTable.remove t

end Absorb

namespace SedpStack

variable {P S T : Type} [Endpoint P] [Endpoint S] [Endpoint T]

def new (localPrefix : GuidPrefix) (vendorId : VendorId) : SedpStack P S T where
  localPrefix := localPrefix
  readers := SedpReader.initial localPrefix vendorId
  cache := .default P S
  topics := .empty

variable (st : SedpStack P S T)

/-- `on_participant_discovered`: the readers are matched, unless the participant is this one. -/
def onParticipantDiscovered (remotePrefix : GuidPrefix) (unicast : List Locator) (flags : UInt32) :
    SedpStack P S T :=
  if remotePrefix = st.localPrefix then st
  else
    { st with
      readers := fun r => r.matchParticipant (st.readers r) remotePrefix unicast flags }

def setReader (r : SedpReader) (reader : ReliableReader) : SedpStack P S T :=
  { st with readers := Function.update st.readers r reader }

def absorbPubDelta (writer : Guid) (delta : Except SedpReaderError (SedpDelta P)) (now : Nat)
    (events : SedpEvents P S T) : SedpStack P S T × SedpEvents P S T :=
  match delta with
  | .error e => (st, { events with refused := events.refused ++ [(writer, e)] })
  | .ok delta =>
    let (t, evicted, reported) :=
      absorbAdded now st.cache.publications st.cache.evicted delta.added
    ({ st with
        cache := { st.cache with publications := absorbRemoved t delta.removed, evicted } },
      { events with
        new_publications := events.new_publications ++ reported
        removed_publications := events.removed_publications ++ delta.removed })

def absorbSubDelta (writer : Guid) (delta : Except SedpReaderError (SedpDelta S)) (now : Nat)
    (events : SedpEvents P S T) : SedpStack P S T × SedpEvents P S T :=
  match delta with
  | .error e => (st, { events with refused := events.refused ++ [(writer, e)] })
  | .ok delta =>
    let (t, evicted, reported) :=
      absorbAdded now st.cache.subscriptions st.cache.evicted delta.added
    ({ st with
        cache := { st.cache with subscriptions := absorbRemoved t delta.removed, evicted } },
      { events with
        new_subscriptions := events.new_subscriptions ++ reported
        removed_subscriptions := events.removed_subscriptions ++ delta.removed })

def removeTopic (acc : SortedMap Guid T × List T) (g : Guid) : SortedMap Guid T × List T :=
  match acc.1.get? g with
  | none => acc
  | some gone => (acc.1.erase g, acc.2 ++ [gone])

def absorbTopicDelta (writer : Guid) (delta : Except SedpReaderError (SedpDelta T))
    (events : SedpEvents P S T) : SedpStack P S T × SedpEvents P S T :=
  match delta with
  | .error e => (st, { events with refused := events.refused ++ [(writer, e)] })
  | .ok delta =>
    let topics := delta.added.foldl (fun m a => m.insert (Endpoint.key a.data) a.data) st.topics
    let (topics, gone) := delta.removed.foldl removeTopic (topics, [])
    ({ st with topics },
      { events with
        new_topics := events.new_topics ++ delta.added.map Announced.data
        removed_topics := events.removed_topics ++ gone })

variable (codec : SedpCodec P S T) (st : SedpStack P S T)

def absorb (r : SedpReader) (writer : Guid) (sender : VendorId) (now : Nat)
    (events : SedpEvents P S T) (samples : List DeliveredSample) :
    SedpStack P S T × SedpEvents P S T :=
  match r with
  | .publications | .securePublications =>
    st.absorbPubDelta writer (partitionPublicationSamples codec samples) now events
  | .subscriptions | .secureSubscriptions =>
    st.absorbSubDelta writer (partitionSubscriptionSamples codec samples) now events
  | .topics => st.absorbTopicDelta writer (partitionTopicSamples codec samples sender) events

def addressed (w : Walked) : Bool :=
  w.destGuidPrefix = st.localPrefix || w.destGuidPrefix = ⟨Vector.replicate 12 0⟩

def target (w : Walked) : Option (SedpReader × Guid) :=
  if st.addressed w then do
    let (readerId, writerId) ← writerSubmessage w.sub
    let r ← SedpReader.route readerId writerId
    some (r, ⟨w.sourceGuidPrefix, writerId⟩)
  else none

def noteUnmatched (r : SedpReader) (writer : Guid) (sub : Submessage) (events : SedpEvents P S T) :
    SedpEvents P S T :=
  if isData sub && r.reportsUnmatched &&
      !((st.readers r).writerProxies.any fun s => s.proxy.remoteWriterGuid = writer) then
    { events with unmatched_writers := events.unmatched_writers ++ [writer] }
  else events

def handleSubmessage (now : Nat) (acc : SedpStack P S T × SedpEvents P S T) (w : Walked) :
    SedpStack P S T × SedpEvents P S T :=
  match acc.1.target w with
  | none => acc
  | some (r, writer) =>
    let (reader, samples) := receive (acc.1.readers r) w.sourceGuidPrefix now w.sub
    (acc.1.setReader r reader).absorb codec r writer w.source_vendor_id now
      (acc.1.noteUnmatched r writer w.sub acc.2) samples

def handleDatagram (walk : List Walked) (now : Nat) : SedpStack P S T × SedpEvents P S T :=
  walk.foldl (handleSubmessage codec now) (st, {})

end SedpStack

end ZeroDds.Discovery
