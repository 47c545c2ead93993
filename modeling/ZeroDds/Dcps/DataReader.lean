/-
The DataReader.

Admission of what arrived into the sample cache, and the reads and takes that hand it out.
-/
import ZeroDds.Dcps.InstanceTracker

namespace ZeroDds.Dcps

open Rtps (Octets HeTimestamp)

/-! ### The codec of a topic -/

inductive DecodeError where
  | invalid (what : String)
  /-- The receiving type cannot hold the value, and is to drop it. -/
  | discarded (what : String)
  deriving DecidableEq

def DecodeError.isDiscarded : DecodeError → Bool
  | .invalid _ => false
  | .discarded _ => true

inductive DdsError where
  | wireError (inner : DecodeError)
  | badParameter (what : String)
  deriving DecidableEq

structure TopicCodec (T : Type) where
  keyed : Bool
  /-- `decode_for_encap`: the body by representation and byte order. -/
  decode : Octets → Nat → Bool → Except DecodeError T
  /-- The key hash and the key holder; none of a value without a key. -/
  keyMaterial : T → Option (KeyHash × Octets)
  /-- The codec writes key holders itself, so the last one is remembered. -/
  writesHolder : Bool
  decodeKeyHolder : Octets → Except DecodeError T
  keyMaterial_of_keyless : keyed = false → ∀ sample, keyMaterial sample = none

namespace TopicCodec

variable {T : Type} (codec : TopicCodec T)

def instanceKeyHash (sample : T) : KeyHash :=
  ((codec.keyMaterial sample).map Prod.fst).getD keylessInstanceKey

def keyHolder (sample : T) : Octets := ((codec.keyMaterial sample).map Prod.snd).getD []

def rememberedHolder (key : T) : Option Octets :=
  if codec.writesHolder then (codec.keyMaterial key).map Prod.snd else none

/-- The instance a marker names: its key hashed here, where it came with one that
decodes. -/
def lifecycleInstance (wireHash : KeyHash) (holder : Option Octets) : KeyHash × Option Octets :=
  if !codec.keyed then (keylessInstanceKey, some [])
  else match holder with
    | none => (wireHash, none)
    | some holder => match codec.decodeKeyHolder holder with
      | .error _ => (wireHash, some holder)
      | .ok key => match codec.keyMaterial key with
        | none => (wireHash, some holder)
        | some (hash, _) => (hash, some ((codec.rememberedHolder key).getD holder))

def holderFromKeyHash (keyhash : KeyHash) : Option Octets :=
  match codec.decodeKeyHolder keyhash.octets.toList with
  | .error _ => none
  | .ok key =>
    if (codec.keyMaterial key).map Prod.fst = some keyhash then codec.rememberedHolder key else none

end TopicCodec

/-! ### What arrives and what is kept -/

structure SampleWire where
  writerGuid : WriterGuid
  sequenceNumber : Int
  relatedSampleIdentity : Option (WriterGuid × Int)
  deriving DecidableEq

structure SampleBytes where
  octets : Octets
  wire : Option SampleWire
  deriving DecidableEq

structure RawIngestSample where
  bytes : SampleBytes
  writerGuid : WriterGuid
  writerStrength : Int
  sourceTimestamp : Option HeTimestamp
  bigEndian : Bool
  representation : Nat
  lifespanNanos : Nat
  receptionTimestamp : Option Time
  deriving DecidableEq

structure LifecycleMarker where
  keyHash : KeyHash
  keyHolder : Option Octets
  kind : InstanceStateKind
  writerGuid : WriterGuid
  sourceTimestamp : Option HeTimestamp
  deriving DecidableEq

inductive StagedIngest where
  | alive (raw : RawIngestSample)
  | lifecycle (marker : LifecycleMarker)
  deriving DecidableEq

/-- A sample in the cache.  A marker has no bytes; `decoded` is what admission decoded,
kept for the first take. -/
structure CachedSample (T : Type) where
  bytes : Option SampleBytes
  info : SampleInfo
  representation : Nat
  bigEndian : Bool
  expiresAt : Option Time
  decoded : Option T
  deriving DecidableEq

structure Sample (T : Type) where
  data : T
  info : SampleInfo
  deriving DecidableEq

inductive TimeBasedFilterClock where
  | sender
  | receiver
  deriving DecidableEq

def TimeBasedFilterClock.timeOf (clock : TimeBasedFilterClock) (source : Option Time)
    (reception : Time) : Time :=
  match clock with
  | .sender => source.getD reception
  | .receiver => reception

inductive HistoryKind where
  | keepLast
  | keepAll
  deriving DecidableEq

structure AdmissionQos where
  minSepNanos : Nat
  tbfClock : TimeBasedFilterClock
  bySourceTs : Bool
  reliable : Bool
  exclusiveOwnership : Bool
  historyKind : HistoryKind
  historyDepth : Int
  maxSamples : Int
  maxSamplesPerInstance : Int
  maxInstances : Int
  deriving DecidableEq

inductive Presentation where
  | grouped
  /-- In the order they were written across instances. -/
  | inWriteOrder
  | onePerRead
  deriving DecidableEq

structure ReaderConfig (T : Type) where
  codec : TopicCodec T
  qos : AdmissionQos
  /-- The DEADLINE period; none for an infinite one. -/
  deadlineNanos : Option Nat
  autopurgeDisposedNanos : Nat
  autopurgeNowriterNanos : Nat
  presentation : Presentation
  filter : Option (T → Bool)
  clock : Nat → Time

structure DataReader (T : Type) where
  cache : List (CachedSample T)
  instances : InstanceTracker
  /-- What a RELIABLE admission refused, and everything behind it. -/
  heldBack : List StagedIngest
  /-- The last sample the TIME_BASED_FILTER filtered, by instance, and when it is due. -/
  tbfHold : SortedMap KeyHash (RawIngestSample × Time)
  keylessLast : Option (Octets × Nat × Bool)
  arrived : List StagedIngest
  strengthChanges : List (WriterGuid × Int)
  /-- Writers that lost their liveliness or their match. -/
  gone : List WriterGuid
  readings : Nat

namespace ReaderConfig

variable {T : Type} (cfg : ReaderConfig T)

def samplePassesFilter (sample : T) : Bool :=
  match cfg.filter with
  | none => true
  | some accepts => accepts sample

def presentationLimit : Option Nat :=
  match cfg.presentation with
  | .onePerRead => some 1
  | _ => none

end ReaderConfig

def tighter : Option Nat → Option Nat → Option Nat
  | none, b => b
  | some a, none => some a
  | some a, some b => some (min a b)

def underLimit (n : Nat) : Option Nat → Bool
  | none => true
  | some limit => decide (n < limit)

namespace RawIngestSample

variable (raw : RawIngestSample)

def sourceTs (now : Time) : Time :=
  (raw.sourceTimestamp.map heTimestampToTime).getD now

def expiresAt (now : Time) : Option Time :=
  lifespanExpiry (raw.sourceTs now) raw.lifespanNanos

def filterTs (clock : TimeBasedFilterClock) (now : Time) : Time :=
  clock.timeOf (raw.sourceTimestamp.map heTimestampToTime) (raw.receptionTimestamp.getD now)

def orderTs (bySourceTs : Bool) (now : Time) : Time :=
  if bySourceTs then raw.sourceTs now else now

end RawIngestSample

def expired (expiresAt : Option Time) (now : Time) : Bool :=
  expiresAt.any fun e => decide (e ≤ now)

inductive DropReason where
  | expired
  | discarded
  | contentFilter
  | ownership
  | timeBasedFilter
  | destinationOrder
  | instancesLimit
  deriving DecidableEq

inductive RefusalReason where
  | instancesLimit
  | samplesPerInstanceLimit
  | samplesLimit
  deriving DecidableEq

/-- What `ingest_alive` made of a sample.  `Ok(None)` of the source is `admitted` or
`dropped`, `Ok(Some(raw))` is `refused`. -/
inductive Admission where
  | admitted
  | dropped (reason : DropReason)
  | refused (reason : RefusalReason)
  | failed (e : DdsError)
  deriving DecidableEq

namespace DataReader

variable {T : Type} (cfg : ReaderConfig T)

def new (instances : InstanceTracker) : DataReader T where
  cache := []
  instances := instances
  heldBack := []
  tbfHold := .empty
  keylessLast := none
  arrived := []
  strengthChanges := []
  gone := []
  readings := 0

variable (r : DataReader T)

def wallNow : Time × DataReader T :=
  (cfg.clock r.readings, { r with readings := r.readings + 1 })

def removeFirst {α : Type} (p : α → Bool) : List α → Option (α × List α)
  | [] => none
  | a :: rest =>
    if p a then some (a, rest) else (removeFirst p rest).map fun (b, left) => (b, a :: left)

variable (handle : InstanceHandle) (now : Time)

def evictOldestOfInstance : Option (DataReader T) :=
  (removeFirst (fun s => s.info.instanceHandle = handle) r.cache).map fun (_, rest) =>
    { r with cache := rest, instances := r.instances.drainSamples handle 1 }

def evictOldestOverall : DataReader T :=
  match removeFirst (fun s => s.info.validData) r.cache with
  | none => r
  | some (victim, rest) =>
    { r with
      cache := rest
      instances :=
        if victim.info.instanceHandle = handleNil then r.instances
        else r.instances.drainSamples victim.info.instanceHandle 1 }

/-- HISTORY KEEP_LAST: the oldest of the instance go until `inCache` is down to `depth`. -/
def evictDownTo (handle : InstanceHandle) (depth : Nat) :
    DataReader T → Nat → DataReader T × Nat
  | r, 0 => (r, 0)
  | r, inCache + 1 =>
    if depth < inCache + 1 then
      match r.evictOldestOfInstance handle with
      | none => (r, inCache + 1)
      | some r => evictDownTo handle depth r inCache
    else (r, inCache + 1)

/-- EXCLUSIVE ownership: the instance is registered first, so that it has an owner to
compare with. -/
def passesExclusiveOwnership (sample : T) (writer : WriterGuid) (strength : Int) :
    DataReader T × Bool :=
  if !cfg.qos.exclusiveOwnership then (r, true)
  else
    let kh := cfg.codec.instanceKeyHash sample
    let observed := r.instances.observeSample kh (cfg.codec.keyHolder sample) none
    let (now, r) := r.wallNow cfg
    let (instances, accepted) :=
      observed.acceptUnderExclusiveOwnership kh writer strength now cfg.deadlineNanos
    ({ r with instances := instances }, accepted)

def applyHistory (inCache : Nat) : DataReader T × Nat :=
  match cfg.qos.historyKind with
  | .keepLast => evictDownTo handle cfg.qos.historyDepth.toNat r inCache
  | .keepAll => (r, inCache)

def uncounted : DataReader T :=
  { r with instances := r.instances.drainSamples handle 1 }

def overInstanceLimit (inCache : Nat) : Bool :=
  decide (0 ≤ cfg.qos.maxSamplesPerInstance) &&
    decide (cfg.qos.maxSamplesPerInstance.toNat < inCache)

def samplesFull : Bool :=
  decide (0 ≤ cfg.qos.maxSamples) &&
    decide (cfg.qos.maxSamples.toNat ≤ (r.cache.filter fun s => s.info.validData).length)

/-- A BEST_EFFORT reader over `max_samples_per_instance` evicts the instance's oldest. -/
def makeInstanceRoom (inCache : Nat) : DataReader T :=
  if overInstanceLimit cfg inCache then (r.evictOldestOfInstance handle).getD r else r

def makeRoom : DataReader T :=
  if samplesFull cfg r then r.evictOldestOverall else r

/-- RESOURCE_LIMITS `max_samples_per_instance` and `max_samples`: a RELIABLE reader
refuses, a BEST_EFFORT one makes room. -/
def applyLimits (inCache : Nat) : DataReader T × Option RefusalReason :=
  if overInstanceLimit cfg inCache && cfg.qos.reliable then
    (r.uncounted handle, some .samplesPerInstanceLimit)
  else
    let r := makeInstanceRoom cfg r handle inCache
    if samplesFull cfg r && cfg.qos.reliable then (r.uncounted handle, some .samplesLimit)
    else (makeRoom cfg r, none)

def infoOf (s : InstanceState) (handle : InstanceHandle) (sourceTimestamp : Time)
    (publicationHandle : InstanceHandle) (validData : Bool) : SampleInfo where
  sampleState := .notRead
  viewState := if s.readerViewNew then .new else .notNew
  instanceState := s.kind
  disposedGenerationCount := s.disposedGenerationCount
  noWritersGenerationCount := s.noWritersGenerationCount
  sampleRank := 0
  generationRank := 0
  absoluteGenerationRank := 0
  sourceTimestamp := sourceTimestamp
  instanceHandle := handle
  publicationHandle := publicationHandle
  validData := validData

def push (raw : RawIngestSample) (sample : T) (handle : InstanceHandle) (s : InstanceState) :
    DataReader T :=
  { r with
    keylessLast :=
      if cfg.codec.keyed then r.keylessLast
      else some (raw.bytes.octets, raw.representation, raw.bigEndian)
    cache := r.cache ++
      [{ bytes := some raw.bytes
         info := infoOf s handle (raw.sourceTs now) (writerPublicationHandle raw.writerGuid) true
         representation := raw.representation
         bigEndian := raw.bigEndian
         expiresAt := raw.expiresAt now
         decoded := some sample }] }

def noteDelivery (raw : RawIngestSample) (kh : KeyHash) : DataReader T :=
  { r with
    instances := r.instances.noteAdmitted kh (raw.orderTs cfg.qos.bySourceTs now)
      (raw.filterTs cfg.qos.tbfClock now) raw.writerGuid }

def admitSample (raw : RawIngestSample) (sample : T) : DataReader T × Admission :=
  let kh := cfg.codec.instanceKeyHash sample
  match r.instances.observeAdmitted kh (cfg.codec.keyHolder sample) now cfg.qos.maxInstances with
  | none =>
    (r, if cfg.qos.reliable then .refused .instancesLimit else .dropped .instancesLimit)
  | some (instances, handle, inCache) =>
    let (r, inCache) := applyHistory cfg { r with instances := instances } handle inCache
    match applyLimits cfg r handle inCache with
    | (r, some reason) => (r, .refused reason)
    | (r, none) =>
      let r := noteDelivery cfg r now raw kh
      match r.instances.stateOf kh with
      -- never: the instance was observed above
      | none => (r, .dropped .instancesLimit)
      | some s => (push cfg r now raw sample handle s, .admitted)

/-- The TIME_BASED_FILTER filtered the sample: a RELIABLE reader keeps the last it filtered,
due one separation after it arrived. -/
def holdFiltered (raw : RawIngestSample) (kh : KeyHash) : DataReader T :=
  let due := (raw.receptionTimestamp.getD now).after cfg.qos.minSepNanos
  if cfg.qos.reliable then { r with tbfHold := r.tbfHold.insert kh (raw, due) } else r

def supersede (kh : KeyHash) : DataReader T :=
  if 0 < cfg.qos.minSepNanos ∧ cfg.qos.reliable then { r with tbfHold := r.tbfHold.erase kh }
  else r

def ingestFiltered (raw : RawIngestSample) (sample : T) (timeFilter : Bool) :
    DataReader T × Admission :=
  let kh := cfg.codec.instanceKeyHash sample
  if timeFilter && !r.instances.shouldDeliverUnderTimeBasedFilter kh
      (raw.filterTs cfg.qos.tbfClock now) cfg.qos.minSepNanos then
    (holdFiltered cfg r now raw kh, .dropped .timeBasedFilter)
  else
    let r := supersede cfg r kh
    if !r.instances.shouldDeliverUnderDestinationOrder kh (raw.orderTs cfg.qos.bySourceTs now)
        cfg.qos.bySourceTs then
      (r, .dropped .destinationOrder)
    else admitSample cfg r now raw sample

/-- `ingest_alive_filtered`; without `timeFilter` for a sample the filter held back. -/
def ingestAliveFiltered (raw : RawIngestSample) (timeFilter : Bool) : DataReader T × Admission :=
  if expired (raw.expiresAt now) now then (r, .dropped .expired)
  else match cfg.codec.decode raw.bytes.octets raw.representation raw.bigEndian with
    | .error e => (r, if e.isDiscarded then .dropped .discarded else .failed (.wireError e))
    | .ok sample =>
      if !cfg.samplePassesFilter sample then (r, .dropped .contentFilter)
      else match passesExclusiveOwnership cfg r sample raw.writerGuid raw.writerStrength with
        | (r, false) => (r, .dropped .ownership)
        | (r, true) => ingestFiltered cfg r now raw sample timeFilter

def ingestAlive (raw : RawIngestSample) : DataReader T × Admission :=
  ingestAliveFiltered cfg r now raw true

def pushMarker (info : SampleInfo) : DataReader T :=
  { r with
    cache := r.cache ++
      [{ bytes := none
         info := info
         representation := 0
         bigEndian := false
         expiresAt := none
         decoded := none }] }

/-- The key holder a marker brings, or nothing where it is not taken in: an instance
unknown here whose key its hash does not spell out, or a keyless topic without a value. -/
def markerHolder (keyhash : KeyHash) (keyHolder : Option Octets) : Option (Option Octets) :=
  if !cfg.codec.keyed && r.keylessLast.isNone then none
  else match keyHolder with
    | some holder => some (some holder)
    | none =>
      if (r.instances.lookup keyhash).isSome then some none
      else (cfg.codec.holderFromKeyHash keyhash).map some

/-- What the kind of a marker does to its instance.  `none` where another writer still
writes the instance, which then did not change. -/
def applyMarkerKind (t : InstanceTracker) (handle : InstanceHandle) (kind : InstanceStateKind)
    (writer : Option WriterGuid) (now : Time) : InstanceTracker × Bool :=
  match kind with
  | .notAliveDisposed => (t.dispose handle (some now), true)
  | .notAliveNoWriters => match writer with
    | some w =>
      let t := t.unregisterWriter handle w (some now)
      if (t.getByHandle handle).any fun s => s.kind = .alive then
        (t.drainSamples handle 1, false)
      else (t, true)
    | none => (t.unregister handle (some now), true)
  | .alive => (t, true)

def pushLifecycleFrom (keyhash : KeyHash) (keyHolder : Option Octets) (kind : InstanceStateKind)
    (writer : Option WriterGuid) (sourceTimestamp : Option Time) : DataReader T :=
  let keyhash := if cfg.codec.keyed then keyhash else keylessInstanceKey
  match markerHolder cfg r keyhash keyHolder with
  | none => r
  | some holder =>
    let (now, r) := r.wallNow cfg
    let (t, handle) := r.instances.observeLifecycle keyhash holder (some now)
    match applyMarkerKind t handle kind writer now with
    | (t, false) => { r with instances := t }
    | (t, true) => match t.getByHandle handle with
      | none => { r with instances := t }
      | some s => pushMarker { r with instances := t }
          (infoOf s handle (sourceTimestamp.getD now)
            ((writer.map writerPublicationHandle).getD handleNil) false)

/-- A marker at its place in the order of arrival.  Under EXCLUSIVE ownership only the
owner disposes an instance, and the owner that unregisters gives it up. -/
def ingestLifecycle (m : LifecycleMarker) : DataReader T :=
  let (kh, holder) := cfg.codec.lifecycleInstance m.keyHash m.keyHolder
  let writer := if m.writerGuid = WriterGuid.unknown then none else some m.writerGuid
  let sourceTs := m.sourceTimestamp.map heTimestampToTime
  match writer with
  | none => pushLifecycleFrom cfg r kh holder m.kind none sourceTs
  | some w =>
    if !cfg.qos.exclusiveOwnership then pushLifecycleFrom cfg r kh holder m.kind (some w) sourceTs
    else match m.kind with
      | .notAliveDisposed =>
        if (r.instances.ownerOf kh).any fun owner => owner ≠ w then r
        else pushLifecycleFrom cfg r kh holder m.kind (some w) sourceTs
      | .notAliveNoWriters =>
        pushLifecycleFrom cfg { r with instances := r.instances.releaseOwnerOf kh w } kh holder
          m.kind (some w) sourceTs
      | .alive => pushLifecycleFrom cfg r kh holder m.kind (some w) sourceTs

end DataReader

/-! ### A topic of two octets

A key and a value, for the concrete readers of the modules that follow. -/

def octetKey (k : UInt8) : KeyHash := ⟨#v[k, 0, 0, 0, 0, 0, 0, 0, 0, 0, 0, 0, 0, 0, 0, 0]⟩

def octetCodec : TopicCodec (UInt8 × UInt8) where
  keyed := true
  decode octets _ _ := match octets with
    | [k, v] => .ok (k, v)
    | _ => .error (.invalid "not two octets")
  keyMaterial sample := some (octetKey sample.1, [sample.1])
  writesHolder := true
  decodeKeyHolder octets := match octets with
    | k :: _ => .ok (k, 0)
    | [] => .error (.invalid "no key octet")
  keyMaterial_of_keyless := nofun

def reliableQos : AdmissionQos where
  minSepNanos := 0
  tbfClock := .sender
  bySourceTs := false
  reliable := true
  exclusiveOwnership := false
  historyKind := .keepAll
  historyDepth := 1
  maxSamples := -1
  maxSamplesPerInstance := -1
  maxInstances := -1

def octetConfig (qos : AdmissionQos) : ReaderConfig (UInt8 × UInt8) where
  codec := octetCodec
  qos := qos
  deadlineNanos := none
  autopurgeDisposedNanos := u128Max
  autopurgeNowriterNanos := u128Max
  presentation := .grouped
  filter := none
  clock := fun n => ⟨n, 0⟩

def octetRaw (w : UInt8) (octets : Octets) (seconds : Nat) : RawIngestSample where
  bytes := ⟨octets, none⟩
  writerGuid := Octets16.repeated w
  writerStrength := 0
  sourceTimestamp := some ⟨seconds, 0⟩
  bigEndian := false
  representation := 1
  lifespanNanos := 0
  receptionTimestamp := none

def octetSample (w : UInt8) (octets : Octets) (seconds : Nat) : StagedIngest :=
  .alive (octetRaw w octets seconds)

def octetMarker (w k : UInt8) (holder : Octets) (kind : InstanceStateKind) : StagedIngest :=
  .lifecycle
    { keyHash := octetKey k
      keyHolder := some holder
      kind := kind
      writerGuid := Octets16.repeated w
      sourceTimestamp := none }

def octetReader (entries : List StagedIngest) : DataReader (UInt8 × UInt8) :=
  { DataReader.new .new with arrived := entries }

end ZeroDds.Dcps
