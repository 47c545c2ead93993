/-
Runs of a writer.
-/
import ZeroDds.Rtps.ReliableWriter
import ZeroDds.Rtps.TickTurn

namespace ZeroDds.Rtps

/-- A call on a writer.  `setGroup` also stands for what the other writers of its
group do to the group they share. -/
inductive WriterOp where
  | write (x : SampleWrite)
  | writeWithHeartbeat (payload : Octets) (now : Nat) (ts : Option HeTimestamp)
      (destination : Option GuidPrefix)
  | writeLifecycle (x : LifecycleWrite)
  | beginCoherentSet
  | endCoherentSet
  | endGroupCoherentSet (e : GroupSetEnd)
  | tick (now : Nat)
  | livelinessHeartbeat
  | acknack (src : Guid) (base : Int) (requested : List Int)
  | acknackAt (now : Nat) (src : Guid) (base : Int) (requested : List Int)
  | acknackSetAt (now : Nat) (src : Guid) (set : SequenceNumberSet)
  | acknackFinalFlag (src : Guid) (finalFlag : Bool)
  | nackfrag (src : Guid) (nf : NackFragSubmessage)
  | addReaderProxy (p : ReaderProxy)
  | removeReaderProxy (guid : Guid)
  | removeAcknowledged
  | removeAcknowledgedLifecycle
  | removeSamplesUpTo (upToExclusive : Int)
  | setGroup (group : Option WriterGroup)
  | setNextDestinationReaders (readers : Option (List Guid))
  | setUnackedWindow (octets : Nat)
  | setNackResponseDelay (delay : Nat)
  | setNackSuppressionDuration (duration : Nat)
  | askForAck
  | requestHeartbeat

namespace ReliableWriter

def step (w : ReliableWriter) : WriterOp → ReliableWriter × WriterResult
  | .write x => w.writeStaged x
  | .writeWithHeartbeat payload now ts destination =>
    w.writeWithHeartbeatTo payload now ts destination
  | .writeLifecycle x => w.writeLifecycle x
  | .beginCoherentSet => (w.beginCoherentSet, .ok [])
  | .endCoherentSet => w.endCoherentSet
  | .endGroupCoherentSet e => w.endGroupCoherentSet e
  | .tick now => w.tick now
  | .livelinessHeartbeat => w.livelinessHeartbeat
  | .acknack src base requested => (w.handleAcknack src base requested, .ok [])
  | .acknackAt now src base requested => (w.handleAcknackAt now src base requested, .ok [])
  | .acknackSetAt now src set => (w.handleAcknackSetAt now src set, .ok [])
  | .acknackFinalFlag src finalFlag => (w.noteAcknackFinalFlag src finalFlag, .ok [])
  | .nackfrag src nf => (w.handleNackfrag src nf, .ok [])
  | .addReaderProxy p => (w.addReaderProxy p, .ok [])
  | .removeReaderProxy guid => (w.removeReaderProxy guid, .ok [])
  | .removeAcknowledged => (w.removeAcknowledged.1, .ok [])
  | .removeAcknowledgedLifecycle => (w.removeAcknowledgedLifecycle.1, .ok [])
  | .removeSamplesUpTo sn => ((w.removeSamplesUpTo sn).1, .ok [])
  | .setGroup group => (w.setGroup group, .ok [])
  | .setNextDestinationReaders readers => (w.setNextDestinationReaders readers, .ok [])
  | .setUnackedWindow octets => (w.setUnackedWindow octets, .ok [])
  | .setNackResponseDelay delay => (w.setNackResponseDelay delay, .ok [])
  | .setNackSuppressionDuration duration => (w.setNackSuppressionDuration duration, .ok [])
  | .askForAck => (w.askForAck.1, .ok [])
  | .requestHeartbeat => (w.requestHeartbeat, .ok [])

variable (w : ReliableWriter)

theorem nextChangeSn_cases :
    (w.nextChangeSn = ({ w with nextSn := w.nextSn + 1 }, .ok (w.nextSn + 1))) ∨
      w.nextChangeSn = (w, .error (.valueOutOfRange "sequence number overflow")) := by
  unfold nextChangeSn
  split
  · exact .inl rfl
  · exact .inr rfl

def staged (w : ReliableWriter) (sn : Int) : ReliableWriter × Option ChangeGroupInfo :=
  let (w, group) := ({ w with nextSn := sn }.claimCoherentSet sn).stampGroupChange
  (w.noteGsn sn group, group)

variable (sn : Int)

@[simp] theorem staged_nextSn : (w.staged sn).1.nextSn = sn := by
  simp only [staged, stampGroupChange, claimCoherentSet]
  split <;> split <;> rfl

@[simp] theorem staged_cache : (w.staged sn).1.cache = w.cache := by
  simp only [staged, stampGroupChange, claimCoherentSet]
  split <;> split <;> rfl

@[simp] theorem staged_readerProxies : (w.staged sn).1.readerProxies = w.readerProxies := by
  simp only [staged, stampGroupChange, claimCoherentSet]
  split <;> split <;> rfl

structure SameSettings (w w' : ReliableWriter) : Prop where
  guid : w'.guid = w.guid
  vendorId : w'.vendorId = w.vendorId
  readerProxies : w'.readerProxies = w.readerProxies
  fragmentSize : w'.fragmentSize = w.fragmentSize
  mtu : w'.mtu = w.mtu
  behaviour : w'.behaviour = w.behaviour
  pushMode : w'.pushMode = w.pushMode
  inlineWriterQos : w'.inlineWriterQos = w.inlineWriterQos
  filteredReaders : w'.filteredReaders = w.filteredReaders

theorem staged_settings : w.SameSettings (w.staged sn).1 := by
  simp only [staged, stampGroupChange, claimCoherentSet]
  split <;> split <;> exact ⟨rfl, rfl, rfl, rfl, rfl, rfl, rfl, rfl, rfl⟩

theorem stageSample_ok {w w' : ReliableWriter} {x : SampleWrite} {sn : Int}
    (h : w.stageSample x = (w', .ok sn)) :
    sn = w.nextSn + 1 ∧ w'.nextSn = sn ∧ w.SameSettings w' ∧
      ∃ coherent group readers evicted,
        w.cache.insert (sampleChange sn x coherent group readers) = (w'.cache, .ok evicted) := by
  unfold stageSample at h
  rcases nextChangeSn_cases { w with nextDestinationReaders := none } with hsn | hsn <;>
    rw [hsn] at h
  · have hset := staged_settings { w with nextDestinationReaders := none } (w.nextSn + 1)
    have hcache := staged_cache { w with nextDestinationReaders := none } (w.nextSn + 1)
    have hnext := staged_nextSn { w with nextDestinationReaders := none } (w.nextSn + 1)
    simp only [Outcome.andThen_ok] at h
    split at h
    · cases h
    · next cache evicted hinsert =>
      change ({ w with nextDestinationReaders := none }.staged (w.nextSn + 1)).1.cache.insert _ = _
        at hinsert
      rw [hcache] at hinsert
      obtain ⟨entries, bytes, rfl, rfl⟩ : ∃ entries bytes, sn = w.nextSn + 1 ∧
          w' = { ({ w with nextDestinationReaders := none }.staged (w.nextSn + 1)).1 with
            cache := cache
            unacked := entries
            unackedBytes := bytes } := by
        split at h
        · exact ⟨_, _, (Except.ok.inj (Prod.mk.inj h).2).symm, (Prod.mk.inj h).1.symm⟩
        · exact ⟨_, _, (Except.ok.inj (Prod.mk.inj h).2).symm, (Prod.mk.inj h).1.symm⟩
      refine ⟨rfl, hnext, ⟨hset.1, hset.2, hset.3, hset.4, hset.5, hset.6, hset.7, hset.8, hset.9⟩,
        _, _, _, evicted, hinsert⟩
  · cases h

theorem stageLifecycle_ok {w w' : ReliableWriter} {x : LifecycleWrite} {sn : Int}
    (h : w.stageLifecycle x = (w', .ok sn)) :
    sn = w.nextSn + 1 ∧ w'.nextSn = sn ∧ w.SameSettings w' ∧
      ∃ kind coherent group evicted,
        w.cache.insert (lifecycleChange sn x kind coherent group) = (w'.cache, .ok evicted) := by
  unfold stageLifecycle at h
  rcases nextChangeSn_cases w with hsn | hsn <;> rw [hsn] at h
  · have hset := staged_settings w (w.nextSn + 1)
    have hcache := staged_cache w (w.nextSn + 1)
    have hnext := staged_nextSn w (w.nextSn + 1)
    simp only [Outcome.andThen_ok] at h
    split at h
    · cases h
    · next kind _ =>
      split at h
      · cases h
      · next cache evicted hinsert =>
        change (w.staged (w.nextSn + 1)).1.cache.insert _ = _ at hinsert
        rw [hcache] at hinsert
        obtain ⟨rfl, hsn'⟩ := Prod.mk.inj h
        obtain rfl := Except.ok.inj hsn'
        exact ⟨rfl, hnext, ⟨hset.1, hset.2, hset.3, hset.4, hset.5, hset.6, hset.7, hset.8, hset.9⟩,
          kind, _, _, evicted, hinsert⟩
  · cases h

/-! ### The tick as a traversal of the proxies -/

def tickView (w : ReliableWriter) (now : Nat) : SendView := (w.tickStart now).view

def TickFits (w : ReliableWriter) (now : Nat) : Prop :=
  ∀ p ∈ w.readerProxies,
    (w.tickView now).TurnFits (w.tickPlan now) p (p.repairDue now w.nackResponseDelay).2

def tickTurns (w : ReliableWriter) (now : Nat) :
    Outcome ((SendLog × Bool) × List ReaderProxy) WireError (List AddressedDatagram) :=
  Outcome.traverse ((w.tickView now).tickTurn (w.tickPlan now))
    ((w.tickStart now).sendLog, false) w.readerProxies

variable (now : Nat)

theorem tick_result :
    (w.tick now).2 = (w.tickTurns now).2 ∧
      (w.tick now).1.readerProxies = (w.tickTurns now).1.2 := by
  have hturns : Outcome.traverse ((w.tickStart now).view.tickTurn (w.tickPlan now))
      ((w.tickStart now).sendLog, false) (w.tickStart now).readerProxies = w.tickTurns now := rfl
  simp only [tick, hturns]
  rcases w.tickTurns now with ⟨⟨⟨log, emitted⟩, proxies⟩, e | out⟩
  · exact ⟨rfl, rfl⟩
  · refine ⟨rfl, ?_⟩
    simp only [noteHeartbeats]
    split <;> rfl

@[simp] theorem tick_cache : (w.tick now).1.cache = w.cache := by
  simp only [tick]
  split
  · rfl
  · simp only [noteHeartbeats]
    split <;> rfl

theorem tick_ok_iff : (∃ out, (w.tick now).2 = .ok out) ↔ w.TickFits now := by
  rw [(w.tick_result now).1]
  exact Outcome.traverse_ok_iff (fun s p => (SendView.tickTurn_spec _ s.1 s.2 p rfl).1) _ _

end ReliableWriter

/-! ### The crate's test writer

The fixtures of the writer's own tests, for the runs on fixed inputs. -/

namespace WriterFixture

def writerGuid : Guid := ⟨GuidPrefix.repeated 1, EntityId.userWriterWithKey 0x10 0x20 0x30⟩

def readerGuid (key : UInt8) : Guid :=
  ⟨GuidPrefix.repeated 2, EntityId.userReaderWithKey 0xA0 0xB0 key⟩

def readerProxy (key : UInt8) : ReaderProxy := .new (readerGuid key) [] [] true

def config (maxSamples mtu : Nat) (proxies : List ReaderProxy) : ReliableWriterConfig where
  guid := writerGuid
  vendorId := .zerodds
  readerProxies := proxies
  maxSamples := maxSamples
  historyKind := .keepAll
  heartbeatPeriod := 10000000
  fragmentSize := 1344
  mtu := mtu

def makeWriter (maxSamples mtu : Nat) (proxies : List ReaderProxy) : ReliableWriter :=
  .setNackResponseDelay (.new (config maxSamples mtu proxies)) 0

def sample (payload : Octets) (ts : Option HeTimestamp) : SampleWrite :=
  ⟨payload, ts, none, none, false, none⟩

end WriterFixture
end ZeroDds.Rtps
