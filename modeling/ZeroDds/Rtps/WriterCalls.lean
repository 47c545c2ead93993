/-
The calls that change a writer's settings.
-/
import ZeroDds.Rtps.CacheIndex
import ZeroDds.Rtps.WriterRun

namespace ZeroDds.Rtps.ReliableWriter

variable (w : ReliableWriter)

def setInlineWriterQos (qos : Option ParameterList) : ReliableWriter :=
  { w with inlineWriterQos := qos }

def setEmitInfoDst (emit : Bool) : ReliableWriter :=
  { w with
    behaviour := w.behaviour.setDefault
      { w.behaviour.default with directedAddressing := .fromEmitInfoDst emit } }

def setSecureWriterGroupInfo (secure : Bool) : ReliableWriter :=
  { w with secureGroupInfo := secure }

def setBehaviour (b : RtpsBehaviour) : ReliableWriter :=
  { w with behaviour := w.behaviour.setDefault b }

def setParticipantBehaviour (guidPrefix : GuidPrefix) (b : RtpsBehaviour) : ReliableWriter :=
  { w with behaviour := w.behaviour.setForParticipant guidPrefix b }

def setPeerBehaviour (peer : Guid) (b : RtpsBehaviour) : ReliableWriter :=
  { w with behaviour := w.behaviour.setForPeer peer b }

def clearPeerBehaviour (peer : Guid) : ReliableWriter :=
  { w with behaviour := w.behaviour.clearForPeer peer }

def refreshReaderProxyLocators (guid : Guid) (unicast multicast : List Locator) :
    ReliableWriter × Bool :=
  match w.proxyIndex guid with
  | none => (w, false)
  | some idx =>
    (w.modifyProxyAt idx fun p =>
      { p with unicastLocators := unicast, multicastLocators := multicast }, true)

def setPushMode (pushMode : Bool) : ReliableWriter :=
  { w with pushMode := pushMode }

def setCacheKindAndMax (kind : HistoryKind) (maxSamples : Nat) : ReliableWriter :=
  { w with cache := w.cache.setKindAndMax kind maxSamples }

def setCacheHistory (kind : HistoryKind) (maxSamples : Nat) (perInstanceDepth : Option Nat) :
    ReliableWriter :=
  { w with
    cache := (w.cache.setKindAndMax kind maxSamples).setPerInstanceDepth perInstanceDepth }

end ReliableWriter

inductive WriterCall where
  | op (op : WriterOp)
  | setInlineWriterQos (qos : Option ParameterList)
  | setEmitInfoDst (emit : Bool)
  | setSecureWriterGroupInfo (secure : Bool)
  | setBehaviour (b : RtpsBehaviour)
  | setParticipantBehaviour (guidPrefix : GuidPrefix) (b : RtpsBehaviour)
  | setPeerBehaviour (peer : Guid) (b : RtpsBehaviour)
  | clearPeerBehaviour (peer : Guid)
  | refreshReaderProxyLocators (guid : Guid) (unicast multicast : List Locator)
  | setPushMode (pushMode : Bool)
  | setCacheKindAndMax (kind : HistoryKind) (maxSamples : Nat)
  | setCacheHistory (kind : HistoryKind) (maxSamples : Nat) (perInstanceDepth : Option Nat)

namespace ReliableWriter

def call (w : ReliableWriter) : WriterCall → ReliableWriter × WriterResult
  | .op op => w.step op
  | .setInlineWriterQos qos => (w.setInlineWriterQos qos, .ok [])
  | .setEmitInfoDst emit => (w.setEmitInfoDst emit, .ok [])
  | .setSecureWriterGroupInfo secure => (w.setSecureWriterGroupInfo secure, .ok [])
  | .setBehaviour b => (w.setBehaviour b, .ok [])
  | .setParticipantBehaviour guidPrefix b => (w.setParticipantBehaviour guidPrefix b, .ok [])
  | .setPeerBehaviour peer b => (w.setPeerBehaviour peer b, .ok [])
  | .clearPeerBehaviour peer => (w.clearPeerBehaviour peer, .ok [])
  | .refreshReaderProxyLocators guid unicast multicast =>
    ((w.refreshReaderProxyLocators guid unicast multicast).1, .ok [])
  | .setPushMode pushMode => (w.setPushMode pushMode, .ok [])
  | .setCacheKindAndMax kind maxSamples => (w.setCacheKindAndMax kind maxSamples, .ok [])
  | .setCacheHistory kind maxSamples depth => (w.setCacheHistory kind maxSamples depth, .ok [])

/-! ### Numbers are given out once -/

/-- What the calls do to the history: what it holds it held before, but for changes under
numbers given out since.  The sizes a writer was set up with stay, and so does the QoS it
sends in-line. -/
structure Moves (w w' : ReliableWriter) : Prop where
  nextSn_le : w.nextSn ≤ w'.nextSn
  held : ∀ n c, w'.cache.get n = some c →
    w.cache.get n = some c ∨ (w.nextSn < n ∧ n ≤ w'.nextSn)
  fragmentSize : w'.fragmentSize = w.fragmentSize
  mtu : w'.mtu = w.mtu
  inlineWriterQos : w'.inlineWriterQos = w.inlineWriterQos

theorem Moves.refl (w : ReliableWriter) : w.Moves w :=
  ⟨le_refl _, fun _ _ h => .inl h, rfl, rfl, rfl⟩

variable {w w' : ReliableWriter}

theorem Moves.trans {w'' : ReliableWriter} (h : w.Moves w') (h' : w'.Moves w'') : w.Moves w'' := by
  have hle := h.nextSn_le
  have hle' := h'.nextSn_le
  refine ⟨by omega, fun n c hget => ?_, h'.fragmentSize.trans h.fragmentSize,
    h'.mtu.trans h.mtu, h'.inlineWriterQos.trans h.inlineWriterQos⟩
  rcases h'.held n c hget with hmid | hnew
  · rcases h.held n c hmid with hold | hnew
    · exact .inl hold
    · exact .inr (by omega)
  · exact .inr (by omega)

theorem moves_of_removal (hsn : w'.nextSn = w.nextSn)
    (hheld : ∀ n c, w'.cache.get n = some c → w.cache.get n = some c)
    (hsize : w'.fragmentSize = w.fragmentSize) (hmtu : w'.mtu = w.mtu)
    (hqos : w'.inlineWriterQos = w.inlineWriterQos) : w.Moves w' :=
  ⟨hsn.ge, fun n c h => .inl (hheld n c h), hsize, hmtu, hqos⟩

theorem moves_of_same (hsn : w'.nextSn = w.nextSn) (hcache : w'.cache = w.cache)
    (hsize : w'.fragmentSize = w.fragmentSize) (hmtu : w'.mtu = w.mtu)
    (hqos : w'.inlineWriterQos = w.inlineWriterQos) : w.Moves w' :=
  moves_of_removal hsn (fun _ _ h => hcache ▸ h) hsize hmtu hqos

theorem moves_andThen {α β : Type} {r : WriterOutcome α}
    {f : ReliableWriter → α → WriterOutcome β} (hr : w.Moves r.1)
    (hf : ∀ s a, r = (s, .ok a) → s.Moves (f s a).1) : w.Moves (r.andThen f).1 := by
  rcases r with ⟨s, e | a⟩
  · exact hr
  · exact hr.trans (hf s a rfl)

theorem forProxies_moves (w : ReliableWriter)
    (turn : SendView → SendLog → ReaderProxy → TurnOutcome) : w.Moves (w.forProxies turn).1 :=
  moves_of_same rfl rfl rfl rfl rfl

theorem nextChangeSn_moves (w : ReliableWriter) : w.Moves w.nextChangeSn.1 := by
  rcases nextChangeSn_cases w with h | h <;> rw [h]
  · refine ⟨?_, fun _ _ hget => .inl hget, rfl, rfl, rfl⟩
    show w.nextSn ≤ w.nextSn + 1
    omega
  · exact .refl w

theorem insert_moves (change : CacheChange) (hset : w.SameSettings w')
    (hsn : change.sequenceNumber = w.nextSn + 1) (hnext : w'.nextSn = w.nextSn + 1)
    (hcache : w'.cache = (w.cache.insert change).1) : w.Moves w' := by
  refine ⟨by omega, fun n c hget => ?_, hset.fragmentSize, hset.mtu, hset.inlineWriterQos⟩
  rw [hcache] at hget
  rcases HistoryCache.get_insert_some hget with hold | hnew
  · exact .inl hold
  · exact .inr (by omega)

theorem stageSample_moves (w : ReliableWriter) (x : SampleWrite) : w.Moves (w.stageSample x).1 := by
  rcases hres : w.stageSample x with ⟨w', e | sn⟩
  · unfold stageSample at hres
    rcases nextChangeSn_cases { w with nextDestinationReaders := none } with hsn | hsn <;>
      rw [hsn] at hres
    · have hset := staged_settings { w with nextDestinationReaders := none } (w.nextSn + 1)
      have hcache := staged_cache { w with nextDestinationReaders := none } (w.nextSn + 1)
      simp only [Outcome.andThen_ok] at hres
      split at hres
      · next cache e' hinsert =>
        have hsame := HistoryCache.changes_insert_of_error hinsert
        obtain ⟨rfl, -⟩ := Prod.mk.inj hres
        refine moves_of_removal ?_ (fun n c hget => ?_) hset.fragmentSize hset.mtu
          hset.inlineWriterQos
        · show w.nextSn + 1 - 1 = w.nextSn
          omega
        · rw [← show _ = w.cache from hcache]
          rw [HistoryCache.get] at hget ⊢
          exact hsame ▸ hget
      · split at hres <;> cases hres
    · cases hres
      exact moves_of_same rfl rfl rfl rfl rfl
  · obtain ⟨rfl, hnext, hset, coherent, group, readers, evicted, hinsert⟩ := stageSample_ok hres
    exact insert_moves _ hset rfl hnext (by rw [hinsert])

theorem stageLifecycle_moves (w : ReliableWriter) (x : LifecycleWrite) :
    w.Moves (w.stageLifecycle x).1 := by
  rcases hres : w.stageLifecycle x with ⟨w', e | sn⟩
  · unfold stageLifecycle at hres
    rcases nextChangeSn_cases w with hsn | hsn <;> rw [hsn] at hres
    · have hset := staged_settings w (w.nextSn + 1)
      have hcache := staged_cache w (w.nextSn + 1)
      have hnext := staged_nextSn w (w.nextSn + 1)
      simp only [Outcome.andThen_ok] at hres
      split at hres
      · cases hres
        have := nextChangeSn_moves w
        rwa [hsn] at this
      · next kind _ =>
        split at hres
        · next cache e' hinsert =>
          obtain ⟨rfl, -⟩ := Prod.mk.inj hres
          refine insert_moves (lifecycleChange (w.nextSn + 1) x kind
            (w.staged (w.nextSn + 1)).1.coherentSetSn (w.staged (w.nextSn + 1)).2)
            ⟨hset.1, hset.2, hset.3, hset.4, hset.5, hset.6, hset.7, hset.8, hset.9⟩ rfl hnext ?_
          rw [← hcache]
          exact (congrArg Prod.fst hinsert).symm
        · cases hres
    · cases hres
      exact .refl w
  · obtain ⟨rfl, hnext, hset, kind, coherent, group, evicted, hinsert⟩ := stageLifecycle_ok hres
    exact insert_moves _ hset rfl hnext (by rw [hinsert])

theorem setEnd_moves {closed : ReliableWriter} {f : ReliableWriter → ReliableWriter}
    {change : Int → CacheChange} (hclosed : w.Moves closed) (hf : ∀ w, SameSettings w (f w))
    (hfsn : ∀ w, (f w).nextSn = w.nextSn) (hfcache : ∀ w, (f w).cache = w.cache)
    (hchange : ∀ sn, (change sn).sequenceNumber = sn) :
    w.Moves (closed.nextChangeSn.andThen fun w sn => (f w).emitCoherentSetEnd (change sn)).1 := by
  refine hclosed.trans ?_
  rcases nextChangeSn_cases closed with hsn | hsn <;> rw [hsn]
  · have hset := hf { closed with nextSn := closed.nextSn + 1 }
    have hnext := hfsn { closed with nextSn := closed.nextSn + 1 }
    have hcache := hfcache { closed with nextSn := closed.nextSn + 1 }
    rw [Outcome.andThen_ok]
    unfold emitCoherentSetEnd
    have hinserted : ∀ cache r, (f { closed with nextSn := closed.nextSn + 1 }).cache.insert
        (change (closed.nextSn + 1)) = (cache, r) →
        closed.Moves { f { closed with nextSn := closed.nextSn + 1 } with cache := cache } := by
      intro cache r hinsert
      rw [hcache] at hinsert
      refine insert_moves (change (closed.nextSn + 1))
        ⟨hset.1, hset.2, hset.3, hset.4, hset.5, hset.6, hset.7, hset.8, hset.9⟩
        (hchange _) hnext (congrArg Prod.fst hinsert).symm
    split
    · next cache e hinsert => exact hinserted cache _ hinsert
    · next cache evicted hinsert =>
      exact (hinserted cache _ hinsert).trans (forProxies_moves _ _)
  · exact .refl closed

section

variable (w : ReliableWriter)

theorem tick_moves (now : Nat) : w.Moves (w.tick now).1 := by
  simp only [tick]
  split
  · exact moves_of_same rfl rfl rfl rfl rfl
  · simp only [noteHeartbeats]
    split <;> exact moves_of_same rfl rfl rfl rfl rfl

theorem releaseAcknowledgedWindow_moves :
    w.Moves w.releaseAcknowledgedWindow := by
  unfold releaseAcknowledgedWindow
  split <;> exact moves_of_same rfl rfl rfl rfl rfl

theorem modifyProxyAt_moves (idx : Nat) (f : ReaderProxy → ReaderProxy) :
    w.Moves (w.modifyProxyAt idx f) := moves_of_same rfl rfl rfl rfl rfl

theorem handleAcknackWindow_moves (now : Nat) (src : Guid) (base : Int)
    (requested : List Int) (windowCut : Bool) :
    w.Moves (w.handleAcknackWindow now src base requested windowCut) := by
  simp only [handleAcknackWindow]
  split
  · exact moves_of_same rfl rfl rfl rfl rfl
  · next idx _ =>
    have hacked : w.Moves ({ w with clock := max w.clock now }.modifyProxyAt idx
        ({ w with clock := max w.clock now }.acknackProxy now base)) :=
      moves_of_same rfl rfl rfl rfl rfl
    exact hacked.trans ((releaseAcknowledgedWindow_moves _).trans (modifyProxyAt_moves _ _ _))

end

theorem get_of_removeUpTo {c : HistoryCache} {sn n : Int} {ch : CacheChange}
    (h : (c.removeUpTo sn).1.get n = some ch) : c.get n = some ch := by
  rw [HistoryCache.get_removeUpTo] at h
  split at h
  · exact h
  · cases h

theorem get_of_takeAll {c : HistoryCache} {sns : List Int} {n : Int} {ch : CacheChange}
    (h : (c.takeAll sns).get n = some ch) : c.get n = some ch := by
  rw [HistoryCache.get_takeAll] at h
  split at h
  · cases h
  · exact h

theorem step_moves (w : ReliableWriter) (op : WriterOp) : w.Moves (w.step op).1 := by
  cases op with
  | write x =>
    refine moves_andThen (stageSample_moves w x) fun s a _ => ?_
    split
    · exact forProxies_moves _ _
    · exact .refl s
  | writeWithHeartbeat payload now ts destination =>
    refine moves_andThen (stageSample_moves w _) fun s a _ => ?_
    refine moves_andThen (forProxies_moves s _) fun s' out _ => ?_
    exact moves_of_same rfl rfl rfl rfl rfl
  | writeLifecycle x =>
    exact moves_andThen (stageLifecycle_moves w x) fun s a _ => forProxies_moves _ _
  | endCoherentSet =>
    simp only [step, endCoherentSet]
    split
    · exact moves_of_same rfl rfl rfl rfl rfl
    · exact setEnd_moves (f := fun w => w) (moves_of_same rfl rfl rfl rfl rfl)
        (fun _ => ⟨rfl, rfl, rfl, rfl, rfl, rfl, rfl, rfl, rfl⟩) (fun _ => rfl) (fun _ => rfl)
        fun _ => rfl
  | endGroupCoherentSet e =>
    exact setEnd_moves (f := fun w => { w with lastGsn := some e.ecsGsn })
      (moves_of_same rfl rfl rfl rfl rfl)
      (fun _ => ⟨rfl, rfl, rfl, rfl, rfl, rfl, rfl, rfl, rfl⟩) (fun _ => rfl) (fun _ => rfl)
      fun _ => rfl
  | tick now => exact tick_moves w now
  | livelinessHeartbeat => exact forProxies_moves _ _
  | acknack src base requested => exact handleAcknackWindow_moves _ _ _ _ _ _
  | acknackAt now src base requested => exact handleAcknackWindow_moves _ _ _ _ _ _
  | acknackSetAt now src set => exact handleAcknackWindow_moves _ _ _ _ _ _
  | acknackFinalFlag src finalFlag =>
    simp only [step, noteAcknackFinalFlag]
    repeat' split
    all_goals exact moves_of_same rfl rfl rfl rfl rfl
  | nackfrag src nf =>
    simp only [step, handleNackfrag]
    repeat' split
    all_goals exact moves_of_same rfl rfl rfl rfl rfl
  | removeReaderProxy guid =>
    simp only [step, removeReaderProxy]
    split
    · exact .refl w
    · refine Moves.trans ?_ (releaseAcknowledgedWindow_moves _)
      exact moves_of_same rfl rfl rfl rfl rfl
  | removeAcknowledged =>
    have hfloor : ∀ floor : Int, w.Moves (if floor < 1 then (w, 0) else
        ({ w with cache := (w.cache.removeUpTo floor).1 }, (w.cache.removeUpTo floor).2)).1 := by
      intro floor
      split
      · exact .refl w
      · exact moves_of_removal rfl (fun _ _ h => get_of_removeUpTo h) rfl rfl rfl
    simp only [step, removeAcknowledged]
    split
    · exact .refl w
    · exact hfloor _
  | removeAcknowledgedLifecycle =>
    simp only [step, removeAcknowledgedLifecycle]
    split
    · exact .refl w
    · split
      · exact .refl w
      · refine moves_of_removal rfl (fun n c h => ?_) rfl rfl rfl
        simp only [HistoryCache.removeUpToWhere] at h
        split at h <;> exact get_of_takeAll h
  | removeSamplesUpTo sn =>
    exact moves_of_removal rfl (fun _ _ h => get_of_removeUpTo h) rfl rfl rfl
  | setUnackedWindow octets =>
    simp only [step, setUnackedWindow]
    split <;> exact moves_of_same rfl rfl rfl rfl rfl
  | askForAck =>
    simp only [step, askForAck]
    split <;> exact moves_of_same rfl rfl rfl rfl rfl
  | _ => exact moves_of_same rfl rfl rfl rfl rfl

end ZeroDds.Rtps.ReliableWriter
