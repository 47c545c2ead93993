/-
A sample in one DATA or in fragments.
-/
import ZeroDds.Rtps.Alike
import ZeroDds.Rtps.Commit
import ZeroDds.Rtps.Reassembly

namespace ZeroDds.Rtps

open HistoryCache WriterProxy

def DataSubmessage.absorbedBy (d : DataSubmessage) (own : Guid) : Bool :=
  classifyChangeKind d = .aliveFiltered || (d.keyFlag && classifyChangeKind d = .alive) ||
    addressedElsewhere d.inlineQos own

structure DataSubmessage.ReassembledAs (d : DataSubmessage) (c : CompletedSample) : Prop where
  keyHash : c.keyHash = d.inlineQos.bind InlineQos.findKeyHash
  inlineQos : c.inlineQos = d.inlineQos
  payload : c.payload = d.serializedPayload
  keyFlag : c.keyFlag = d.keyFlag

def DataSubmessage.HasContent (d : DataSubmessage) : Prop := d.dataFlag = !d.keyFlag

variable {d : DataSubmessage} {c : CompletedSample}

theorem completedChangeKind_eq (hcontent : d.HasContent) (h : d.ReassembledAs c) :
    completedChangeKind c = classifyChangeKind d := by
  have hcontent : d.dataFlag = !d.keyFlag := hcontent
  simp only [completedChangeKind, classifyChangeKind, h.inlineQos, h.keyFlag, hcontent]
  cases hkey : d.keyFlag with
  | true => simp
  | false =>
    cases d.inlineQos.bind InlineQos.findStatusInfo with
    | none => simp
    | some bits =>
      by_cases hfiltered : statusChangeKind bits = .aliveFiltered
      · simp [hfiltered]
      · simp [hfiltered]

theorem changeOfCompleted_eq (hcontent : d.HasContent) (h : d.ReassembledAs c) (payload : Octets)
    (ts : Option HeTimestamp) (opener : Option PayloadOpener) :
    changeOfCompleted d.writerSn c payload ts (d.nonStandardFlag && opener.isNone) =
      changeOfData d payload ts opener.isSome := by
  have hend : (!d.dataFlag && !d.keyFlag) = false := by
    rw [show d.dataFlag = !d.keyFlag from hcontent]
    cases d.keyFlag <;> rfl
  simp [changeOfCompleted, changeOfData, CacheChange.alive, completedChangeKind_eq hcontent h,
    h.keyHash, h.inlineQos, hend]

def WriterProxyState.keptArrival (s : WriterProxyState) (opener : Option PayloadOpener)
    (d : DataSubmessage) (ts : Option HeTimestamp) : Arrival :=
  match openPayload opener s.proxy.remoteWriterGuid (s.trustedOriginal d.inlineQos)
      d.serializedPayload d.nonStandardFlag with
  | none => .ignored (some .refusedPayload)
  | some payload =>
    if s.oversize payload then .ruledOut .irrelevant (some .oversizePayload)
    else .change (changeOfData d payload ts opener.isSome)

inductive Arrival.Agree : Arrival → Arrival → Prop
  | ignored {k k' : Option ReaderCounter} : Agree (.ignored k) (.ignored k')
  | ruledOut {u u' : Ruling} {k k' : Option ReaderCounter} :
      Agree (.ruledOut u k) (.ruledOut u' k')
  | change (c : CacheChange) : Agree (.change c) (.change c)

theorem Arrival.Agree.refl (a : Arrival) : Arrival.Agree a a := by
  cases a with
  | ignored k => exact .ignored
  | ruledOut u k => exact .ruledOut
  | change c => exact .change c

variable {own : Guid} {s : WriterProxyState} {opener : Option PayloadOpener}
  {ts : Option HeTimestamp} {df : DataFragSubmessage}

theorem absorbedBy_eq_false (h : d.absorbedBy own = false) :
    classifyChangeKind d ≠ .aliveFiltered ∧
      ¬(d.keyFlag = true ∧ classifyChangeKind d = .alive) ∧
      addressedElsewhere d.inlineQos own = false := by
  simpa [DataSubmessage.absorbedBy, and_assoc] using h

/-- Whatever the three checks of an absorbed sample rule it out with, one of them does. -/
theorem ruledOut_of_absorbed (h : d.absorbedBy own = true) (u₁ u₂ u₃ : Ruling)
    (k₁ k₂ k₃ : Option ReaderCounter) (kept : Arrival) :
    ∃ u k, (if classifyChangeKind d = .aliveFiltered then .ruledOut u₁ k₁
      else if d.keyFlag = true ∧ classifyChangeKind d = .alive then .ruledOut u₂ k₂
      else if addressedElsewhere d.inlineQos own = true then .ruledOut u₃ k₃
      else kept) = Arrival.ruledOut u k := by
  by_cases hfiltered : classifyChangeKind d = .aliveFiltered
  · exact ⟨_, _, if_pos hfiltered⟩
  · rw [if_neg hfiltered]
    by_cases hkey : d.keyFlag = true ∧ classifyChangeKind d = .alive
    · exact ⟨_, _, if_pos hkey⟩
    · rw [if_neg hkey]
      have helse : addressedElsewhere d.inlineQos own = true := by
        cases helse : addressedElsewhere d.inlineQos own with
        | true => rfl
        | false => simp_all [DataSubmessage.absorbedBy]
      exact ⟨_, _, if_pos helse⟩

section

variable (hfresh : ¬(s.proxy.isKnown d.writerSn = true ∨ d.writerSn ≤ s.deliveredUpTo))
include hfresh

theorem arrivalOfData_absorbed
    (h : d.absorbedBy own = true) : ∃ u k, s.arrivalOfData own opener d ts = .ruledOut u k := by
  simp only [WriterProxyState.arrivalOfData, if_neg hfresh]
  exact ruledOut_of_absorbed h _ _ _ _ _ _ _

theorem arrivalOfData_kept (h : d.absorbedBy own = false) :
    s.arrivalOfData own opener d ts = s.keptArrival opener d ts := by
  obtain ⟨hfiltered, hkey, helse⟩ := absorbedBy_eq_false h
  cases hopen : openPayload opener s.proxy.remoteWriterGuid (s.trustedOriginal d.inlineQos)
      d.serializedPayload d.nonStandardFlag with
  | none =>
    simp only [WriterProxyState.arrivalOfData, if_neg hfresh, if_neg hfiltered, if_neg hkey, helse,
      Bool.false_eq_true, if_false, WriterProxyState.keptArrival, hopen]
  | some payload =>
    simp only [WriterProxyState.arrivalOfData, if_neg hfresh, if_neg hfiltered, if_neg hkey, helse,
      Bool.false_eq_true, if_false, WriterProxyState.keptArrival, hopen]

end

theorem arrivalOfCompleted_absorbed {payload : Octets} (hcontent : d.HasContent)
    (hc : d.ReassembledAs c) (hmark : df.nonStandardFlag = d.nonStandardFlag)
    (h : d.absorbedBy own = true)
    (hopen : openPayload opener s.proxy.remoteWriterGuid (s.trustedOriginal d.inlineQos)
      d.serializedPayload d.nonStandardFlag = some payload) :
    ∃ u k, s.arrivalOfCompleted own opener df c ts = .ruledOut u k := by
  simp only [WriterProxyState.arrivalOfCompleted, hc.inlineQos, hc.payload, hc.keyFlag, hmark,
    hopen, completedChangeKind_eq hcontent hc]
  by_cases hbig : s.oversize payload = true
  · exact ⟨_, _, if_pos hbig⟩
  · rw [if_neg hbig]
    exact ruledOut_of_absorbed h _ _ _ _ _ _ _

theorem arrivalOfCompleted_kept (hcontent : d.HasContent) (hc : d.ReassembledAs c)
    (hsn : df.writerSn = d.writerSn) (hmark : df.nonStandardFlag = d.nonStandardFlag)
    (h : d.absorbedBy own = false) :
    s.arrivalOfCompleted own opener df c ts = s.keptArrival opener d ts := by
  obtain ⟨hfiltered, hkey, helse⟩ := absorbedBy_eq_false h
  cases hopen : openPayload opener s.proxy.remoteWriterGuid (s.trustedOriginal d.inlineQos)
      d.serializedPayload d.nonStandardFlag with
  | none =>
    simp only [WriterProxyState.arrivalOfCompleted, hc.inlineQos, hc.payload, hmark,
      WriterProxyState.keptArrival, hopen]
  | some payload =>
    simp only [WriterProxyState.arrivalOfCompleted, hc.inlineQos, hc.payload, hc.keyFlag, hmark,
      hsn, completedChangeKind_eq hcontent hc, if_neg hfiltered, if_neg hkey, helse,
      Bool.false_eq_true, if_false, changeOfCompleted_eq hcontent hc,
      WriterProxyState.keptArrival, hopen]

theorem arrivals_agree (hcontent : d.HasContent) (hc : d.ReassembledAs c)
    (hsn : df.writerSn = d.writerSn) (hmark : df.nonStandardFlag = d.nonStandardFlag)
    (hnew : s.proxy.isKnown d.writerSn = false) (hdel : s.deliveredUpTo < d.writerSn)
    (hopen : d.absorbedBy own = true → openPayload opener s.proxy.remoteWriterGuid
      (s.trustedOriginal d.inlineQos) d.serializedPayload d.nonStandardFlag ≠ none) :
    Arrival.Agree (s.arrivalOfData own opener d ts)
      (s.arrivalOfCompleted own opener df c ts) := by
  have hfresh : ¬(s.proxy.isKnown d.writerSn = true ∨ d.writerSn ≤ s.deliveredUpTo) := by
    rw [hnew]
    simpa using hdel
  cases habs : d.absorbedBy own with
  | true =>
    obtain ⟨payload, hpayload⟩ := Option.ne_none_iff_exists'.mp (hopen habs)
    obtain ⟨u, k, hdata⟩ : ∃ u k, s.arrivalOfData own opener d ts = .ruledOut u k :=
      arrivalOfData_absorbed hfresh habs
    obtain ⟨u', k', hfrag⟩ : ∃ u k, s.arrivalOfCompleted own opener df c ts = .ruledOut u k :=
      arrivalOfCompleted_absorbed hcontent hc hmark habs hpayload
    rw [hdata, hfrag]
    exact .ruledOut
  | false =>
    rw [arrivalOfData_kept hfresh habs, arrivalOfCompleted_kept hcontent hc hsn hmark habs]
    exact .refl _

/-! ### What follows from them -/

namespace Delivery

open WriterProxyState

variable {d : Delivery} {be : Bool}

def withAssembler (d : Delivery) (a : FragmentAssembler) : Delivery :=
  { d with state := { d.state with assembler := a } }

theorem alike_withAssembler (hd : d.state.Shape) (a : FragmentAssembler) :
    Alike (fun _ => True) d (d.withAssembler a) where
  shape := hd
  shape' := ⟨hd.absorbed, hd.cache⟩
  writer := ⟨rfl, rfl⟩
  trusted := rfl
  budget := rfl
  out := rfl
  delivered := rfl
  held _ := rfl
  track := rfl
  known _ _ := rfl
  first _ _ := Iff.rfl
  ahead _ _ := trivial

theorem storeReceived_assembler (s : WriterProxyState) (a : FragmentAssembler) (c : CacheChange) :
    storeReceived { s with assembler := a } c =
      ({ (s.storeReceived c).1 with assembler := a }, (s.storeReceived c).2) := by
  have hdisplace : displaceFor { s with assembler := a } c.sequenceNumber =
      { s.displaceFor c.sequenceNumber with assembler := a } := by
    unfold displaceFor
    by_cases hfull : s.receivedCache.kind = .keepAll ∧
        s.receivedCache.len ≥ s.receivedCache.maxSamples ∧
        (s.receivedCache.maxSn.any fun highest => c.sequenceNumber < highest) = true
    · simp only [hfull]
      rcases s.receivedCache.removeHighest with ⟨cache, _ | displaced⟩ <;> rfl
    · simp [hfull]
  simp only [storeReceived, hdisplace]
  rcases (s.displaceFor c.sequenceNumber).receivedCache.insert c with ⟨cache, _ | _⟩ <;> rfl

variable {c : CacheChange}

theorem storeAndCollect_alike (hd : d.state.Shape) (a : FragmentAssembler)
    (hnew : d.state.proxy.isKnown c.sequenceNumber = false)
    (hdel : d.state.deliveredUpTo < c.sequenceNumber) :
    Alike (fun _ => True)
      ((d.setProxy (·.receivedChangeSet c.sequenceNumber)).storeAndCollect be c).1
      (((d.withAssembler a).setProxy (·.receivedChangeSet c.sequenceNumber)).storeAndCollect
        be c).1 := by
  have hassembler := storeReceived_assembler
    (d.setProxy (·.receivedChangeSet c.sequenceNumber)).state a c
  rcases hstore : (d.setProxy (·.receivedChangeSet c.sequenceNumber)).state.storeReceived c with
    ⟨s, kept⟩
  obtain ⟨-, -, hshape, -⟩ := storeReceived_stream hd be c hnew hdel hstore
  rw [hstore] at hassembler
  have hstore' : ((d.withAssembler a).setProxy
      (·.receivedChangeSet c.sequenceNumber)).state.storeReceived c =
      ({ s with assembler := a }, kept) := hassembler
  unfold storeAndCollect
  rw [hstore, hstore']
  cases kept with
  | false => exact alike_withAssembler (d := { d with state := s }) hshape a
  | true => exact (alike_withAssembler (d := { d with state := s }) hshape a).collectInOrder

theorem markAndCollect_alike (hd : d.state.Shape) (a : FragmentAssembler) (sn : Int)
    (u u' : Ruling) :
    Alike (fun _ => True) (d.markAndCollect be (u.mark sn))
      ((d.withAssembler a).markAndCollect be (u'.mark sn)) := by
  have hmarks := ruling_marks hd.absorbed sn u
  have hmarks' := ruling_marks hd.absorbed sn u'
  refine Alike.collectInOrder ⟨⟨hmarks.absorbed, hd.cache⟩, ⟨hmarks'.absorbed, hd.cache⟩,
    ⟨hmarks'.guid.trans hmarks.guid.symm, rfl⟩, rfl, rfl, rfl, rfl, fun _ => rfl, rfl,
    fun n _ => ?_, fun n _ => ?_, fun _ _ => trivial⟩
  · exact Bool.eq_iff_iff.mpr ((hmarks'.known n).trans (hmarks.known n).symm)
  · have hfirst := hmarks.first
    have hfirst' := hmarks'.first
    simp only [setProxy, withAssembler]
    rw [hfirst, hfirst']

/-! ### A change that need not wait -/

theorem collectStep_of_empty (hempty : d.state.receivedCache.isEmpty = true)
    (hknown : d.state.proxy.isKnown (d.state.deliveredUpTo + 1) = false)
    (hfirst : d.state.proxy.firstAvailableSn ≤ d.state.deliveredUpTo + 1) :
    d.collectStep be = none := by
  cases hstep : d.collectStep be with
  | none => rfl
  | some e =>
    rcases collectStep_cases hstep with
      ⟨c, hc, -⟩ | ⟨-, ⟨hk, -⟩ | ⟨-, hlt, -⟩ | ⟨-, -, -, low, hlow, -⟩⟩
    · rw [isEmpty_iff_get.mp hempty] at hc
      cases hc
    · rw [hknown] at hk
      cases hk
    · omega
    · exact absurd (isEmpty_iff_get.mp hempty low) (minSn_spec hlow).1

theorem deliverDirect_eq (c : CacheChange)
    (hdel : (d.handDirect c).state.deliveredUpTo = c.sequenceNumber) :
    d.deliverDirect be c = (d.handDirect c).collectInOrder be := by
  unfold deliverDirect
  simp only
  split
  · rfl
  · next hdone =>
    simp only [not_or, Bool.not_eq_true, Bool.not_eq_false', not_lt] at hdone
    rw [collectInOrder_of_done (collectStep_of_empty hdone.1 (hdel ▸ hdone.2.1)
      (hdel ▸ hdone.2.2))]

theorem handDirect_eq (d : Delivery) (c : CacheChange) :
    ∃ n, d.handDirect c =
      { d with
        state := { d.state with
          proxy := if d.state.deliveredUpTo + 1 < c.sequenceNumber then
            (d.state.proxy.lostChangesUpdate (c.sequenceNumber + 1)).1 else d.state.proxy
          coherent := (CoherentTrack.follow d.state.coherent c).1
          deliveredUpTo := c.sequenceNumber
          deliveredAny := true
          lostChanges := n }
        out := d.out ++ HandOut.deliveries d.state.proxy.remoteWriterGuid
          ⟨c, (CoherentTrack.follow d.state.coherent c).2⟩ }.spend := by
  unfold handDirect
  simp only [handOut_eq]
  split
  · obtain ⟨n, hn⟩ := loseBefore_frame
      { d.state with
        coherent := (CoherentTrack.follow d.state.coherent c).1
        deliveredUpTo := c.sequenceNumber } (c.sequenceNumber + 1)
    exact ⟨n, by rw [hn]⟩
  · exact ⟨d.state.lostChanges, rfl⟩

theorem storeReceived_of_empty (hcache : KeepsAll s.receivedCache)
    (hempty : s.receivedCache.isEmpty = true) (hroom : 1 ≤ s.receivedCache.maxSamples) :
    s.storeReceived c = ({ s with receivedCache := s.receivedCache.put c }, true) := by
  have hlen : s.receivedCache.len = 0 := List.length_eq_zero_iff.mpr (List.isEmpty_iff.mp hempty)
  have hnot : ¬s.receivedCache.len ≥ s.receivedCache.maxSamples := by omega
  have hcontains : ¬s.receivedCache.changes.contains c.sequenceNumber = true := by
    rw [contains_iff_get]
    rintro ⟨ch, hch⟩
    rw [isEmpty_iff_get.mp hempty] at hch
    cases hch
  have hinsert : s.receivedCache.insert c = (s.receivedCache.put c, .ok none) := by
    rw [insert_keepAll hcache.kind hcache.depth, if_neg hcontains, if_neg hnot]
  have hdisplace : s.displaceFor c.sequenceNumber = s := by
    exact if_neg fun h => hnot h.2.1
  simp [storeReceived, hdisplace, hinsert]

def withStored (d : Delivery) (c : CacheChange) : Delivery :=
  { d with state := { d.state with
    proxy := d.state.proxy.receivedChangeSet c.sequenceNumber
    receivedCache := d.state.receivedCache.put c } }

theorem withStored_get (hempty : d.state.receivedCache.isEmpty = true) (c : CacheChange) (n : Int) :
    (d.withStored c).state.receivedCache.get n =
      if n = c.sequenceNumber then some c else none := by
  rw [withStored, get_put, isEmpty_iff_get.mp hempty n]

section

variable (hd : d.state.Shape)
include hd

theorem withStored_shape (c : CacheChange) : (d.withStored c).state.Shape :=
  ⟨(receivedChangeSet_spec hd.absorbed c.sequenceNumber).1, hd.cache.put c⟩

theorem handDirect_alike_next (hempty : d.state.receivedCache.isEmpty = true)
    (hsn : c.sequenceNumber = d.state.deliveredUpTo + 1) (a : FragmentAssembler) :
    Alike (fun _ => True)
      ((d.setProxy (·.receivedChangeSet c.sequenceNumber)).handDirect c)
      (((d.withAssembler a).withStored c).afterCached c) := by
  obtain ⟨habs, -⟩ := receivedChangeSet_spec hd.absorbed c.sequenceNumber
  obtain ⟨m, hdirect⟩ := (d.setProxy (·.receivedChangeSet c.sequenceNumber)).handDirect_eq c
  have hgap : ¬d.state.deliveredUpTo + 1 < c.sequenceNumber := by omega
  rw [hdirect]
  simp only [setProxy, hgap, if_false]
  refine ⟨⟨habs, hd.cache⟩, ⟨habs, (hd.cache.put c).removeUpTo _⟩, ⟨rfl, rfl⟩, rfl, rfl, rfl,
    hsn.symm, fun n => ?_, rfl, fun _ _ => rfl, fun _ _ => Iff.rfl, fun _ _ => trivial⟩
  have hstored := withStored_get (d := d.withAssembler a) hempty c n
  simp only [afterCached, spend, get_removeUpTo]
  rw [hstored, isEmpty_iff_get.mp hempty n]
  split
  · next hlt =>
    simp only [withStored, withAssembler] at hlt
    rw [if_neg (by omega)]
  · rfl

theorem handDirect_alike_jump (hempty : d.state.receivedCache.isEmpty = true)
    (hgap : d.state.deliveredUpTo + 1 < c.sequenceNumber)
    (a : FragmentAssembler) :
    Alike (fun n => n ≠ c.sequenceNumber)
      ((d.setProxy (·.receivedChangeSet c.sequenceNumber)).handDirect c)
      ((((d.withAssembler a).withStored c).afterSkip c.sequenceNumber).afterCached c) := by
  obtain ⟨habs, -⟩ := receivedChangeSet_spec hd.absorbed c.sequenceNumber
  obtain ⟨m, hdirect⟩ := (d.setProxy (·.receivedChangeSet c.sequenceNumber)).handDirect_eq c
  obtain ⟨m', hskip⟩ := ((d.withAssembler a).withStored c).state.loseBefore_frame c.sequenceNumber
  obtain ⟨hlost, hknown⟩ := lostChangesUpdate_spec habs (c.sequenceNumber + 1)
  obtain ⟨hlost', hknown'⟩ := lostChangesUpdate_spec habs c.sequenceNumber
  rw [hdirect]
  simp only [setProxy, hgap, if_true, afterSkip, hskip]
  refine ⟨⟨hlost, hd.cache⟩, ⟨hlost', (hd.cache.put c).removeUpTo _⟩,
    ⟨by simp [afterCached, withStored, withAssembler], rfl⟩, rfl, rfl, ?_, ?_, fun n => ?_, rfl,
    fun n hn => ?_, fun n hn => ?_, fun n hn => ?_⟩
  · simp [afterCached, spend, withStored, withAssembler]
  · simp [afterCached, spend]
  · have hstored := withStored_get (d := d.withAssembler a) hempty c n
    simp only [afterCached, spend, get_removeUpTo]
    rw [hstored, isEmpty_iff_get.mp hempty n]
    split
    · rw [if_neg (by omega)]
    · rfl
  · refine Bool.eq_iff_iff.mpr ?_
    simp only [afterCached, spend, withStored, withAssembler]
    rw [hknown n, hknown' n]
    constructor
    · rintro ⟨hle, hk⟩
      exact ⟨by omega, hk⟩
    · rintro ⟨hle, hk⟩
      exact ⟨by omega, hk⟩
  · simp only [spend] at hn
    simp only [afterCached, spend, withStored, withAssembler,
      lostChangesUpdate_firstAvailableSn]
    omega
  · simp only [spend] at hn
    omega

theorem storeAndCollect_of_empty (hempty : d.state.receivedCache.isEmpty = true)
    (hroom : 1 ≤ d.state.receivedCache.maxSamples) :
    ((d.setProxy (·.receivedChangeSet c.sequenceNumber)).storeAndCollect be c).1 =
      (d.withStored c).collectInOrder be := by
  have hstore := storeReceived_of_empty
    (s := (d.setProxy (·.receivedChangeSet c.sequenceNumber)).state) (c := c) hd.cache hempty hroom
  unfold storeAndCollect
  rw [hstore]
  rfl

end

theorem minSn_withStored (hempty : d.state.receivedCache.isEmpty = true) (c : CacheChange) :
    (d.withStored c).state.receivedCache.minSn = some c.sequenceNumber := by
  refine SortedMap.minKey?_eq_some.mpr ⟨⟨c, ?_⟩, fun k v hk => ?_⟩
  · have := withStored_get hempty c c.sequenceNumber
    rwa [if_pos rfl] at this
  · have hget : (d.withStored c).state.receivedCache.get k = some v := hk
    rw [withStored_get hempty c k] at hget
    split at hget
    · next heq => exact heq.ge
    · cases hget

theorem collect_stored_alike_next (hd : d.state.Shape)
    (hempty : d.state.receivedCache.isEmpty = true) (hbudget : d.budget ≠ some 0)
    (hsn : c.sequenceNumber = d.state.deliveredUpTo + 1) (a : FragmentAssembler) :
    Alike (fun _ => True)
      ((d.setProxy (·.receivedChangeSet c.sequenceNumber)).deliverDirect be c)
      (((d.withAssembler a).withStored c).collectInOrder be) := by
  have halike := handDirect_alike_next hd hempty hsn a
  have hshape := withStored_shape (d := d.withAssembler a) ⟨hd.absorbed, hd.cache⟩ c
  have hget : ((d.withAssembler a).withStored c).state.receivedCache.get
      (((d.withAssembler a).withStored c).state.deliveredUpTo + 1) = some c := by
    rw [withStored_get (d := d.withAssembler a) hempty c]
    exact if_pos hsn.symm
  obtain ⟨m, hdirect⟩ := (d.setProxy (·.receivedChangeSet c.sequenceNumber)).handDirect_eq c
  rw [deliverDirect_eq c (by rw [hdirect]; rfl), collectInOrder_of_step hshape.absorbed
    halike.shape'.absorbed (collectStep_of_cached hget hbudget)]
  exact halike.collectInOrder

theorem collect_stored_alike_jump (hd : d.state.Shape)
    (hempty : d.state.receivedCache.isEmpty = true) (hbudget : d.budget ≠ some 0)
    (hsettled : d.state.stream.Settled False) (hgap : d.state.deliveredUpTo + 1 < c.sequenceNumber)
    (a : FragmentAssembler) :
    Alike (fun n => n ≠ c.sequenceNumber)
      ((d.setProxy (·.receivedChangeSet c.sequenceNumber)).deliverDirect true c)
      (((d.withAssembler a).withStored c).collectInOrder true) := by
  have halike := handDirect_alike_jump hd hempty hgap a
  have hshape := withStored_shape (d := d.withAssembler a) ⟨hd.absorbed, hd.cache⟩ c
  obtain ⟨hunknown, hfirst⟩ : d.state.deliveredUpTo + 1 ∉ d.state.stream.known ∧
      d.state.proxy.firstAvailableSn ≤ d.state.deliveredUpTo + 1 := by
    rcases hsettled with ⟨-, hheld⟩ | ⟨-, hunknown, hfirst⟩
    · exact absurd (isEmpty_iff_get.mp hempty _) hheld
    · exact ⟨hunknown, hfirst⟩
  obtain ⟨-, hreceived⟩ := receivedChangeSet_spec hd.absorbed c.sequenceNumber
  have hknown : (d.state.proxy.receivedChangeSet c.sequenceNumber).isKnown
      (d.state.deliveredUpTo + 1) = false := by
    rw [Bool.eq_false_iff]
    intro hk
    rcases (hreceived _).mp hk with ⟨-, heq⟩ | hk
    · omega
    · exact hunknown hk
  have hnone : ((d.withAssembler a).withStored c).state.receivedCache.get
      (d.state.deliveredUpTo + 1) = none := by
    rw [withStored_get (d := d.withAssembler a) hempty c]
    exact if_neg (by omega)
  have hskip : ((d.withAssembler a).withStored c).collectStep true =
      some (((d.withAssembler a).withStored c).afterSkip c.sequenceNumber) :=
    collectStep_of_skip hnone hknown
      (by simpa [withStored, withAssembler] using hfirst)
      (minSn_withStored (d := d.withAssembler a) hempty c) hgap
  obtain ⟨m', hlose⟩ := ((d.withAssembler a).withStored c).state.loseBefore_frame c.sequenceNumber
  have hget : (((d.withAssembler a).withStored c).afterSkip
    c.sequenceNumber).state.receivedCache.get
      ((((d.withAssembler a).withStored c).afterSkip c.sequenceNumber).state.deliveredUpTo + 1) =
      some c := by
    simp only [afterSkip, hlose, sub_add_cancel]
    rw [withStored_get (d := d.withAssembler a) hempty c]
    exact if_pos rfl
  have habs : (((d.withAssembler a).withStored c).afterSkip
    c.sequenceNumber).state.proxy.Absorbed := by
    simp only [afterSkip, hlose]
    exact (lostChangesUpdate_spec hshape.absorbed c.sequenceNumber).1
  obtain ⟨m, hdirect⟩ := (d.setProxy (·.receivedChangeSet c.sequenceNumber)).handDirect_eq c
  rw [deliverDirect_eq c (by rw [hdirect]; rfl), collectInOrder_of_step hshape.absorbed habs hskip,
    collectInOrder_of_step habs halike.shape'.absorbed (collectStep_of_cached hget hbudget)]
  exact halike.collectInOrder

theorem takeArrival_alike (be : Bool) (hd : d.state.Shape) (hsettled : d.state.stream.Settled False)
    (hroom : 1 ≤ d.state.receivedCache.maxSamples) {x x' : Arrival} (hagree : Arrival.Agree x x')
    {sn : Int} (hnew : d.state.proxy.isKnown sn = false) (hdel : d.state.deliveredUpTo < sn)
    (hsn : ∀ c, x = .change c → c.sequenceNumber = sn) (a : FragmentAssembler) :
    ∃ ok, Alike ok (d.takeArrival be true sn x).1
        ((d.withAssembler a).takeArrival be false sn x').1 ∧
      ∀ n, (be = true → d.state.deliveredUpTo + 1 < sn → n ≠ sn) → ok n := by
  cases hagree with
  | ignored => exact ⟨_, alike_withAssembler hd a, fun _ _ => trivial⟩
  | ruledOut => exact ⟨_, markAndCollect_alike hd a sn _ _, fun _ _ => trivial⟩
  | change c =>
    obtain rfl := hsn c rfl
    have hstored : ((d.withAssembler a).takeArrival be false c.sequenceNumber (.change c)).1 =
        (((d.withAssembler a).setProxy (·.receivedChangeSet c.sequenceNumber)).storeAndCollect
          be c).1 := rfl
    rw [hstored]
    by_cases hdirect : d.state.receivedCache.isEmpty = true ∧
        (¬d.state.deliveredUpTo + 1 < c.sequenceNumber ∨ be = true) ∧ d.budget ≠ some 0
    · have hdata : (d.takeArrival be true c.sequenceNumber (.change c)).1 =
          (d.setProxy (·.receivedChangeSet c.sequenceNumber)).deliverDirect be c := by
        simp only [takeArrival]
        rw [if_pos ⟨trivial, hdirect⟩]
      obtain ⟨hempty, hnext, hbudget⟩ := hdirect
      rw [hdata, storeAndCollect_of_empty (d := d.withAssembler a) ⟨hd.absorbed, hd.cache⟩ hempty
        hroom]
      by_cases hgap : d.state.deliveredUpTo + 1 < c.sequenceNumber
      · obtain rfl : be = true := by
          rcases hnext with hnext | hbe
          · exact absurd hgap hnext
          · exact hbe
        exact ⟨_, collect_stored_alike_jump hd hempty hbudget hsettled hgap a,
          fun n hn => hn rfl hgap⟩
      · exact ⟨_, collect_stored_alike_next hd hempty hbudget (by omega) a, fun _ _ => trivial⟩
    · have hdata : (d.takeArrival be true c.sequenceNumber (.change c)).1 =
          ((d.setProxy (·.receivedChangeSet c.sequenceNumber)).storeAndCollect be c).1 := by
        simp only [takeArrival]
        rw [if_neg fun h => hdirect h.2]
      rw [hdata]
      exact ⟨_, storeAndCollect_alike hd a hnew hdel, fun _ _ => trivial⟩

end Delivery
end ZeroDds.Rtps
