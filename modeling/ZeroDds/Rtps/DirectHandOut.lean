/-
A DATA handed out without a stay in the receive cache.
-/
import ZeroDds.Rtps.DataOrFragments
import ZeroDds.Rtps.Twins

namespace ZeroDds.Rtps

/-! ### The path in the source -/

def directSample (writer : Guid) (data : DataSubmessage) (payload : Octets)
    (ts : Option HeTimestamp) (opened : Bool) : DeliveredSample where
  writerGuid := writer
  sequenceNumber := data.writerSn
  payload := payload
  kind := classifyChangeKind data
  keyHash := data.inlineQos.bind InlineQos.findKeyHash
  sourceTimestamp := ts
  coherentSetSn := coherentSetOf data.inlineQos
  coherentSetEnd := !data.dataFlag && !data.keyFlag && classifyChangeKind data = .alive
  relatedSampleIdentity := relatedSampleIdentityOf data.inlineQos
  eprosimaRelatedSampleIdentity := eprosimaRelatedSampleIdentityOf data.inlineQos
  group := data.inlineQos.bind InlineQos.findChangeGroupInfo
  coherentSetComplete := none
  originalWriter := originalWriterOf data.inlineQos
  forwardedBy := none
  nonStandardPayload := data.nonStandardFlag && !opened
  inlineQosOverride := InlineQosOverride.of data.inlineQos

namespace Delivery

open WriterProxy WriterProxyState

def receiveDirect (bestEffort : Bool) (d : Delivery) (data : DataSubmessage) (payload : Octets)
    (ts : Option HeTimestamp) (opened : Bool) : Delivery :=
  let sn := data.writerSn
  let gapSkipped := d.state.deliveredUpTo + 1 < sn
  let d := d.handOut (directSample d.state.proxy.remoteWriterGuid data payload ts opened)
  let s := { d.state with deliveredUpTo := sn }
  let s := if gapSkipped then s.loseBefore (sn + 1) else s
  let d : Delivery := { d with state := { s with deliveredAny := true } }.spend
  if !d.state.receivedCache.isEmpty ∨ d.state.proxy.isKnown (sn + 1) ∨
      sn + 1 < d.state.proxy.firstAvailableSn then
    d.collectInOrder bestEffort
  else d

def receiveThroughCache (bestEffort : Bool) (d : Delivery) (data : DataSubmessage)
    (payload : Octets) (ts : Option HeTimestamp) (opened : Bool) : Delivery :=
  (d.storeAndCollect bestEffort (changeOfData data payload ts opened)).1

structure GoesDirect (own : Guid) (be : Bool) (opener : Option PayloadOpener) (d : Delivery)
    (data : DataSubmessage) (payload : Octets) (ts : Option HeTimestamp) : Prop where
  change : d.state.arrivalOfData own opener data ts =
    .change (changeOfData data payload ts opener.isSome)
  empty : d.state.receivedCache.isEmpty = true
  next : ¬d.state.deliveredUpTo + 1 < data.writerSn ∨ be = true
  budget : d.budget ≠ some 0

variable {own : Guid} {be : Bool} {opener : Option PayloadOpener} {d : Delivery}
  {data : DataSubmessage} {payload : Octets} {ts : Option HeTimestamp}

theorem receiveData_direct (h : GoesDirect own be opener d data payload ts) :
    (d.receiveData own be opener data ts).1 =
      (d.setProxy (·.receivedChangeSet data.writerSn)).receiveDirect be data payload ts
        opener.isSome := by
  have hdirect := @takeArrival_direct _ _ (changeOfData data payload ts opener.isSome) true
    ⟨rfl, h.empty, h.next, h.budget⟩
  unfold receiveData
  rw [h.change]
  exact congrArg Prod.fst hdirect

/-! ### The two ways of one change -/

theorem holdsSame_put_removeUpTo {c : HistoryCache} (hc : KeepsAll c) (hempty : c.isEmpty = true)
    (ch : CacheChange) : c.HoldsSame ((c.put ch).removeUpTo ch.sequenceNumber).1 := by
  obtain ⟨ix, stats, heq⟩ := (c.put ch).removeUpTo_frame ch.sequenceNumber
  refine ⟨hc, (hc.put ch).removeUpTo _, SortedMap.ext_get? fun n => ?_, by rw [heq]; rfl⟩
  have hget : ((c.put ch).removeUpTo ch.sequenceNumber).1.get n = c.get n := by
    rw [HistoryCache.get_removeUpTo, HistoryCache.get_put,
      HistoryCache.isEmpty_iff_get.mp hempty n]
    split
    · rw [if_neg (by omega)]
    · rfl
  exact hget

theorem handDirect_twins_next (hd : d.state.Shape) {ch : CacheChange}
    (hempty : d.state.receivedCache.isEmpty = true)
    (hsn : ch.sequenceNumber = d.state.deliveredUpTo + 1) :
    Twins ((d.setProxy (·.receivedChangeSet ch.sequenceNumber)).handDirect ch)
      ((d.withStored ch).afterCached ch) := by
  have hmarks := receivedChangeSet_marks hd.absorbed ch.sequenceNumber
  rw [handDirect_eq_lose]
  simp only [setProxy, afterCached, withStored, ← hsn, lt_irrefl, if_false]
  exact .intro (.refl hmarks.absorbed _) (holdsSame_put_removeUpTo hd.cache hempty ch)

theorem sameAbove_lostChangesUpdate {p : WriterProxy} (hp : p.Absorbed) {sn : Int}
    (hsn : p.isKnown sn = true) :
    SameAbove sn (p.lostChangesUpdate (sn + 1)).1 (p.lostChangesUpdate sn).1 := by
  obtain ⟨habs, hknown⟩ := lostChangesUpdate_spec hp (sn + 1)
  obtain ⟨habs', hknown'⟩ := lostChangesUpdate_spec hp sn
  refine ⟨habs, habs', by simp, by simp, fun n => ?_, fun n hn => ?_⟩
  · simp only [Awaits, lostChangesUpdate_firstAvailableSn, max_le_iff, ← Bool.not_eq_true,
      hknown n, hknown' n]
    -- the number itself is awaited by neither
    by_cases heq : n = sn
    · subst heq
      simp [hsn]
    · constructor
      · rintro ⟨⟨hfirst, hle⟩, hnot⟩
        exact ⟨⟨hfirst, by omega⟩, fun hk => hnot ⟨hle, hk.2⟩⟩
      · rintro ⟨⟨hfirst, hle⟩, hnot⟩
        exact ⟨⟨hfirst, by omega⟩, fun hk => hnot ⟨by omega, hk.2⟩⟩
  · rw [Bool.eq_iff_iff, hknown n, hknown' n]
    constructor
    · exact fun hk => ⟨by omega, hk.2⟩
    · exact fun hk => ⟨by omega, hk.2⟩

theorem lostChangesUpdate_snd_succ {p : WriterProxy} (hp : p.Absorbed) {sn : Int}
    (hsn : p.isKnown sn = true) :
    (p.lostChangesUpdate (sn + 1)).2 = (p.lostChangesUpdate sn).2 := by
  rw [lostChangesUpdate_snd hp, lostChangesUpdate_snd hp,
    range_snoc (hp.first_le_of_isKnown hsn), List.filter_append]
  simp [hsn]

theorem handDirect_twins_jump (hd : d.state.Shape) {ch : CacheChange}
    (hempty : d.state.receivedCache.isEmpty = true)
    (hfirst : d.state.proxy.firstAvailableSn ≤ ch.sequenceNumber)
    (hgap : d.state.deliveredUpTo + 1 < ch.sequenceNumber) :
    Twins ((d.setProxy (·.receivedChangeSet ch.sequenceNumber)).handDirect ch)
      (((d.withStored ch).afterSkip ch.sequenceNumber).afterCached ch) := by
  obtain ⟨habs, hknown⟩ := receivedChangeSet_spec hd.absorbed ch.sequenceNumber
  have hsn := (hknown ch.sequenceNumber).mpr (.inl ⟨hfirst, rfl⟩)
  have hlost := lostChangesUpdate_snd_succ habs hsn
  have hsame := sameAbove_lostChangesUpdate habs hsn
  have hcache := holdsSame_put_removeUpTo hd.cache hempty ch
  obtain ⟨m, hdirect, hskip⟩ : ∃ m,
      loseBefore { d.state with proxy := d.state.proxy.receivedChangeSet ch.sequenceNumber }
          (ch.sequenceNumber + 1) =
        { d.state with
          proxy := ((d.state.proxy.receivedChangeSet ch.sequenceNumber).lostChangesUpdate
            (ch.sequenceNumber + 1)).1
          lostChanges := m } ∧
      (d.withStored ch).state.loseBefore ch.sequenceNumber =
        { d.state with
          proxy := ((d.state.proxy.receivedChangeSet ch.sequenceNumber).lostChangesUpdate
            ch.sequenceNumber).1
          receivedCache := d.state.receivedCache.put ch
          lostChanges := m } := by
    unfold loseBefore noteLost
    simp only [hlost]
    by_cases hany : d.state.deliveredAny = true
    · exact ⟨_, if_pos hany, if_pos hany⟩
    · exact ⟨d.state.lostChanges, if_neg hany, if_neg hany⟩
  rw [handDirect_eq_lose]
  simp only [setProxy, hgap, if_true, hdirect, afterSkip, hskip, afterCached, sub_add_cancel,
    lostChangesUpdate_remoteWriterGuid]
  exact .intro hsame hcache

theorem direct_twins (hd : d.state.Shape) (hsettled : d.state.stream.Settled False)
    (hroom : 1 ≤ d.state.receivedCache.maxSamples) {ch : CacheChange}
    (hdel : d.state.deliveredUpTo < ch.sequenceNumber)
    (hempty : d.state.receivedCache.isEmpty = true)
    (hnext : ¬d.state.deliveredUpTo + 1 < ch.sequenceNumber ∨ be = true)
    (hbudget : d.budget ≠ some 0) :
    Twins ((d.setProxy (·.receivedChangeSet ch.sequenceNumber)).deliverDirect be ch)
      ((d.setProxy (·.receivedChangeSet ch.sequenceNumber)).storeAndCollect be ch).1 := by
  have hshape := withStored_shape hd ch
  -- with nothing held, delivery stands right before a number it awaits
  obtain ⟨hunknown, hfirst⟩ : d.state.deliveredUpTo + 1 ∉ d.state.stream.known ∧
      d.state.proxy.firstAvailableSn ≤ d.state.deliveredUpTo + 1 := by
    rcases hsettled with ⟨-, hheld⟩ | ⟨-, hunknown, hfirst⟩
    · exact absurd (HistoryCache.isEmpty_iff_get.mp hempty _) hheld
    · exact ⟨hunknown, hfirst⟩
  have hget : ∀ n, (d.withStored ch).state.receivedCache.get n =
      if n = ch.sequenceNumber then some ch else none := withStored_get hempty ch
  rw [deliverDirect_eq ch (handDirect_deliveredUpTo _ ch), storeAndCollect_of_empty hd hempty hroom]
  by_cases hgap : d.state.deliveredUpTo + 1 < ch.sequenceNumber
  · obtain rfl : be = true := hnext.resolve_left (not_not.mpr hgap)
    have htwins := handDirect_twins_jump hd hempty (by omega) hgap
    have hknown : (d.withStored ch).state.proxy.isKnown (d.state.deliveredUpTo + 1) = false := by
      rw [Bool.eq_false_iff]
      intro hk
      rcases ((receivedChangeSet_spec hd.absorbed _).2 _).mp hk with ⟨-, heq⟩ | hk
      · omega
      · exact hunknown hk
    have hskip : (d.withStored ch).collectStep true =
        some ((d.withStored ch).afterSkip ch.sequenceNumber) :=
      collectStep_of_skip
        ((hget _).trans (if_neg (show d.state.deliveredUpTo + 1 ≠ ch.sequenceNumber by omega)))
        hknown
        (by simpa [withStored] using hfirst) (minSn_withStored hempty ch) hgap
    obtain ⟨m, hlose⟩ := (d.withStored ch).state.loseBefore_frame ch.sequenceNumber
    have hnextget : ((d.withStored ch).afterSkip ch.sequenceNumber).state.receivedCache.get
        (((d.withStored ch).afterSkip ch.sequenceNumber).state.deliveredUpTo + 1) = some ch := by
      simp only [afterSkip, hlose, sub_add_cancel]
      exact (hget _).trans (if_pos rfl)
    have habs : ((d.withStored ch).afterSkip ch.sequenceNumber).state.proxy.Absorbed := by
      simp only [afterSkip, hlose]
      exact (lostChangesUpdate_spec hshape.absorbed ch.sequenceNumber).1
    rw [collectInOrder_of_step hshape.absorbed habs hskip,
      collectInOrder_of_step habs htwins.absorbed.2 (collectStep_of_cached hnextget hbudget)]
    exact htwins.collectInOrder
  · have hsn : ch.sequenceNumber = d.state.deliveredUpTo + 1 := by omega
    have htwins := handDirect_twins_next hd hempty hsn
    have hnextget : (d.withStored ch).state.receivedCache.get
        ((d.withStored ch).state.deliveredUpTo + 1) = some ch :=
      (hget _).trans (if_pos hsn.symm)
    rw [collectInOrder_of_step hshape.absorbed htwins.absorbed.2
      (collectStep_of_cached hnextget hbudget)]
    exact htwins.collectInOrder

/-! ### What later calls see -/

/-- The same was handed out, as much is left to hand out and lost, and the record
answers alike. -/
structure AnswersAlike (d d' : Delivery) : Prop where
  out : d'.out = d.out
  deliveredUpTo : d'.state.deliveredUpTo = d.state.deliveredUpTo
  deliveredAny : d'.state.deliveredAny = d.state.deliveredAny
  budget : d'.budget = d.budget
  lostChanges : d'.state.lostChanges = d.state.lostChanges
  coherent : d'.state.coherent = d.state.coherent
  isKnown : ∀ n, d.state.deliveredUpTo < n →
    d'.state.proxy.isKnown n = d.state.proxy.isKnown n
  missingChanges : ∀ k, d'.state.proxy.missingChanges k = d.state.proxy.missingChanges k
  acknackBase : d'.state.proxy.acknackBase = d.state.proxy.acknackBase

theorem Twins.answersAlike {d' : Delivery} (h : Twins d d') : AnswersAlike d d' := by
  obtain ⟨hp, -⟩ := h
  exact ⟨rfl, rfl, rfl, rfl, rfl, rfl, hp.known, hp.missingChanges, hp.acknackBase⟩

end Delivery

namespace ReliableReader

open Delivery

variable {r : ReliableReader} {s : WriterProxyState} {opener : Option PayloadOpener}
  {data : DataSubmessage} {payload : Octets} {ts : Option HeTimestamp}

end ReliableReader

namespace ReaderFixture

open ReliableReader

def withHole : ReliableReader :=
  (run matchStep (makeReader 4) [.call (.setBestEffort true), .call (gapOp 2)]).1

def withHoleState : WriterProxyState := (withHole.writerProxies.head?).getD (writerState 4)

end ReaderFixture
end ZeroDds.Rtps
