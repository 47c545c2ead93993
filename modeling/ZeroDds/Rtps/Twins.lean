/-
States of a writer that no later call tells apart.
-/
import ZeroDds.Rtps.FragmentsAsData

namespace ZeroDds.Rtps

namespace WriterProxy

def Awaits (p : WriterProxy) (n : Int) : Prop := p.firstAvailableSn ≤ n ∧ p.isKnown n = false

instance (p : WriterProxy) (n : Int) : Decidable (p.Awaits n) :=
  inferInstanceAs (Decidable (_ ∧ _))

theorem filter_not_isKnown (p : WriterProxy) {lo : Int} (hlo : lo ≤ p.firstAvailableSn)
    (stop : Int) :
    (Int.range p.firstAvailableSn stop).filter (fun n => !p.isKnown n) =
      (Int.range lo stop).filter fun n => decide (p.Awaits n) := by
  rw [filter_range_of_reject hlo fun n _ hn => decide_eq_false fun h => not_lt.mpr h.1 hn]
  refine List.filter_congr fun n hn => ?_
  have hge := (Int.mem_range_iff.mp hn).1
  simp [Awaits, hge]

structure SameAbove (b : Int) (p p' : WriterProxy) : Prop where
  absorbed : p.Absorbed
  absorbed' : p'.Absorbed
  guid : p'.remoteWriterGuid = p.remoteWriterGuid
  last : p'.lastAvailableSn = p.lastAvailableSn
  awaits : ∀ n, p'.Awaits n ↔ p.Awaits n
  known : ∀ n, b < n → p'.isKnown n = p.isKnown n

namespace SameAbove

variable {b : Int} {p p' q q' : WriterProxy}

theorem refl (hp : p.Absorbed) (b : Int) : SameAbove b p p :=
  ⟨hp, hp, rfl, rfl, fun _ => Iff.rfl, fun _ _ => rfl⟩

section

variable (h : SameAbove b p p')
include h

theorem symm : SameAbove b p' p :=
  ⟨h.absorbed', h.absorbed, h.guid.symm, h.last.symm, fun n => (h.awaits n).symm,
    fun n hn => (h.known n hn).symm⟩

theorem mono {c : Int} (hc : b ≤ c) : SameAbove c p p' :=
  { h with known := fun n hn => h.known n (by omega) }

theorem first_le {n : Int} (hn : b < n) :
    p'.firstAvailableSn ≤ n ↔ p.firstAvailableSn ≤ n := by
  have hknown := h.known n hn
  cases hk : p.isKnown n with
  | true =>
    exact iff_of_true (h.absorbed'.first_le_of_isKnown (hknown.trans hk))
      (h.absorbed.first_le_of_isKnown hk)
  | false =>
    have hawaits := h.awaits n
    simp only [Awaits, hknown, hk, and_true] at hawaits
    exact hawaits

theorem filter_not_isKnown (stop : Int) :
    (Int.range p'.firstAvailableSn stop).filter (fun n => !p'.isKnown n) =
      (Int.range p.firstAvailableSn stop).filter fun n => !p.isKnown n := by
  rw [p'.filter_not_isKnown (min_le_right p.firstAvailableSn p'.firstAvailableSn),
    p.filter_not_isKnown (min_le_left p.firstAvailableSn p'.firstAvailableSn)]
  exact List.filter_congr fun n _ => by simp [h.awaits n]

theorem missingChanges (k : Nat) :
    p'.missingChanges k = p.missingChanges k := by
  rw [missingChanges_eq h.absorbed', missingChanges_eq h.absorbed, h.last, h.filter_not_isKnown]

theorem acknackBase : p'.acknackBase = p.acknackBase := by
  rw [acknackBase_eq h.absorbed', acknackBase_eq h.absorbed, h.last, ← List.head?_filter,
    ← List.head?_filter, h.filter_not_isKnown]

theorem lostChangesUpdate_snd (first : Int) :
    (p'.lostChangesUpdate first).2 = (p.lostChangesUpdate first).2 := by
  rw [WriterProxy.lostChangesUpdate_snd h.absorbed', WriterProxy.lostChangesUpdate_snd h.absorbed,
    h.filter_not_isKnown]

theorem lostChangesUpdate (first : Int) :
    SameAbove b (p.lostChangesUpdate first).1 (p'.lostChangesUpdate first).1 := by
  obtain ⟨habs, hknown⟩ := lostChangesUpdate_spec h.absorbed first
  obtain ⟨habs', hknown'⟩ := lostChangesUpdate_spec h.absorbed' first
  -- what is awaited afterwards is what was awaited at or above the new first number
  have hawaits : ∀ q : WriterProxy, q.Absorbed → ∀ n,
      (q.lostChangesUpdate first).1.Awaits n ↔ first ≤ n ∧ q.Awaits n := by
    intro q hq n
    simp only [Awaits, lostChangesUpdate_firstAvailableSn, max_le_iff, ← Bool.not_eq_true,
      (lostChangesUpdate_spec hq first).2 n]
    tauto
  refine ⟨habs, habs', by simpa using h.guid, by simpa using h.last, fun n => ?_, fun n hn => ?_⟩
  · rw [hawaits p' h.absorbed', hawaits p h.absorbed, h.awaits]
  · rw [Bool.eq_iff_iff, hknown, hknown', h.known n hn]

theorem updateFromHeartbeat (first last : Int) :
    SameAbove b (p.updateFromHeartbeat first last).1 (p'.updateFromHeartbeat first last).1 := by
  have hlost := h.lostChangesUpdate first
  refine ⟨(updateFromHeartbeat_spec h.absorbed first last).1,
    (updateFromHeartbeat_spec h.absorbed' first last).1, by simpa using h.guid,
    by simp [h.last], hlost.awaits, hlost.known⟩

theorem marks {ns : Set Int} (hm : Delivery.Marks p ns q)
    (hm' : Delivery.Marks p' ns q') : SameAbove b q q' := by
  have hawaits : ∀ p q : WriterProxy, Delivery.Marks p ns q → ∀ n,
      q.Awaits n ↔ p.Awaits n ∧ n ∉ ns := by
    intro p q hm n
    simp only [Awaits, hm.first, ← Bool.not_eq_true, hm.known n]
    tauto
  refine ⟨hm.absorbed, hm'.absorbed, hm'.guid.trans (h.guid.trans hm.guid.symm),
    hm'.last.trans (h.last.trans hm.last.symm), fun n => ?_, fun n hn => ?_⟩
  · rw [hawaits p' q' hm', hawaits p q hm, h.awaits]
  · rw [Bool.eq_iff_iff, hm.known, hm'.known, h.known n hn, h.first_le hn]

theorem unreceiveChangeSet {sn : Int} (hsn : b < sn) :
    SameAbove b (p.unreceiveChangeSet sn) (p'.unreceiveChangeSet sn) := by
  obtain ⟨habs, hknown⟩ := unreceiveChangeSet_spec h.absorbed sn
  obtain ⟨habs', hknown'⟩ := unreceiveChangeSet_spec h.absorbed' sn
  have hawaits : ∀ q : WriterProxy, q.Absorbed → ∀ n, (q.unreceiveChangeSet sn).Awaits n ↔
      q.Awaits n ∨ (n = sn ∧ q.firstAvailableSn ≤ sn) := by
    intro q hq n
    simp only [Awaits, unreceiveChangeSet_firstAvailableSn, ← Bool.not_eq_true,
      (unreceiveChangeSet_spec hq sn).2 n]
    constructor
    · rintro ⟨hfirst, hnot⟩
      by_cases hn : n = sn
      · exact .inr ⟨hn, hn ▸ hfirst⟩
      · exact .inl ⟨hfirst, fun hk => hnot ⟨hn, hk⟩⟩
    · rintro (⟨hfirst, hnot⟩ | ⟨rfl, hfirst⟩)
      · exact ⟨hfirst, fun hk => hnot hk.2⟩
      · exact ⟨hfirst, fun hk => hk.1 rfl⟩
  refine ⟨habs, habs', by simpa using h.guid, by simpa using h.last, fun n => ?_, fun n hn => ?_⟩
  · rw [hawaits p' h.absorbed', hawaits p h.absorbed, h.awaits, h.first_le hsn]
  · rw [Bool.eq_iff_iff, hknown, hknown', h.known n hn]

end

end SameAbove
end WriterProxy

namespace HistoryCache

theorem removeUpTo_frame (c : HistoryCache) (sn : Int) :
    ∃ ix stats, (c.removeUpTo sn).1 =
      { c with
        changes := c.changes.filter fun k _ => sn < k
        byInstance := ix
        stats := stats } := by
  unfold removeUpTo
  simp only
  split
  · exact ⟨_, c.stats, rfl⟩
  · exact ⟨_, _, rfl⟩

structure HoldsSame (c c' : HistoryCache) : Prop where
  keeps : WriterProxyState.KeepsAll c
  keeps' : WriterProxyState.KeepsAll c'
  changes : c'.changes = c.changes
  maxSamples : c'.maxSamples = c.maxSamples

namespace HoldsSame

variable {c c' : HistoryCache}

section

variable (h : HoldsSame c c')
include h

theorem symm : HoldsSame c' c :=
  ⟨h.keeps', h.keeps, h.changes.symm, h.maxSamples.symm⟩

theorem get (n : Int) : c'.get n = c.get n := by
  rw [HistoryCache.get, HistoryCache.get, h.changes]

theorem maxSn : c'.maxSn = c.maxSn := by
  rw [HistoryCache.maxSn, HistoryCache.maxSn, h.changes]

theorem minSn : c'.minSn = c.minSn := by
  rw [HistoryCache.minSn, HistoryCache.minSn, h.changes]

theorem len : c'.len = c.len := by
  rw [HistoryCache.len, HistoryCache.len, h.changes]

theorem isEmpty : c'.isEmpty = c.isEmpty := by
  rw [HistoryCache.isEmpty, HistoryCache.isEmpty, h.changes]

theorem put (ch : CacheChange) : HoldsSame (c.put ch) (c'.put ch) where
  keeps := h.keeps.put ch
  keeps' := h.keeps'.put ch
  changes := by
    show c'.changes.insert _ _ = c.changes.insert _ _
    rw [h.changes]
  maxSamples := h.maxSamples

theorem removeUpTo (sn : Int) :
    HoldsSame (c.removeUpTo sn).1 (c'.removeUpTo sn).1 := by
  obtain ⟨ix, stats, heq⟩ := c.removeUpTo_frame sn
  obtain ⟨ix', stats', heq'⟩ := c'.removeUpTo_frame sn
  refine ⟨h.keeps.removeUpTo sn, h.keeps'.removeUpTo sn, ?_, ?_⟩
  · rw [heq, heq', h.changes]
  · rw [heq, heq', h.maxSamples]

theorem removeHighest :
    HoldsSame c.removeHighest.1 c'.removeHighest.1 ∧ c'.removeHighest.2 = c.removeHighest.2 := by
  have hkeyed : ∀ {c : HistoryCache} (m : Int), WriterProxyState.KeepsAll c →
      WriterProxyState.KeepsAll (c.take m).1.refreshStats := by
    intro c m hc
    obtain ⟨hkind, -, hdepth⟩ := c.take_config m
    refine ⟨hkind.trans hc.kind, hdepth.trans hc.depth, fun n ch hn => ?_⟩
    have hn : (c.take m).1.get n = some ch := hn
    rw [get_take] at hn
    split at hn
    · cases hn
    · exact hc.keyed n ch hn
  unfold HistoryCache.removeHighest
  rw [h.maxSn]
  cases c.maxSn with
  | none => exact ⟨h, rfl⟩
  | some m =>
    refine ⟨⟨hkeyed m h.keeps, hkeyed m h.keeps', ?_, ?_⟩, ?_⟩
    · show (c'.take m).1.changes = (c.take m).1.changes
      simp only [take, h.get m]
      cases c.get m with
      | none => exact h.changes
      | some ch => simp [h.changes]
    · show (c'.take m).1.maxSamples = (c.take m).1.maxSamples
      rw [(take_config c' m).2.1, (take_config c m).2.1, h.maxSamples]
    · simp [take_snd, h.get m]

theorem insert (ch : CacheChange) :
    (∃ e e', c.insert ch = (c, .error e) ∧ c'.insert ch = (c', .error e')) ∨
      (c.insert ch = (c.put ch, .ok none) ∧ c'.insert ch = (c'.put ch, .ok none)) := by
  rw [insert_keepAll h.keeps.kind h.keeps.depth, insert_keepAll h.keeps'.kind h.keeps'.depth,
    h.changes, h.len, h.maxSamples]
  split
  · exact .inl ⟨_, _, rfl, rfl⟩
  · split
    · exact .inl ⟨_, _, rfl, rfl⟩
    · exact .inr ⟨rfl, rfl⟩

end

end HoldsSame
end HistoryCache

namespace Delivery

open WriterProxy HistoryCache WriterProxyState

def holding (d : Delivery) (p : WriterProxy) (c : HistoryCache) : Delivery :=
  { d with state := { d.state with proxy := p, receivedCache := c } }

/-- Deliveries that differ in what no later call sees: how the record keeps numbers
that are settled, and the cache its statistics. -/
inductive Twins (d : Delivery) : Delivery → Prop
  | intro {p : WriterProxy} {c : HistoryCache} :
      SameAbove d.state.deliveredUpTo d.state.proxy p → HoldsSame d.state.receivedCache c →
        Twins d (d.holding p c)

variable {d d' : Delivery} {be : Bool}

theorem Twins.symm (h : Twins d d') : Twins d' d := by
  obtain ⟨hp, hc⟩ := h
  exact .intro (d := d.holding _ _) hp.symm hc.symm

@[simp] theorem holding_state (d : Delivery) (p : WriterProxy) (c : HistoryCache) :
    (d.holding p c).state = { d.state with proxy := p, receivedCache := c } := rfl

theorem loseBefore_twins {s : WriterProxyState} {b : Int} {p : WriterProxy}
    (hp : SameAbove b s.proxy p) (c : HistoryCache) (first : Int) :
    loseBefore { s with proxy := p, receivedCache := c } first =
      { s.loseBefore first with
        proxy := (p.lostChangesUpdate first).1
        receivedCache := c } := by
  simp only [loseBefore, noteLost, hp.lostChangesUpdate_snd]
  split <;> rfl

theorem Twins.collectStep_some (h : Twins d d') {e : Delivery} (hstep : d.collectStep be = some e) :
    ∃ e', d'.collectStep be = some e' ∧ Twins e e' := by
  obtain ⟨hp, hc⟩ := h
  rename_i p c
  have hget : (d.holding p c).state.receivedCache.get (d.state.deliveredUpTo + 1) =
      d.state.receivedCache.get (d.state.deliveredUpTo + 1) := hc.get _
  have hknown : (d.holding p c).state.proxy.isKnown (d.state.deliveredUpTo + 1) =
      d.state.proxy.isKnown (d.state.deliveredUpTo + 1) := hp.known _ (by omega)
  have hfirst := hp.first_le (n := d.state.deliveredUpTo + 1) (by omega)
  rcases collectStep_cases hstep with
    ⟨ch, hch, hbudget, rfl⟩
    | ⟨hnone, ⟨hk, rfl⟩ | ⟨hk, hlt, rfl⟩ | ⟨hk, hge, rfl, low, hlow, hnext, rfl⟩⟩
  · refine ⟨_, collectStep_of_cached (hget.trans hch) hbudget, ?_⟩
    have hout : HandOut.deliveries p.remoteWriterGuid = HandOut.deliveries
        d.state.proxy.remoteWriterGuid := by rw [hp.guid]
    simp only [afterCached, holding, hout]
    exact .intro (hp.mono (by simp [spend])) (hc.removeUpTo _)
  · refine ⟨_, collectStep_of_known (hget.trans hnone) (hknown.trans hk), ?_⟩
    exact .intro (hp.mono (by simp [followCoherentSetPast])) hc
  · refine ⟨_, collectStep_of_gone (hget.trans hnone) (hknown.trans hk) ?_, ?_⟩
    · exact not_le.mp fun hle => not_le.mpr hlt (hfirst.mp hle)
    · exact .intro (hp.mono (by simp)) hc
  · refine ⟨_, collectStep_of_skip (hget.trans hnone) (hknown.trans hk) (hfirst.mpr hge)
      (hc.minSn.trans hlow) hnext, ?_⟩
    obtain ⟨m, hm⟩ := d.state.loseBefore_frame low
    simp only [afterSkip, holding_state, loseBefore_twins hp, hm]
    refine .intro (SameAbove.mono (b := d.state.deliveredUpTo) ?_ (by simp only; omega)) hc
    exact hp.lostChangesUpdate low

theorem Twins.absorbed (h : Twins d d') : d.state.proxy.Absorbed ∧ d'.state.proxy.Absorbed := by
  obtain ⟨hp, -⟩ := h
  exact ⟨hp.absorbed, hp.absorbed'⟩

theorem Twins.collectInOrder (h : Twins d d') :
    Twins (d.collectInOrder be) (d'.collectInOrder be) :=
  collectInOrder_related Twins.symm (fun h => h.absorbed.1)
    (fun h he => h.collectStep_some he) h

variable {s : WriterProxyState} {p : WriterProxy} {c : HistoryCache}

theorem displaceFor_twins (hp : SameAbove s.deliveredUpTo s.proxy p)
    (hc : HoldsSame s.receivedCache c) {sn : Int} (hsn : s.deliveredUpTo < sn) :
    ∃ q k q' k',
      s.displaceFor sn = { s with proxy := q, receivedCache := k } ∧
      displaceFor { s with proxy := p, receivedCache := c } sn =
        { s with proxy := q', receivedCache := k' } ∧
      SameAbove s.deliveredUpTo q q' ∧ HoldsSame k k' := by
  unfold displaceFor
  simp only [hc.keeps.kind, hc.keeps'.kind, hc.len, hc.maxSamples, hc.maxSn]
  split
  · next hfull =>
    obtain ⟨hremoved, hsame⟩ := hc.removeHighest
    -- what is displaced is the highest number, which lies above the new one
    have habove : ∀ ch, s.receivedCache.removeHighest.2 = some ch →
        s.deliveredUpTo < ch.sequenceNumber := by
      intro ch hch
      unfold HistoryCache.removeHighest at hch
      cases hmax : s.receivedCache.maxSn with
      | none => simp [hmax] at hch
      | some m =>
        simp only [hmax, take_snd] at hch
        have hlt : sn < m := by simpa [hmax] using hfull.2.2
        have := hc.keeps.keyed m ch hch
        omega
    rcases hres : s.receivedCache.removeHighest with ⟨k, _ | ch⟩
    · rcases hres' : c.removeHighest with ⟨k', _ | ch'⟩
      · rw [hres, hres'] at hremoved
        exact ⟨s.proxy, k, p, k', rfl, rfl, hp, hremoved⟩
      · rw [hres, hres'] at hsame
        cases hsame
    · rcases hres' : c.removeHighest with ⟨k', _ | ch'⟩
      · rw [hres, hres'] at hsame
        cases hsame
      · rw [hres, hres'] at hremoved hsame
        obtain rfl := Option.some.inj hsame
        exact ⟨_, k, _, k', rfl, rfl, hp.unreceiveChangeSet (habove ch' (by rw [hres])), hremoved⟩
  · exact ⟨s.proxy, s.receivedCache, p, c, rfl, rfl, hp, hc⟩

variable {ch : CacheChange}

theorem storeReceived_twins (hp : SameAbove s.deliveredUpTo s.proxy p)
    (hc : HoldsSame s.receivedCache c) (hsn : s.deliveredUpTo < ch.sequenceNumber) :
    ∃ q k q' k' kept,
      s.storeReceived ch = ({ s with proxy := q, receivedCache := k }, kept) ∧
      storeReceived { s with proxy := p, receivedCache := c } ch =
        ({ s with proxy := q', receivedCache := k' }, kept) ∧
      SameAbove s.deliveredUpTo q q' ∧ HoldsSame k k' := by
  obtain ⟨q, k, q', k', heq, heq', hq, hk⟩ := displaceFor_twins hp hc hsn
  unfold storeReceived
  simp only [heq, heq']
  rcases hk.insert ch with ⟨e, e', hins, hins'⟩ | ⟨hins, hins'⟩
  · simp only [hins, hins']
    exact ⟨_, k, _, k', false, rfl, rfl, hq.unreceiveChangeSet hsn, hk⟩
  · simp only [hins, hins']
    exact ⟨q, _, q', _, true, rfl, rfl, hq, hk.put ch⟩

theorem Twins.setProxy (h : Twins d d') {f : WriterProxy → WriterProxy} {ns : Set Int}
    (hf : ∀ p : WriterProxy, p.Absorbed → Marks p ns (f p)) :
    Twins (d.setProxy f) (d'.setProxy f) := by
  obtain ⟨hp, hc⟩ := h
  exact .intro (d := d.setProxy f) (hp.marks (hf _ hp.absorbed) (hf _ hp.absorbed')) hc

theorem Twins.storeAndCollect (h : Twins d d') (hsn : d.state.deliveredUpTo < ch.sequenceNumber) :
    Twins (d.storeAndCollect be ch).1 (d'.storeAndCollect be ch).1 ∧
      (d'.storeAndCollect be ch).2 = (d.storeAndCollect be ch).2 := by
  obtain ⟨hp, hc⟩ := h
  obtain ⟨q, k, q', k', kept, heq, heq', hq, hk⟩ := storeReceived_twins hp hc hsn
  unfold Delivery.storeAndCollect
  simp only [holding, heq, heq']
  have htwins : Twins { d with state := { d.state with proxy := q, receivedCache := k } }
      { d with state := { d.state with proxy := q', receivedCache := k' } } := .intro hq hk
  cases kept with
  | false => exact ⟨htwins, rfl⟩
  | true => exact ⟨htwins.collectInOrder, rfl⟩

theorem handDirect_eq_lose (d : Delivery) (ch : CacheChange) :
    d.handDirect ch =
      { d with
        state :=
          { (if d.state.deliveredUpTo + 1 < ch.sequenceNumber then
              d.state.loseBefore (ch.sequenceNumber + 1) else d.state) with
            coherent := (CoherentTrack.follow d.state.coherent ch).1
            deliveredUpTo := ch.sequenceNumber
            deliveredAny := true }
        out := d.out ++ HandOut.deliveries d.state.proxy.remoteWriterGuid
          ⟨ch, (CoherentTrack.follow d.state.coherent ch).2⟩ }.spend := by
  unfold handDirect
  simp only [handOut_eq]
  by_cases hgap : d.state.deliveredUpTo + 1 < ch.sequenceNumber
  · simp only [hgap, if_true, loseBefore, noteLost]
    split <;> rfl
  · simp [hgap]

theorem Twins.handDirect (h : Twins d d') (hsn : d.state.deliveredUpTo < ch.sequenceNumber) :
    Twins (d.handDirect ch) (d'.handDirect ch) := by
  obtain ⟨hp, hc⟩ := h
  rename_i p c
  have hout : HandOut.deliveries p.remoteWriterGuid = HandOut.deliveries
      d.state.proxy.remoteWriterGuid := by rw [hp.guid]
  have hdel := hp.mono hsn.le
  rw [handDirect_eq_lose, handDirect_eq_lose]
  simp only [holding_state, hout]
  by_cases hgap : d.state.deliveredUpTo + 1 < ch.sequenceNumber
  · obtain ⟨m, hm⟩ := d.state.loseBefore_frame (ch.sequenceNumber + 1)
    simp only [hgap, if_true, loseBefore_twins hp, hm]
    exact .intro (hdel.lostChangesUpdate (ch.sequenceNumber + 1)) hc
  · simp only [hgap, if_false]
    exact .intro hdel hc

theorem handDirect_deliveredUpTo (d : Delivery) (ch : CacheChange) :
    (d.handDirect ch).state.deliveredUpTo = ch.sequenceNumber := by
  rw [handDirect_eq_lose]
  rfl

theorem Twins.deliverDirect (h : Twins d d') (hsn : d.state.deliveredUpTo < ch.sequenceNumber) :
    Twins (d.deliverDirect be ch) (d'.deliverDirect be ch) := by
  rw [deliverDirect_eq ch (d.handDirect_deliveredUpTo ch),
    deliverDirect_eq ch (d'.handDirect_deliveredUpTo ch)]
  exact (h.handDirect hsn).collectInOrder

theorem takeArrival_direct {direct : Bool}
    (h : direct = true ∧ d.state.receivedCache.isEmpty = true ∧
      (¬d.state.deliveredUpTo + 1 < ch.sequenceNumber ∨ be = true) ∧ d.budget ≠ some 0) :
    d.takeArrival be direct ch.sequenceNumber (.change ch) =
      ((d.setProxy (·.receivedChangeSet ch.sequenceNumber)).deliverDirect be ch, none) := if_pos h

theorem takeArrival_stored {direct : Bool}
    (h : ¬(direct = true ∧ d.state.receivedCache.isEmpty = true ∧
      (¬d.state.deliveredUpTo + 1 < ch.sequenceNumber ∨ be = true) ∧ d.budget ≠ some 0)) :
    d.takeArrival be direct ch.sequenceNumber (.change ch) =
      (d.setProxy (·.receivedChangeSet ch.sequenceNumber)).storeAndCollect be ch := if_neg h

theorem Twins.takeArrival (h : Twins d d') (direct : Bool) {sn : Int} {x : Arrival}
    (hx : Fresh d.state sn x) :
    Twins (d.takeArrival be direct sn x).1 (d'.takeArrival be direct sn x).1 ∧
      (d'.takeArrival be direct sn x).2 = (d.takeArrival be direct sn x).2 := by
  cases x with
  | ignored k => exact ⟨h, rfl⟩
  | ruledOut u k =>
    exact ⟨(h.setProxy fun p hp => ruling_marks hp sn u).collectInOrder, rfl⟩
  | change ch =>
    obtain ⟨-, hdel, hch⟩ : _ ∧ _ ∧ _ := hx.resolve_left fun hig => by
      obtain ⟨k, hk⟩ := hig
      cases hk
    obtain rfl := hch ch rfl
    have hmarked := h.setProxy fun p hp => receivedChangeSet_marks hp ch.sequenceNumber
    have hempty : d'.state.receivedCache.isEmpty = d.state.receivedCache.isEmpty ∧
        d'.state.deliveredUpTo = d.state.deliveredUpTo ∧ d'.budget = d.budget := by
      obtain ⟨-, hc⟩ := h
      exact ⟨hc.isEmpty, rfl, rfl⟩
    by_cases hdirect : direct = true ∧ d.state.receivedCache.isEmpty = true ∧
        (¬d.state.deliveredUpTo + 1 < ch.sequenceNumber ∨ be = true) ∧ d.budget ≠ some 0
    · have hdirect' := hdirect
      rw [← hempty.1, ← hempty.2.1, ← hempty.2.2] at hdirect'
      rw [takeArrival_direct hdirect, takeArrival_direct hdirect']
      exact ⟨hmarked.deliverDirect hdel, rfl⟩
    · have hdirect' := hdirect
      rw [← hempty.1, ← hempty.2.1, ← hempty.2.2] at hdirect'
      rw [takeArrival_stored hdirect, takeArrival_stored hdirect']
      exact hmarked.storeAndCollect hdel

/-! ### The calls that can follow -/

/-- A call of a reader, or of its owner, as it reaches the state of one writer.  What
the consumer has room for is set anew between calls. -/
inductive StateCall where
  | data (own : Guid) (bestEffort : Bool) (opener : Option PayloadOpener) (data : DataSubmessage)
      (ts : Option HeTimestamp)
  | dataFrag (own : Guid) (bestEffort : Bool) (opener : Option PayloadOpener)
      (df : DataFragSubmessage) (ts : Option HeTimestamp)
  | heartbeat (bestEffort : Bool) (hb : HeartbeatSubmessage) (now : Nat)
  | gap (bestEffort : Bool) (gap : GapSubmessage)
  | release (bestEffort : Bool)
  | setReleaseBudget (budget : Option Nat)
  | setMaxSamples (max : Nat)
  | setForwarderTrusted (trusted : Bool)
  | setDataMaxSize (max : Option Nat)
  | setPendingAcknack (since : Option Nat)
  | commit (sn : Int)

def call (d : Delivery) : StateCall → Delivery
  | .data own be opener data ts => (d.receiveData own be opener data ts).1
  | .dataFrag own be opener df ts => (d.receiveDataFrag own be opener df ts).1
  | .heartbeat be hb now => d.receiveHeartbeat be hb now
  | .gap be gap => d.receiveGap be gap
  | .release be => d.collectInOrder be
  | .setReleaseBudget budget => { d with budget := budget }
  | .setMaxSamples max =>
    { d with state := { d.state with
      receivedCache := d.state.receivedCache.setKindAndMax d.state.receivedCache.kind max } }
  | .setForwarderTrusted trusted => { d with state := { d.state with forwarderTrusted := trusted } }
  | .setDataMaxSize max => { d with state := { d.state with dataMaxSize := max } }
  | .setPendingAcknack since => { d with state := { d.state with pendingAcknackSince := since } }
  | .commit sn =>
    { d with state := { d.state with committed := (d.state.committed.insert sn).1 } }

def calls (d : Delivery) (cs : List StateCall) : Delivery := cs.foldl call d

theorem arrivalOfData_twins (hp : SameAbove s.deliveredUpTo s.proxy p) (own : Guid)
    (opener : Option PayloadOpener) (data : DataSubmessage) (ts : Option HeTimestamp) :
    arrivalOfData { s with proxy := p, receivedCache := c } own opener data ts =
      s.arrivalOfData own opener data ts := by
  have hknown : (p.isKnown data.writerSn = true ∨ data.writerSn ≤ s.deliveredUpTo) ↔
      (s.proxy.isKnown data.writerSn = true ∨ data.writerSn ≤ s.deliveredUpTo) := by
    by_cases hdel : data.writerSn ≤ s.deliveredUpTo
    · exact iff_of_true (.inr hdel) (.inr hdel)
    · rw [hp.known _ (not_le.mp hdel)]
  simp only [arrivalOfData, trustedOriginal, oversize, hknown, hp.guid]
  rfl

theorem arrivalOfDataFrag_twins (hp : SameAbove s.deliveredUpTo s.proxy p) (own : Guid)
    (opener : Option PayloadOpener) (df : DataFragSubmessage) (ts : Option HeTimestamp) :
    arrivalOfDataFrag { s with proxy := p, receivedCache := c } own opener df ts =
      ({ (s.arrivalOfDataFrag own opener df ts).1 with proxy := p, receivedCache := c },
        (s.arrivalOfDataFrag own opener df ts).2) := by
  have hknown : (p.isKnown df.writerSn = true ∨ df.writerSn ≤ s.deliveredUpTo) ↔
      (s.proxy.isKnown df.writerSn = true ∨ df.writerSn ≤ s.deliveredUpTo) := by
    by_cases hdel : df.writerSn ≤ s.deliveredUpTo
    · exact iff_of_true (.inr hdel) (.inr hdel)
    · rw [hp.known _ (not_le.mp hdel)]
  simp only [arrivalOfDataFrag, hknown]
  split
  · rfl
  · rcases (s.assembler.insert df).2 with _ | completed
    · rfl
    · simp only [arrivalOfCompleted, trustedOriginal, oversize, hp.guid]
      rfl

theorem Twins.receiveData (h : Twins d d') (own : Guid) (opener : Option PayloadOpener)
    (data : DataSubmessage) (ts : Option HeTimestamp) :
    Twins (d.receiveData own be opener data ts).1 (d'.receiveData own be opener data ts).1 := by
  have harrival : d'.state.arrivalOfData own opener data ts =
      d.state.arrivalOfData own opener data ts := by
    obtain ⟨hp, -⟩ := h
    exact arrivalOfData_twins hp own opener data ts
  unfold Delivery.receiveData
  rw [harrival]
  exact (h.takeArrival true (arrivalOfData_fresh d.state own opener data ts)).1

theorem Twins.receiveDataFrag (h : Twins d d') (own : Guid) (opener : Option PayloadOpener)
    (df : DataFragSubmessage) (ts : Option HeTimestamp) :
    Twins (d.receiveDataFrag own be opener df ts).1
      (d'.receiveDataFrag own be opener df ts).1 := by
  obtain ⟨hp, hc⟩ := h
  rename_i p c
  obtain ⟨assembler, hframe⟩ := arrivalOfDataFrag_frame d.state own opener df ts
  have hfresh := arrivalOfDataFrag_fresh d.state own opener df ts
  have harrival := arrivalOfDataFrag_twins (c := c) hp own opener df ts
  have htwins : Twins { d with state := { d.state with assembler := assembler } }
      { d with state := { d.state with
        assembler := assembler, proxy := p, receivedCache := c } } := .intro hp hc
  unfold Delivery.receiveDataFrag
  simp only [holding_state, harrival, hframe]
  exact (htwins.takeArrival false hfresh).1

theorem Twins.receiveHeartbeat (h : Twins d d') (hb : HeartbeatSubmessage) (now : Nat) :
    Twins (d.receiveHeartbeat be hb now) (d'.receiveHeartbeat be hb now) := by
  obtain ⟨hp, hc⟩ := h
  rename_i p c
  have hupdate := hp.updateFromHeartbeat hb.firstSn hb.lastSn
  have hlost : (p.updateFromHeartbeat hb.firstSn hb.lastSn).2 =
      (d.state.proxy.updateFromHeartbeat hb.firstSn hb.lastSn).2 :=
    hp.lostChangesUpdate_snd hb.firstSn
  obtain ⟨n, hn, hn'⟩ : ∃ n,
      noteLost { d.state with
        lastHeartbeatAt := some now
        proxy := (d.state.proxy.updateFromHeartbeat hb.firstSn hb.lastSn).1 }
        (d.state.proxy.updateFromHeartbeat hb.firstSn hb.lastSn).2 =
        { d.state with
          lastHeartbeatAt := some now
          proxy := (d.state.proxy.updateFromHeartbeat hb.firstSn hb.lastSn).1
          lostChanges := n } ∧
      noteLost { d.state with
        lastHeartbeatAt := some now
        proxy := (p.updateFromHeartbeat hb.firstSn hb.lastSn).1
        receivedCache := c } (d.state.proxy.updateFromHeartbeat hb.firstSn hb.lastSn).2 =
        { d.state with
          lastHeartbeatAt := some now
          proxy := (p.updateFromHeartbeat hb.firstSn hb.lastSn).1
          receivedCache := c
          lostChanges := n } := by
    by_cases hany : d.state.deliveredAny = true
    · exact ⟨_, if_pos hany, if_pos hany⟩
    · exact ⟨d.state.lostChanges, if_neg hany, if_neg hany⟩
  unfold Delivery.receiveHeartbeat
  simp only [holding_state, hlost, hn, hn', hasMissingChanges, hupdate.missingChanges]
  split
  · exact Twins.collectInOrder (.intro hupdate hc)
  · exact Twins.collectInOrder (.intro hupdate hc)

theorem foldl_gap_twins (kind : NotAvailableKind) (ns : List Int)
    (hp : SameAbove s.deliveredUpTo s.proxy p) (c : HistoryCache) :
    ∃ q q' assembler,
      ns.foldl (fun s sn =>
        { s with
          proxy := s.proxy.notAvailableChangeSet sn kind
          assembler := s.assembler.discard sn }) s =
        { s with proxy := q, assembler := assembler } ∧
      ns.foldl (fun s sn =>
        { s with
          proxy := s.proxy.notAvailableChangeSet sn kind
          assembler := s.assembler.discard sn }) { s with proxy := p, receivedCache := c } =
        { s with proxy := q', receivedCache := c, assembler := assembler } ∧
      SameAbove s.deliveredUpTo q q' := by
  induction ns generalizing s p with
  | nil => exact ⟨s.proxy, p, s.assembler, rfl, rfl, hp⟩
  | cons sn ns ih =>
    exact ih (s := { s with
      proxy := s.proxy.notAvailableChangeSet sn kind
      assembler := s.assembler.discard sn })
      (hp.marks (notAvailableChangeSet_marks hp.absorbed sn kind)
        (notAvailableChangeSet_marks hp.absorbed' sn kind))

theorem Twins.receiveGap (h : Twins d d') (gap : GapSubmessage) :
    Twins (d.receiveGap be gap) (d'.receiveGap be gap) := by
  obtain ⟨hp, hc⟩ := h
  rename_i p c
  obtain ⟨q, q', assembler, heq, heq', hq⟩ :=
    foldl_gap_twins (gapKind gap) (gapNumbers gap) hp c
  unfold Delivery.receiveGap
  simp only [holding_state, heq, heq']
  exact Twins.collectInOrder (.intro hq hc)

theorem Twins.call (h : Twins d d') (x : StateCall) : Twins (d.call x) (d'.call x) := by
  cases x with
  | data own be opener data ts => exact h.receiveData own opener data ts
  | dataFrag own be opener df ts => exact h.receiveDataFrag own opener df ts
  | heartbeat be hb now => exact h.receiveHeartbeat hb now
  | gap be gap => exact h.receiveGap gap
  | release be => exact h.collectInOrder
  | setMaxSamples max =>
    obtain ⟨hp, hc⟩ := h
    exact .intro hp ⟨⟨hc.keeps.kind, hc.keeps.depth, hc.keeps.keyed⟩,
      ⟨hc.keeps'.kind, hc.keeps'.depth, hc.keeps'.keyed⟩, hc.changes, rfl⟩
  | _ =>
    obtain ⟨hp, hc⟩ := h
    exact .intro hp hc

theorem Twins.calls (h : Twins d d') (cs : List StateCall) : Twins (d.calls cs) (d'.calls cs) := by
  induction cs generalizing d d' with
  | nil => exact h
  | cons x cs ih => exact ih (h.call x)

end Delivery
end ZeroDds.Rtps
