/-
The handlers refine the stream.
-/
import ZeroDds.Rtps.InOrder

namespace ZeroDds.Rtps

open HistoryCache WriterProxy

/-! ### Storing a change -/

namespace HistoryCache

variable {c : HistoryCache}

theorem contains_iff_get {n : Int} :
    c.changes.contains n = true ↔ ∃ ch, c.get n = some ch := SortedMap.contains_iff

theorem isEmpty_iff_get : c.isEmpty = true ↔ ∀ n, c.get n = none :=
  SortedMap.isEmpty_iff

theorem maxSn_mem {m : Int} (h : c.maxSn = some m) :
    ∃ ch, c.get m = some ch := (SortedMap.maxKey?_eq_some.mp h).1

theorem minSn_spec {m : Int} (h : c.minSn = some m) :
    c.get m ≠ none ∧ ∀ n, c.get n ≠ none → m ≤ n := by
  obtain ⟨⟨ch, hch⟩, hmin⟩ := SortedMap.minKey?_eq_some.mp h
  refine ⟨by simp [get, hch], fun n hn => ?_⟩
  obtain ⟨ch', hch'⟩ := Option.ne_none_iff_exists'.mp hn
  exact hmin n ch' hch'

theorem take_config (c : HistoryCache) (sn : Int) :
    (c.take sn).1.kind = c.kind ∧ (c.take sn).1.maxSamples = c.maxSamples ∧
      (c.take sn).1.perInstanceDepth = c.perInstanceDepth := by
  unfold take
  split <;> exact ⟨rfl, rfl, rfl⟩

theorem take_snd (c : HistoryCache) (sn : Int) : (c.take sn).2 = c.get sn := by
  unfold take
  split <;> simp_all

end HistoryCache

namespace WriterProxyState

def displacedBy (s : WriterProxyState) (sn : Int) : Option Int :=
  if s.receivedCache.len ≥ s.receivedCache.maxSamples then
    s.receivedCache.maxSn.filter fun highest => sn < highest
  else none

variable {s : WriterProxyState} {cache : HistoryCache}

theorem displacedBy_spec {sn h : Int} (hd : s.displacedBy sn = some h) :
    sn < h ∧ s.receivedCache.maxSn = some h := by
  unfold displacedBy at hd
  split at hd
  · obtain ⟨hmax, hlt⟩ := Option.filter_eq_some_iff.mp hd
    exact ⟨by simpa using hlt, hmax⟩
  · cases hd

theorem displaceFor_spec (hs : s.Shape) (sn : Int) :
    ∃ proxy cache, s.displaceFor sn = { s with proxy := proxy, receivedCache := cache } ∧
      proxy.Absorbed ∧ KeepsAll cache ∧
      proxy.remoteWriterGuid = s.proxy.remoteWriterGuid ∧
      proxy.firstAvailableSn = s.proxy.firstAvailableSn ∧
      proxy.lastAvailableSn = s.proxy.lastAvailableSn ∧
      (∀ n, proxy.isKnown n = true ↔ s.displacedBy sn ≠ some n ∧ s.proxy.isKnown n = true) ∧
      (∀ n, cache.get n = if s.displacedBy sn = some n then none else s.receivedCache.get n) := by
  cases hd : s.displacedBy sn with
  | none =>
    have hcond : ¬(s.receivedCache.kind = .keepAll ∧
        s.receivedCache.len ≥ s.receivedCache.maxSamples ∧
        (s.receivedCache.maxSn.any fun highest => sn < highest) = true) := by
      rintro ⟨-, hfull, hany⟩
      cases hm : s.receivedCache.maxSn with
      | none => simp [hm] at hany
      | some m =>
        have hlt : sn < m := by simpa [hm] using hany
        simp [displacedBy, hfull, hm, Option.filter, hlt] at hd
    rw [displaceFor, if_neg hcond]
    exact ⟨s.proxy, s.receivedCache, rfl, hs.absorbed, hs.cache, rfl, rfl, rfl, by simp, by simp⟩
  | some h =>
    obtain ⟨hlt, hmax⟩ := displacedBy_spec hd
    obtain ⟨ch, hch⟩ := maxSn_mem hmax
    have hfull : s.receivedCache.len ≥ s.receivedCache.maxSamples := by
      by_contra hnot
      simp [displacedBy, hnot] at hd
    have hremove : s.receivedCache.removeHighest =
        ((s.receivedCache.take h).1.refreshStats, some ch) := by
      simp [HistoryCache.removeHighest, hmax, take_snd, hch]
    have hcond : s.receivedCache.kind = .keepAll ∧
        s.receivedCache.len ≥ s.receivedCache.maxSamples ∧
        (s.receivedCache.maxSn.any fun highest => sn < highest) = true :=
      ⟨hs.cache.kind, hfull, by simp [hmax, hlt]⟩
    obtain ⟨hkind, -, hdepth⟩ := s.receivedCache.take_config h
    have hget : ∀ n, (s.receivedCache.take h).1.refreshStats.get n =
        if n = h then none else s.receivedCache.get n := s.receivedCache.get_take h
    obtain ⟨habs, hknown⟩ := unreceiveChangeSet_spec hs.absorbed h
    rw [displaceFor, if_pos hcond, hremove]
    simp only [hs.cache.keyed h ch hch]
    refine ⟨s.proxy.unreceiveChangeSet h, (s.receivedCache.take h).1.refreshStats, rfl, habs,
      ⟨hkind.trans hs.cache.kind, hdepth.trans hs.cache.depth, fun n c hn => ?_⟩,
      by simp, by simp, by simp, fun n => ?_, fun n => ?_⟩
    · rw [hget] at hn
      split at hn
      · cases hn
      · exact hs.cache.keyed n c hn
    · rw [hknown n, ne_eq, ne_eq, Option.some.injEq, eq_comm]
    · rw [hget]
      exact if_congr (by rw [Option.some.injEq, eq_comm]) rfl rfl

theorem KeepsAll.put (h : KeepsAll cache) (c : CacheChange) :
    KeepsAll (cache.put c) where
  kind := h.kind
  depth := h.depth
  keyed n ch hn := by
    rw [get_put] at hn
    split at hn
    · next heq => rw [← Option.some.inj hn, heq]
    · exact h.keyed n ch hn

theorem KeepsAll.removeUpTo (h : KeepsAll cache) (sn : Int) :
    KeepsAll (cache.removeUpTo sn).1 where
  kind := by unfold HistoryCache.removeUpTo; simp only; split <;> exact h.kind
  depth := by unfold HistoryCache.removeUpTo; simp only; split <;> exact h.depth
  keyed n ch hn := by
    rw [get_removeUpTo] at hn
    split at hn
    · exact h.keyed n ch hn
    · cases hn

theorem KeepsAll.insert_cases (h : KeepsAll cache) (c : CacheChange) :
    (∃ e, cache.insert c = (cache, .error e)) ∨
      (cache.get c.sequenceNumber = none ∧ cache.insert c = (cache.put c, .ok none)) := by
  rw [insert_keepAll h.kind h.depth]
  split
  · exact .inl ⟨_, rfl⟩
  · next hc =>
    split
    · exact .inl ⟨_, rfl⟩
    · refine .inr ⟨?_, rfl⟩
      rw [contains_iff_get, not_exists] at hc
      exact Option.eq_none_iff_forall_ne_some.mpr hc

theorem storeReceived_stream (hs : s.Shape) (be : Bool) (c : CacheChange)
    (hnew : s.proxy.isKnown c.sequenceNumber = false) (hdel : s.deliveredUpTo < c.sequenceNumber)
    {s' : WriterProxyState} {kept : Bool}
    (h : { s with proxy := s.proxy.receivedChangeSet c.sequenceNumber }.storeReceived c =
      (s', kept)) :
    s.stream.Accepts be (.store c (s.displacedBy c.sequenceNumber) kept) ∧
      s'.stream = s.stream.take (.store c (s.displacedBy c.sequenceNumber) kept) ∧
      s'.Shape ∧ SameWriter s s' := by
  obtain ⟨habs, hrec⟩ := receivedChangeSet_spec hs.absorbed c.sequenceNumber
  obtain ⟨proxy, cache, heq, habs', hkeep, hguid, hfirst, hlast, hknown, hget⟩ :=
    displaceFor_spec (s := { s with proxy := s.proxy.receivedChangeSet c.sequenceNumber })
      ⟨habs, hs.cache⟩ c.sequenceNumber
  have hdisp : { s with proxy := s.proxy.receivedChangeSet c.sequenceNumber }.displacedBy
      c.sequenceNumber = s.displacedBy c.sequenceNumber := rfl
  simp only [hdisp, receivedChangeSet_firstAvailableSn,
    receivedChangeSet_lastAvailableSn,
    receivedChangeSet_remoteWriterGuid] at hguid hfirst hlast hknown hget
  have hdisplaced : ∀ n, s.displacedBy c.sequenceNumber = some n →
      c.sequenceNumber < n ∧ s.stream.held n ≠ none := fun n hn => by
    obtain ⟨hlt, hmax⟩ := displacedBy_spec hn
    obtain ⟨ch, hch⟩ := maxSn_mem hmax
    exact ⟨hlt, by simp [stream, hch]⟩
  have hself : cache.get c.sequenceNumber = s.receivedCache.get c.sequenceNumber := by
    rw [hget, if_neg]
    intro hn
    have := (hdisplaced _ hn).1
    omega
  have hmem : ∀ n, n ∈ (s.stream.mark {c.sequenceNumber}).known ∧
        s.displacedBy c.sequenceNumber ≠ some n ↔ proxy.isKnown n = true := fun n => by
    rw [hknown n, hrec n]
    constructor
    · rintro ⟨h | ⟨rfl, h⟩, hd⟩
      · exact ⟨hd, .inr h⟩
      · exact ⟨hd, .inl ⟨h, rfl⟩⟩
    · rintro ⟨hd, ⟨h, rfl⟩ | h⟩
      · exact ⟨.inr ⟨rfl, h⟩, hd⟩
      · exact ⟨.inl h, hd⟩
  have hnotKnown := not_mem_stream_known hnew
  rw [storeReceived, heq] at h
  rcases hkeep.insert_cases c with ⟨e, hins⟩ | ⟨hnone, hins⟩ <;> simp only [hins] at h <;>
    obtain ⟨rfl, rfl⟩ := Prod.mk.inj h
  · -- there already, or no room: the mark is taken back
    obtain ⟨habs'', hun⟩ := unreceiveChangeSet_spec habs' c.sequenceNumber
    refine ⟨⟨hnotKnown, hdel, hdisplaced, by simp⟩, ?_, ⟨habs'', hkeep⟩, ⟨by simp [hguid], rfl⟩⟩
    refine Stream.ext (by simp [stream, Stream.take, hfirst]) (by simp [stream, Stream.take, hlast])
      rfl (Set.ext fun n => ?_) (funext fun n => ?_) rfl
    · simp only [Stream.take, Set.mem_ofPred_eq, mem_stream_known, hun n, ← hmem n]
      tauto
    · simp [stream, Stream.take, hget]
  · refine ⟨⟨hnotKnown, hdel, hdisplaced, fun _ => hself.symm.trans hnone⟩, ?_,
      ⟨habs', ?_⟩, ⟨hguid, rfl⟩⟩
    · refine Stream.ext hfirst hlast rfl (Set.ext fun n => ?_) (funext fun n => ?_) rfl
      · simp only [Stream.take, Set.mem_ofPred_eq, mem_stream_known, ← hmem n]
        simp
      · simp [stream, Stream.take, hget]
    · exact hkeep.put c

end WriterProxyState

namespace WriterProxyState

theorem loseBefore_spec {s : WriterProxyState} (hs : s.Shape) (first : Int) :
    (s.loseBefore first).stream = s.stream.forgetBefore first ∧ (s.loseBefore first).Shape ∧
      SameWriter s (s.loseBefore first) := by
  obtain ⟨n, hn⟩ := s.loseBefore_frame first
  obtain ⟨habs, hknown⟩ := lostChangesUpdate_spec hs.absorbed first
  rw [hn]
  refine ⟨?_, ⟨habs, hs.cache⟩, ⟨by simp, rfl⟩⟩
  refine Stream.ext (by simp [stream, Stream.forgetBefore]) (by simp [stream, Stream.forgetBefore])
    rfl (Set.ext fun m => ?_) rfl rfl
  simp only [stream, Stream.forgetBefore, Set.mem_ofPred_eq, hknown m]
  tauto

end WriterProxyState

namespace Delivery

open WriterProxyState

structure After (be : Bool) (d : Delivery) (out : List HandOut) (d' : Delivery) : Prop where
  turns : Stream.Turns be d.state.stream out d'.state.stream
  shape : d'.state.Shape
  same : SameWriter d.state d'.state
  deliveries : d'.out = d.out ++ out.flatMap (HandOut.deliveries d.state.proxy.remoteWriterGuid)
  budget : d.budget = none → d'.budget = none

variable {d : Delivery}

theorem After.refl {be : Bool} (h : d.state.Shape) : After be d [] d :=
  ⟨.done _, h, .refl _, by simp, id⟩

theorem After.trans {be : Bool} {d' d'' : Delivery} {out out' : List HandOut}
    (h : After be d out d') (h' : After be d' out' d'') : After be d (out ++ out') d'' where
  turns := h.turns.append h'.turns
  shape := h'.shape
  same := h.same.trans h'.same
  deliveries := by
    rw [h'.deliveries, h.deliveries, h.same.guid, List.flatMap_append, List.append_assoc]
  budget hb := h'.budget (h.budget hb)

theorem collectStep_after {be : Bool} {d' : Delivery} (hd : d.state.Shape)
    (h : d.collectStep be = some d') : ∃ out, After be d out d' := by
  rcases collectStep_cases h with
    ⟨c, hget, -, rfl⟩ | ⟨hget, ⟨hk, rfl⟩ | ⟨hk, hlt, rfl⟩ | ⟨hk, hge, hbe, low, hlow, hnext, rfl⟩⟩
  · have hsn := hd.cache.keyed _ _ hget
    have hcache : KeepsAll (d.state.receivedCache.removeUpTo (d.state.deliveredUpTo + 1)).1 :=
      hd.cache.removeUpTo _
    have hstream : (d.afterCached c).state.stream =
        { d.state.stream.advance c with
          held := fun n =>
            if d.state.deliveredUpTo + 1 < n then d.state.stream.held n else none } :=
      Stream.ext rfl rfl hsn.symm rfl
        (funext fun n => get_removeUpTo _ _ _) rfl
    refine ⟨[⟨c, (CoherentTrack.follow d.state.coherent c).2⟩], ?_, ⟨hd.absorbed, hcache⟩,
      ⟨rfl, rfl⟩, by simp [afterCached], fun hb => spend_budget_eq_none.mpr hb⟩
    rw [hstream]
    exact .single (.cached hget hsn)
  · exact ⟨[], .single (.known hget hk), ⟨hd.absorbed, hd.cache⟩, ⟨rfl, rfl⟩, by simp, id⟩
  · exact ⟨[], .single (.gone hget (not_mem_stream_known hk) hlt), ⟨hd.absorbed, hd.cache⟩,
      ⟨rfl, rfl⟩, by simp, id⟩
  · obtain ⟨hstream, hshape, hsame⟩ := loseBefore_spec hd low
    obtain ⟨hheld, hmin⟩ := minSn_spec hlow
    have hskip : (d.afterSkip low).state.stream =
        { d.state.stream.forgetBefore low with delivered := low - 1 } := by
      rw [← hstream]
      rfl
    refine ⟨[], ?_, ⟨hshape.absorbed, hshape.cache⟩, ⟨hsame.guid, hsame.committed⟩,
      by simp [afterSkip], id⟩
    rw [hskip]
    exact .single (.skip hbe hget (not_mem_stream_known hk) hge hnext hheld hmin)

theorem collectInOrder_after (be : Bool) (hd : d.state.Shape) :
    ∃ out, After be d out (d.collectInOrder be) := by
  refine collectInOrder_induct (P := fun d' => ∃ out, After be d out d') ?_ ⟨[], .refl hd⟩
  rintro d' d'' ⟨out, h⟩ hstep
  obtain ⟨out', h'⟩ := collectStep_after h.shape hstep
  exact ⟨out ++ out', h.trans h'⟩

theorem collectInOrder_settled (be : Bool) (hd : d.state.Shape) {u : Prop}
    (hu : u → d.budget = none) : (d.collectInOrder be).state.stream.Settled u := by
  obtain ⟨out, h⟩ := collectInOrder_after be hd
  rcases collectStep_eq_none (collectStep_collectInOrder be hd.absorbed) with
    ⟨hb, hheld⟩ | ⟨hnone, hk, hge⟩
  · refine .inl ⟨fun hu' => ?_, hheld⟩
    rw [h.budget (hu hu')] at hb
    cases hb
  · exact .inr ⟨hnone, not_mem_stream_known hk, hge⟩

structure Called (be : Bool) (u : Prop) (d : Delivery) (i : Intake) (out : List HandOut)
    (d' : Delivery) : Prop where
  call : Stream.Call be u d.state.stream i out d'.state.stream
  shape : d'.state.Shape
  same : SameWriter d.state d'.state
  deliveries : d'.out = d.out ++ out.flatMap (HandOut.deliveries d.state.proxy.remoteWriterGuid)
  budget : d.budget = none → d'.budget = none

variable {be : Bool} {u : Prop} {d d₁ : Delivery} {i : Intake}

theorem called_nothing (hstream : d₁.state.stream = d.state.stream) (hshape : d₁.state.Shape)
    (hsame : SameWriter d.state d₁.state) (hout : d₁.out = d.out) (hbudget : d₁.budget = d.budget) :
    Called be u d .nothing [] d₁ where
  call := ⟨trivial, ⟨[], by rw [hstream]; exact .done _, rfl⟩, by rw [hstream]; exact id⟩
  shape := hshape
  same := hsame
  deliveries := by simp [hout]
  budget h := hbudget.trans h

theorem called_collect (hu : u → d.budget = none) (haccepts : d.state.stream.Accepts be i)
    (hstream : d₁.state.stream = d.state.stream.take i) (hshape : d₁.state.Shape)
    (hsame : SameWriter d.state d₁.state)
    (hout : d₁.out = d.out ++
      (d.state.stream.takeOut i).flatMap (HandOut.deliveries d.state.proxy.remoteWriterGuid))
    (hbudget : d.budget = none → d₁.budget = none) :
    ∃ out, Called be u d i out (d₁.collectInOrder be) := by
  obtain ⟨later, h⟩ := collectInOrder_after be hshape
  refine ⟨d.state.stream.takeOut i ++ later, ⟨haccepts, ⟨later, hstream ▸ h.turns, rfl⟩, ?_⟩,
    h.shape, hsame.trans h.same, ?_, fun hb => h.budget (hbudget hb)⟩
  · exact fun _ => collectInOrder_settled be hshape fun hu' => hbudget (hu hu')
  · rw [h.deliveries, hout, hsame.guid, List.flatMap_append, List.append_assoc]

structure Marks (p : WriterProxy) (ns : Set Int) (p' : WriterProxy) : Prop where
  absorbed : p'.Absorbed
  guid : p'.remoteWriterGuid = p.remoteWriterGuid
  first : p'.firstAvailableSn = p.firstAvailableSn
  last : p'.lastAvailableSn = p.lastAvailableSn
  known : ∀ n, p'.isKnown n = true ↔ p.isKnown n = true ∨ (n ∈ ns ∧ p.firstAvailableSn ≤ n)

variable {s : WriterProxyState} {ns : Set Int} {p : WriterProxy} {c : CacheChange}

theorem Marks.stream (h : Marks s.proxy ns p) (s' : WriterProxyState) (hproxy : s'.proxy = p)
    (hcache : s'.receivedCache = s.receivedCache) (hdel : s'.deliveredUpTo = s.deliveredUpTo)
    (htrack : s'.coherent = s.coherent) : s'.stream = s.stream.mark ns := by
  subst hproxy
  exact Stream.ext h.first h.last hdel (Set.ext h.known)
    (by simp [WriterProxyState.stream, Stream.mark, hcache]) htrack

theorem Marks.single {p' : WriterProxy} {sn : Int} (hspec : p'.Absorbed ∧ ∀ n, p'.isKnown n = true ↔
      (p.firstAvailableSn ≤ sn ∧ n = sn) ∨ p.isKnown n = true)
    (hguid : p'.remoteWriterGuid = p.remoteWriterGuid)
    (hfirst : p'.firstAvailableSn = p.firstAvailableSn)
    (hlast : p'.lastAvailableSn = p.lastAvailableSn) : Marks p {sn} p' := by
  refine ⟨hspec.1, hguid, hfirst, hlast, fun n => ?_⟩
  rw [hspec.2 n, Set.mem_singleton_iff]
  constructor
  · rintro (⟨h, rfl⟩ | h)
    · exact .inr ⟨rfl, h⟩
    · exact .inl h
  · rintro (h | ⟨rfl, h⟩)
    · exact .inr h
    · exact .inl ⟨h, rfl⟩

theorem Marks.refl (hp : p.Absorbed) : Marks p ∅ p :=
  ⟨hp, rfl, rfl, rfl, by simp⟩

theorem Marks.trans {p' p'' : WriterProxy} {ms : Set Int} (h : Marks p ns p')
    (h' : Marks p' ms p'') : Marks p (ns ∪ ms) p'' where
  absorbed := h'.absorbed
  guid := h'.guid.trans h.guid
  first := h'.first.trans h.first
  last := h'.last.trans h.last
  known n := by
    rw [h'.known n, h.known n, h.first, Set.mem_union]
    tauto

theorem receivedChangeSet_marks (hp : p.Absorbed) (sn : Int) :
    Marks p {sn} (p.receivedChangeSet sn) :=
  .single (receivedChangeSet_spec hp sn) (by simp) (by simp) (by simp)

theorem irrelevantChangeSet_marks (hp : p.Absorbed) (sn : Int) :
    Marks p {sn} (p.irrelevantChangeSet sn) :=
  .single (irrelevantChangeSet_spec hp sn) (by simp) (by simp) (by simp)

theorem notAvailableChangeSet_marks (hp : p.Absorbed) (sn : Int) (kind : NotAvailableKind) :
    Marks p {sn} (p.notAvailableChangeSet sn kind) :=
  .single (notAvailableChangeSet_spec hp sn kind) (by simp) (by simp) (by simp)

theorem ruling_marks (hp : p.Absorbed) (sn : Int) (ruling : Ruling) :
    Marks p {sn} (ruling.mark sn p) := by
  cases ruling with
  | irrelevant => exact irrelevantChangeSet_marks hp sn
  | filtered => exact notAvailableChangeSet_marks hp sn .filtered
  | receivedIrrelevant =>
    have h := receivedChangeSet_marks hp sn
    simpa [Ruling.mark] using h.trans (irrelevantChangeSet_marks h.absorbed sn)

theorem markAndCollect_called (be : Bool) (hd : d.state.Shape) (hu : u → d.budget = none)
    {f : WriterProxy → WriterProxy} (hf : Marks d.state.proxy ns (f d.state.proxy)) :
    ∃ out, Called be u d (.rule ns) out (d.markAndCollect be f) :=
  called_collect hu trivial (hf.stream (d.setProxy f).state rfl rfl rfl rfl)
    ⟨hf.absorbed, hd.cache⟩ ⟨hf.guid, rfl⟩ (by simp [setProxy, Stream.takeOut]) id

theorem receiveHeartbeat_called (be : Bool) (hd : d.state.Shape) (hu : u → d.budget = none)
    (hb : HeartbeatSubmessage) (now : Nat) :
    ∃ out, Called be u d (.announce hb.firstSn hb.lastSn) out (d.receiveHeartbeat be hb now) := by
  obtain ⟨habs, hknown⟩ :=
    updateFromHeartbeat_spec hd.absorbed hb.firstSn hb.lastSn
  obtain ⟨n, hn⟩ := noteLost_frame
    { d.state with
      lastHeartbeatAt := some now
      proxy := (d.state.proxy.updateFromHeartbeat hb.firstSn hb.lastSn).1 }
    (d.state.proxy.updateFromHeartbeat hb.firstSn hb.lastSn).2
  have hstream : ∀ s' : WriterProxyState,
      s'.proxy = (d.state.proxy.updateFromHeartbeat hb.firstSn hb.lastSn).1 →
      s'.receivedCache = d.state.receivedCache → s'.deliveredUpTo = d.state.deliveredUpTo →
      s'.coherent = d.state.coherent →
      s'.stream = d.state.stream.take (.announce hb.firstSn hb.lastSn) := by
    intro s' hproxy hcache hdel htrack
    refine Stream.ext ?_ ?_ hdel (Set.ext fun m => ?_) ?_ htrack
    · simp [stream, Stream.take, Stream.forgetBefore, hproxy]
    · simp [stream, Stream.take, Stream.forgetBefore, hproxy]
    · simp only [stream, Stream.take, Stream.forgetBefore, Set.mem_ofPred_eq, hproxy, hknown m]
      tauto
    · simp [stream, Stream.take, Stream.forgetBefore, hcache]
  unfold receiveHeartbeat
  simp only [hn]
  split
  · exact called_collect hu trivial (hstream _ rfl rfl rfl rfl) ⟨habs, hd.cache⟩ ⟨by simp, rfl⟩
      (by simp [Stream.takeOut]) id
  · exact called_collect hu trivial (hstream _ rfl rfl rfl rfl) ⟨habs, hd.cache⟩ ⟨by simp, rfl⟩
      (by simp [Stream.takeOut]) id

theorem foldl_notAvailable (kind : NotAvailableKind) (ns : List Int) (hp : s.proxy.Absorbed) :
    ∃ proxy assembler,
      ns.foldl
        (fun s sn =>
          { s with
            proxy := s.proxy.notAvailableChangeSet sn kind
            assembler := s.assembler.discard sn }) s =
        { s with proxy := proxy, assembler := assembler } ∧
      Marks s.proxy {n | n ∈ ns} proxy := by
  induction ns generalizing s with
  | nil => exact ⟨s.proxy, s.assembler, rfl, by simpa using Marks.refl hp⟩
  | cons sn ns ih =>
    have h := notAvailableChangeSet_marks hp sn kind
    obtain ⟨proxy, assembler, heq, hmarks⟩ := ih
      (s := { s with
        proxy := s.proxy.notAvailableChangeSet sn kind
        assembler := s.assembler.discard sn }) h.absorbed
    refine ⟨proxy, assembler, heq, ?_⟩
    have hset : ({n | n ∈ sn :: ns} : Set Int) = {sn} ∪ {n | n ∈ ns} := by
      ext n
      simp
    rw [hset]
    exact h.trans hmarks

theorem receiveGap_called (be : Bool) (hd : d.state.Shape) (hu : u → d.budget = none)
    (gap : GapSubmessage) :
    ∃ out, Called be u d (.rule {n | n ∈ gapNumbers gap}) out (d.receiveGap be gap) := by
  obtain ⟨proxy, assembler, heq, hmarks⟩ :=
    foldl_notAvailable (gapKind gap) (gapNumbers gap) hd.absorbed
  unfold receiveGap
  simp only [heq]
  exact called_collect hu trivial (hmarks.stream _ rfl rfl rfl rfl)
    ⟨hmarks.absorbed, hd.cache⟩ ⟨hmarks.guid, rfl⟩ (by simp [Stream.takeOut]) id

theorem handDirect_spec (hd : d.state.Shape) (c : CacheChange)
    (hd₁ : d₁ = (d.setProxy (·.receivedChangeSet c.sequenceNumber)).handDirect c) :
    d₁.state.stream = d.state.stream.take (.hand c) ∧ d₁.state.Shape ∧
      SameWriter d.state d₁.state ∧
      d₁.out = d.out ++ (d.state.stream.takeOut (.hand c)).flatMap
        (HandOut.deliveries d.state.proxy.remoteWriterGuid) ∧
      (d.budget = none → d₁.budget = none) := by
  have hmarks := receivedChangeSet_marks hd.absorbed c.sequenceNumber
  -- the state before anything that was skipped is given up
  let s : WriterProxyState :=
    { d.state with
      proxy := d.state.proxy.receivedChangeSet c.sequenceNumber
      coherent := (CoherentTrack.follow d.state.coherent c).1
      deliveredUpTo := c.sequenceNumber }
  have hs : s.Shape := ⟨hmarks.absorbed, hd.cache⟩
  have hstream : s.stream = (d.state.stream.mark {c.sequenceNumber}).advance c := by
    rw [← hmarks.stream { d.state with
      proxy := d.state.proxy.receivedChangeSet c.sequenceNumber } rfl rfl rfl rfl]
    rfl
  unfold handDirect at hd₁
  rw [handOut_eq (d.setProxy (·.receivedChangeSet c.sequenceNumber)) c] at hd₁
  simp only [setProxy, hmarks.guid] at hd₁
  by_cases hgap : d.state.deliveredUpTo + 1 < c.sequenceNumber
  · obtain ⟨hlose, hshape, hsame⟩ := loseBefore_spec hs (c.sequenceNumber + 1)
    simp only [hgap, if_true] at hd₁
    subst hd₁
    refine ⟨?_, ⟨hshape.absorbed, hshape.cache⟩, ⟨hsame.guid.trans hmarks.guid, hsame.committed⟩,
      by simp [Stream.takeOut, stream], fun hb => spend_budget_eq_none.mpr hb⟩
    have hgap' : d.state.stream.delivered + 1 < c.sequenceNumber := hgap
    rw [Stream.take, if_pos hgap', ← hstream, ← hlose]
    rfl
  · simp only [hgap, if_false] at hd₁
    subst hd₁
    refine ⟨?_, ⟨hmarks.absorbed, hd.cache⟩, ⟨hmarks.guid, rfl⟩, by simp [Stream.takeOut, stream],
      fun hb => spend_budget_eq_none.mpr hb⟩
    have hgap' : ¬d.state.stream.delivered + 1 < c.sequenceNumber := hgap
    rw [Stream.take, if_neg hgap', ← hstream]
    rfl

theorem deliverDirect_called (hd : d.state.Shape) (hu : u → d.budget = none)
    (haccepts : d.state.stream.Accepts be (.hand c)) :
    ∃ out, Called be u d (.hand c) out
      ((d.setProxy (·.receivedChangeSet c.sequenceNumber)).deliverDirect be c) := by
  unfold deliverDirect
  simp only
  generalize hd₁ : (d.setProxy (·.receivedChangeSet c.sequenceNumber)).handDirect c = d₁
  obtain ⟨hstream, hshape, hsame, hout, hbudget⟩ := handDirect_spec hd c hd₁.symm
  split
  · exact called_collect hu haccepts hstream hshape hsame hout hbudget
  · next hdone =>
    simp only [not_or, Bool.not_eq_true, Bool.not_eq_false', not_lt] at hdone
    refine ⟨d.state.stream.takeOut (.hand c), ⟨haccepts, ⟨[], hstream ▸ .done _, by simp⟩, ?_⟩,
      hshape, hsame, hout, hbudget⟩
    have hdel : d₁.state.stream.delivered = c.sequenceNumber := by
      rw [hstream]
      simp only [Stream.take]
      split <;> rfl
    refine fun _ => .inr ⟨isEmpty_iff_get.mp hdone.1 _, ?_, ?_⟩
    · rw [hdel]
      exact not_mem_stream_known hdone.2.1
    · rw [hdel]
      exact hdone.2.2

theorem storeAndCollect_called (be : Bool) (hd : d.state.Shape) (hu : u → d.budget = none)
    (hnew : d.state.proxy.isKnown c.sequenceNumber = false)
    (hdel : d.state.deliveredUpTo < c.sequenceNumber) :
    ∃ kept out, Called be u d (.store c (d.state.displacedBy c.sequenceNumber) kept) out
      ((d.setProxy (·.receivedChangeSet c.sequenceNumber)).storeAndCollect be c).1 := by
  unfold storeAndCollect
  split
  · next s hstore =>
    obtain ⟨haccepts, hstream, hshape, hsame⟩ :=
      storeReceived_stream hd be c hnew hdel hstore
    refine ⟨false, [], ⟨haccepts, ⟨[], hstream ▸ .done _, rfl⟩, ?_⟩, hshape, hsame,
      by simp [setProxy],
      id⟩
    rw [hstream]
    exact haccepts.settled_refused
  · next s hstore =>
    obtain ⟨haccepts, hstream, hshape, hsame⟩ :=
      storeReceived_stream hd be c hnew hdel hstore
    exact ⟨true, called_collect hu haccepts hstream hshape hsame
      (by simp [setProxy, Stream.takeOut]) id⟩

inductive Brings (s : WriterProxyState) (sn : Int) : Arrival → Intake → Prop
  | ignored {counter : Option ReaderCounter} : Brings s sn (.ignored counter) .nothing
  | ruledOut {ruling : Ruling} {counter : Option ReaderCounter} :
      Brings s sn (.ruledOut ruling counter) (.rule {sn})
  | stored {c : CacheChange} (kept : Bool) :
      Brings s sn (.change c) (.store c (s.displacedBy c.sequenceNumber) kept)
  | handed {c : CacheChange} : Brings s sn (.change c) (.hand c)

def Fresh (s : WriterProxyState) (sn : Int) (a : Arrival) : Prop :=
  (∃ counter, a = .ignored counter) ∨
    (s.proxy.isKnown sn = false ∧ s.deliveredUpTo < sn ∧
      ∀ c, a = .change c → c.sequenceNumber = sn)

theorem takeArrival_called (be : Bool) (hd : d.state.Shape)
    (hu : u → d.budget = none) (direct : Bool)
    {sn : Int} {a : Arrival} (hfresh : Fresh d.state sn a) :
    ∃ i out, Brings d.state sn a i ∧ Called be u d i out (d.takeArrival be direct sn a).1 := by
  cases a with
  | ignored counter =>
    exact ⟨.nothing, [], .ignored, called_nothing rfl hd (.refl _) rfl rfl⟩
  | ruledOut ruling counter =>
    obtain ⟨out, h⟩ := markAndCollect_called be hd hu (ruling_marks hd.absorbed sn ruling)
    exact ⟨.rule {sn}, out, .ruledOut, h⟩
  | change c =>
    obtain ⟨counter, h⟩ | ⟨hnew, hdel, hsn⟩ := hfresh
    · cases h
    obtain rfl := hsn c rfl
    unfold takeArrival
    simp only
    split
    · next hdirect =>
      obtain ⟨-, hempty, horder, -⟩ := hdirect
      have haccepts : d.state.stream.Accepts be (.hand c) := by
        refine ⟨not_mem_stream_known hnew, hdel, isEmpty_iff_get.mp hempty, ?_⟩
        rcases horder with h | h
        · have h : ¬d.state.deliveredUpTo + 1 < c.sequenceNumber := h
          exact .inr (show c.sequenceNumber = d.state.deliveredUpTo + 1 by omega)
        · exact .inl h
      obtain ⟨out, h⟩ := deliverDirect_called hd hu haccepts
      exact ⟨.hand c, out, .handed, h⟩
    · obtain ⟨kept, out, h⟩ := storeAndCollect_called be hd hu hnew hdel
      exact ⟨_, out, .stored kept, h⟩

theorem arrivalOfData_fresh (s : WriterProxyState) (own : Guid) (opener : Option PayloadOpener)
    (data : DataSubmessage) (ts : Option HeTimestamp) :
    Fresh s data.writerSn (s.arrivalOfData own opener data ts) := by
  unfold arrivalOfData
  simp only
  split
  · exact .inl ⟨_, rfl⟩
  · next h =>
    simp only [not_or, Bool.not_eq_true, not_le] at h
    refine .inr ⟨h.1, h.2, fun c hc => ?_⟩
    split_ifs at hc
    split at hc
    · cases hc
    · split at hc
      · cases hc
      · rw [← Arrival.change.inj hc]
        rfl

theorem arrivalOfCompleted_sn {own : Guid} {opener : Option PayloadOpener}
    {df : DataFragSubmessage} {completed : CompletedSample} {ts : Option HeTimestamp}
    (h : s.arrivalOfCompleted own opener df completed ts = .change c) :
    c.sequenceNumber = df.writerSn := by
  unfold arrivalOfCompleted at h
  simp only at h
  split at h
  · cases h
  · split_ifs at h
    rw [← Arrival.change.inj h]
    rfl

theorem arrivalOfDataFrag_fresh (s : WriterProxyState) (own : Guid)
    (opener : Option PayloadOpener) (df : DataFragSubmessage) (ts : Option HeTimestamp) :
    Fresh s df.writerSn (s.arrivalOfDataFrag own opener df ts).2 := by
  unfold arrivalOfDataFrag
  split
  · exact .inl ⟨_, rfl⟩
  · next h =>
    simp only [not_or, Bool.not_eq_true, not_le] at h
    split
    · exact .inl ⟨_, rfl⟩
    · exact .inr ⟨h.1, h.2, fun c hc => arrivalOfCompleted_sn hc⟩

theorem arrivalOfDataFrag_frame (s : WriterProxyState) (own : Guid)
    (opener : Option PayloadOpener) (df : DataFragSubmessage) (ts : Option HeTimestamp) :
    ∃ assembler, (s.arrivalOfDataFrag own opener df ts).1 = { s with assembler := assembler } := by
  unfold arrivalOfDataFrag
  split
  · exact ⟨_, rfl⟩
  · split <;> exact ⟨_, rfl⟩

theorem receiveData_called (be : Bool) (hd : d.state.Shape) (hu : u → d.budget = none) (own : Guid)
    (opener : Option PayloadOpener) (data : DataSubmessage) (ts : Option HeTimestamp) :
    ∃ i out, Brings d.state data.writerSn (d.state.arrivalOfData own opener data ts) i ∧
      Called be u d i out (d.receiveData own be opener data ts).1 :=
  takeArrival_called be hd hu true (arrivalOfData_fresh d.state own opener data ts)

theorem receiveDataFrag_called (be : Bool) (hd : d.state.Shape)
    (hu : u → d.budget = none) (own : Guid)
    (opener : Option PayloadOpener) (df : DataFragSubmessage) (ts : Option HeTimestamp) :
    ∃ i out, Brings d.state df.writerSn (d.state.arrivalOfDataFrag own opener df ts).2 i ∧
      Called be u d i out (d.receiveDataFrag own be opener df ts).1 := by
  have hfresh := arrivalOfDataFrag_fresh d.state own opener df ts
  obtain ⟨assembler, hframe⟩ := arrivalOfDataFrag_frame d.state own opener df ts
  unfold receiveDataFrag
  generalize d.state.arrivalOfDataFrag own opener df ts = fed at hfresh hframe ⊢
  obtain ⟨s, a⟩ := fed
  obtain rfl : s = { d.state with assembler := assembler } := hframe
  obtain ⟨i, out, hbrings, h⟩ := takeArrival_called be (u := u)
    (d := { d with state := { d.state with assembler := assembler } })
    ⟨hd.absorbed, hd.cache⟩ hu false hfresh
  refine ⟨i, out, ?_, h.call, h.shape, ⟨h.same.guid, h.same.committed⟩, h.deliveries, h.budget⟩
  cases hbrings with
  | ignored => exact .ignored
  | ruledOut => exact .ruledOut
  | stored kept => exact .stored kept
  | handed => exact .handed

end Delivery
end ZeroDds.Rtps
