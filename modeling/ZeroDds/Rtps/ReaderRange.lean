/-
The sums of a reader over its runs.
-/
import ZeroDds.Lib.Aligned
import ZeroDds.Lib.Positions
import ZeroDds.Rtps.ReachableReaders
import ZeroDds.Rtps.ReaderSums

namespace ZeroDds.Rtps

def ReaderOp.Decoded : ReaderOp → Prop
  | .data _ d _ _ => 1 ≤ d.writerSn ∧ d.writerSn ≤ i64Max
  | .dataFrag _ df _ _ => 1 ≤ df.writerSn ∧ df.writerSn ≤ i64Max
  | .heartbeat _ hb _ =>
    1 ≤ hb.firstSn ∧ hb.firstSn ≤ i64Max ∧ hb.firstSn - 1 ≤ hb.lastSn ∧ hb.lastSn ≤ i64Max
  | .heartbeatFrag _ hbf _ => 1 ≤ hbf.writerSn ∧ hbf.writerSn ≤ i64Max
  | .gap _ g =>
    1 ≤ g.gapStart ∧ g.gapStart ≤ i64Max ∧ 1 ≤ g.gapList.bitmapBase ∧
      g.gapList.bitmapBase ≤ i64Max ∧ g.gapList.numBits ≤ rtpsBitmapMaxBits
  | _ => True

/-- No change has the number `i64Max`, and the in-line QoS name no original number that
high and no coherent set that starts below -1. -/
def ReaderOp.BelowMax : ReaderOp → Prop
  | .data _ d _ _ => d.writerSn < i64Max ∧ QosCounts d.inlineQos
  | .dataFrag _ df _ _ => df.writerSn < i64Max ∧ QosCounts df.inlineQos
  | .heartbeat _ hb _ => hb.lastSn < i64Max
  | .gap _ g => ∀ n ∈ g.gapList.iterSet, n < i64Max
  | _ => True

namespace ReliableReader

variable {r : ReliableReader}

/-! ### The sums of a call -/

def commitForwardedSums (r : ReliableReader) (original : Guid) (sn : Int) : List Int :=
  match r.stateOf original with
  | some s => if (s.receivedCache.get sn).isSome then [] else s.committed.insertSums sn
  | none =>
    match r.forwardedWithoutProxy.find? fun e => e.1 = original with
    | some e => e.2.insertSums sn
    | none => SnRanges.empty.insertSums sn

def commitOwnSums (r : ReliableReader) (sample : DeliveredSample) : List Int :=
  match r.stateOf sample.writerGuid with
  | none => []
  | some s => s.committed.insertSums sample.sequenceNumber

def commitSampleSums (r : ReliableReader) (sample : DeliveredSample) : List Int :=
  if sample.coherentSetEnd then []
  else
    let source := sample.writerGuid
    let trusted := (r.stateOf source).any fun s => s.forwarderTrusted
    match sample.originalWriter with
    | some (original, originalSn) =>
      if trusted ∧ original ≠ source then r.commitForwardedSums original originalSn
      else r.commitOwnSums sample
    | none => r.commitOwnSums sample

def commitReleasedSums (r : ReliableReader) : List DeliveredSample → List Int
  | [] => []
  | sample :: rest =>
    r.commitSampleSums sample ++ (r.commitSample sample).1.commitReleasedSums rest

def deliverAtSums (r : ReliableReader) (idx : Nat)
    (f : Delivery → Delivery × Option ReaderCounter) (fSums : Delivery → List Int) : List Int :=
  match r.writerProxies[idx]? with
  | none => []
  | some s =>
    let (d, counter) := f ⟨s, r.releaseBudget, []⟩
    fSums ⟨s, r.releaseBudget, []⟩ ++
      ({ r with
        writerProxies := r.writerProxies.set idx d.state
        releaseBudget := d.budget }.bump counter).commitReleasedSums d.out

def handleDataSums (r : ReliableReader) (sourcePrefix : GuidPrefix) (data : DataSubmessage)
    (ts : Option HeTimestamp) (opener : Option PayloadOpener) : List Int :=
  match r.proxyIndexByWriter ⟨sourcePrefix, data.writerId⟩ with
  | none => []
  | some idx =>
    r.deliverAtSums idx (fun d => d.receiveData r.guid r.bestEffort opener data ts)
      fun d => d.receiveDataSums r.guid r.bestEffort opener data ts

def handleDataFragSums (r : ReliableReader) (sourcePrefix : GuidPrefix) (df : DataFragSubmessage)
    (ts : Option HeTimestamp) (opener : Option PayloadOpener) : List Int :=
  match r.proxyIndexByWriter ⟨sourcePrefix, df.writerId⟩ with
  | none => []
  | some idx =>
    r.deliverAtSums idx (fun d => d.receiveDataFrag r.guid r.bestEffort opener df ts)
      fun d => d.receiveDataFragSums r.guid r.bestEffort opener df ts

def handleHeartbeatSums (r : ReliableReader) (sourcePrefix : GuidPrefix)
    (hb : HeartbeatSubmessage) (now : Nat) : List Int :=
  match r.proxyIndexByWriter ⟨sourcePrefix, hb.writerId⟩ with
  | none => []
  | some idx =>
    if r.writerProxies[idx]?.any fun s => r.suppresses s now then []
    else
      r.deliverAtSums idx (fun d => (d.receiveHeartbeat r.bestEffort hb now, none))
        fun d => d.receiveHeartbeatSums r.bestEffort hb now

def handleGapSums (r : ReliableReader) (sourcePrefix : GuidPrefix) (gap : GapSubmessage) :
    List Int :=
  match r.proxyIndexByWriter ⟨sourcePrefix, gap.writerId⟩ with
  | none => []
  | some idx =>
    r.deliverAtSums idx (fun d => (d.receiveGap r.bestEffort gap, none))
      fun d => d.receiveGapSums r.bestEffort gap

def collectStatesSums (bestEffort : Bool) : List WriterProxyState → Option Nat → List Int
  | [], _ => []
  | s :: rest, budget =>
    Delivery.collectInOrderSums bestEffort ⟨s, budget, []⟩ ++
      collectStatesSums bestEffort rest (Delivery.collectInOrder bestEffort ⟨s, budget, []⟩).budget

def releaseHeldSums (r : ReliableReader) : List Int :=
  let (proxies, budget, out) := collectStates r.bestEffort r.writerProxies r.releaseBudget
  let (departed, budget', departedOut) := collectStates r.bestEffort r.departed budget
  collectStatesSums r.bestEffort r.writerProxies r.releaseBudget ++
    collectStatesSums r.bestEffort r.departed budget ++
    { r with
      writerProxies := proxies
      departed := departed
      releaseBudget := budget' }.commitReleasedSums (out ++ departedOut)

def respondSums (r : ReliableReader) (s : WriterProxyState) (now : Nat) : List Int :=
  if s.pendingAcknackSince.any fun since => r.heartbeatResponseDelay ≤ now - since then
    (if s.receivedCache.len ≥ s.receivedCache.maxSamples then
      (s.deliveredUpTo + 1) ::
        if s.nextChangeIsCached then s.proxy.missingChangesSums 1 else []
    else []) ++
    if s.fullForTheConsumer then []
    else
      s.proxy.acknackBaseSums ++ (s.deliveredUpTo + 1) ::
        s.proxy.missingChangesSums (acknackLimit s)
  else []

def tickOutboundSums (r : ReliableReader) (now : Nat) : List Int :=
  if r.bestEffort then [] else r.writerProxies.flatMap fun s => r.respondSums s now

def stepSums (r : ReliableReader) : ReaderOp → List Int
  | .data p data ts opener => r.handleDataSums p data ts opener
  | .dataFrag p df ts opener => r.handleDataFragSums p df ts opener
  | .heartbeat p hb now => r.handleHeartbeatSums p hb now
  | .gap p gap => r.handleGapSums p gap
  | .releaseHeld => r.releaseHeldSums
  | .tickOutbound now => r.tickOutboundSums now
  | _ => []

/-! ### What the calls keep -/

/-- Every state and every record of forwarded changes leaves room for the sums made with
it. -/
structure InBounds (r : ReliableReader) : Prop where
  states : ∀ s ∈ r.states, s.InBounds
  forwarded : ∀ e ∈ r.forwardedWithoutProxy, e.2.InBounds

theorem inBounds_of_stateOf (h : r.InBounds) {g : Guid} {s : WriterProxyState}
    (hs : r.stateOf g = some s) : s.InBounds :=
  h.states s (List.mem_of_find?_eq_some hs)

variable {r' : ReliableReader} {n : Int} {x : DeliveredSample}

theorem states_recorded (h : ∀ s ∈ r.states, s.InBounds) {j : Nat} (hn : SnRanges.HasSucc n)
    (hr' : r'.states = r.states.modify j (recorded n)) : ∀ s ∈ r'.states, s.InBounds := by
  intro s hs
  rw [hr'] at hs
  obtain ⟨k, hk⟩ := List.getElem?_of_mem hs
  rw [List.getElem?_modify] at hk
  obtain ⟨t, hget, rfl⟩ := Option.map_eq_some_iff.mp hk
  have ht := h t (List.mem_of_getElem? hget)
  split
  · exact ⟨ht.proxy, ht.delivered, ht.cache, ht.coherent,
      (SnRanges.insert_bounds ht.committed hn).2, ht.assembler⟩
  · exact ht

theorem empty_inBounds : SnRanges.empty.InBounds := by
  intro x hx
  cases hx

theorem CommitsFor.inBounds {o : Guid} {fresh : Bool} (h : CommitsFor r o n r' fresh)
    (hr : r.InBounds) (hn : SnRanges.HasSucc n) : r'.InBounds := by
  cases h with
  | waits => exact hr
  | recorded _ _ _ hstates hsame =>
    exact ⟨states_recorded hr.states hn hstates, hsame.memory.forwarded ▸ hr.forwarded⟩
  | away _ hknown hforwarded hstates _ _ =>
    refine ⟨hstates ▸ hr.states, fun e he => ?_⟩
    rcases hforwarded e he with he | rfl
    · exact hr.forwarded e he
    · refine (SnRanges.insert_bounds ?_ hn).2
      rcases hknown with rfl | hmem
      · exact empty_inBounds
      · exact hr.forwarded _ hmem

theorem Commits.inBounds {kept : Option DeliveredSample} (h : Commits r x r' kept)
    (hr : r.InBounds) (hx : x.InBounds) : r'.InBounds := by
  cases h with
  | setEnd => exact hr
  | own _ _ _ _ hstates hsame =>
    exact ⟨states_recorded hr.states hx.sn hstates, hsame.memory.forwarded ▸ hr.forwarded⟩
  | orphan _ _ _ hstates hsame =>
    exact ⟨hstates ▸ hr.states, hsame.memory.forwarded ▸ hr.forwarded⟩
  | forwarded _ hfor hcommits hstates hsame =>
    obtain ⟨horiginal, -⟩ := Option.filter_eq_some_iff.mp hfor
    have hr₁ := hcommits.inBounds hr (hx.original _ _ horiginal)
    exact ⟨hstates ▸ hr₁.states, hsame.memory.forwarded ▸ hr₁.forwarded⟩

section

variable (h : r.InBounds)
include h

theorem commitForwardedSums_bounds (original : Guid) (hn : SnRanges.HasSucc n) :
    AllInI64 (r.commitForwardedSums original n) := by
  unfold commitForwardedSums
  split
  · next s hs =>
    split
    · exact allInI64_nil
    · exact (SnRanges.insert_bounds (inBounds_of_stateOf h hs).committed hn).1
  · split
    · next e he => exact (SnRanges.insert_bounds
        (h.forwarded e (List.mem_of_find?_eq_some he)) hn).1
    · exact (SnRanges.insert_bounds empty_inBounds hn).1

theorem commitOwnSums_bounds (hx : x.InBounds) : AllInI64 (r.commitOwnSums x) := by
  unfold commitOwnSums
  split
  · exact allInI64_nil
  · next s hs => exact (SnRanges.insert_bounds (inBounds_of_stateOf h hs).committed hx.sn).1

theorem commitSampleSums_bounds (hx : x.InBounds) :
    AllInI64 (r.commitSampleSums x) := by
  unfold commitSampleSums
  split
  · exact allInI64_nil
  · simp only
    split
    · next original n horiginal =>
      split
      · exact commitForwardedSums_bounds h original (hx.original original n horiginal)
      · exact commitOwnSums_bounds h hx
    · exact commitOwnSums_bounds h hx

theorem commitReleased_bounds {xs : List DeliveredSample} (hxs : ∀ x ∈ xs, x.InBounds) :
    AllInI64 (r.commitReleasedSums xs) ∧ (r.commitReleased xs).1.InBounds := by
  induction xs generalizing r with
  | nil => exact ⟨allInI64_nil, h⟩
  | cons x xs ih =>
    obtain ⟨hx, hrest⟩ := List.forall_mem_cons.mp hxs
    obtain ⟨hsums, hdone⟩ := ih ((r.commitSample_cases x).inBounds h hx) hrest
    exact ⟨allInI64_append.mpr ⟨commitSampleSums_bounds h hx, hsums⟩, hdone⟩

theorem InBounds.bump (counter : Option ReaderCounter) :
    (r.bump counter).InBounds := by
  rcases counter with _ | counter
  · exact h
  · cases counter <;> exact ⟨h.states, h.forwarded⟩

theorem InBounds.setStates {proxies departed : List WriterProxyState}
    (hproxies : ∀ s ∈ proxies, s.InBounds) (hdeparted : ∀ s ∈ departed, s.InBounds)
    (budget : Option Nat) :
    InBounds { r with
      writerProxies := proxies
      departed := departed
      releaseBudget := budget } :=
  ⟨List.forall_mem_append.mpr ⟨hproxies, hdeparted⟩, h.forwarded⟩

theorem InBounds.matched : ∀ s ∈ r.writerProxies, s.InBounds :=
  fun s hs => h.states s (List.mem_append_left _ hs)

theorem InBounds.away : ∀ s ∈ r.departed, s.InBounds :=
  fun s hs => h.states s (List.mem_append_right _ hs)

theorem deliverAt_bounds (idx : Nat)
    {f : Delivery → Delivery × Option ReaderCounter} {fSums : Delivery → List Int}
    (hf : ∀ d : Delivery, d.InBounds → AllInI64 (fSums d) ∧ (f d).1.InBounds) :
    AllInI64 (r.deliverAtSums idx f fSums) ∧ (r.deliverAt idx f).1.InBounds := by
  unfold deliverAtSums deliverAt
  cases hget : r.writerProxies[idx]? with
  | none => exact ⟨allInI64_nil, h⟩
  | some s =>
    have hs := h.matched s (List.mem_of_getElem? hget)
    obtain ⟨hsums, hd⟩ := hf ⟨s, r.releaseBudget, []⟩ ⟨hs, by simp⟩
    have hr := (h.setStates (forall_mem_set h.matched idx hd.state) h.away
      (f ⟨s, r.releaseBudget, []⟩).1.budget).bump (f ⟨s, r.releaseBudget, []⟩).2
    obtain ⟨hcommit, hdone⟩ := commitReleased_bounds hr hd.out
    exact ⟨allInI64_append.mpr ⟨hsums, hcommit⟩, hdone⟩

end

theorem collectStates_bounds (bestEffort : Bool) {l : List WriterProxyState}
    (h : ∀ s ∈ l, s.InBounds) (budget : Option Nat) :
    AllInI64 (collectStatesSums bestEffort l budget) ∧
      (∀ s ∈ (collectStates bestEffort l budget).1, s.InBounds) ∧
      ∀ x ∈ (collectStates bestEffort l budget).2.2, x.InBounds := by
  induction l generalizing budget with
  | nil => exact ⟨allInI64_nil, by simp [collectStates], by simp [collectStates]⟩
  | cons s l ih =>
    obtain ⟨hs, hrest⟩ := List.forall_mem_cons.mp h
    obtain ⟨hsums, hd⟩ := Delivery.collectInOrder_bounds (d := ⟨s, budget, []⟩) bestEffort
      ⟨hs, by simp⟩
    obtain ⟨hrestSums, hstates, hout⟩ := ih hrest
      (Delivery.collectInOrder bestEffort ⟨s, budget, []⟩).budget
    exact ⟨allInI64_append.mpr ⟨hsums, hrestSums⟩, List.forall_mem_cons.mpr ⟨hd.state, hstates⟩,
      List.forall_mem_append.mpr ⟨hd.out, hout⟩⟩

theorem releaseHeld_bounds (h : r.InBounds) :
    AllInI64 r.releaseHeldSums ∧ r.releaseHeld.1.InBounds := by
  obtain ⟨hsums, hproxies, hout⟩ := collectStates_bounds r.bestEffort h.matched r.releaseBudget
  obtain ⟨hdepartedSums, hdeparted, hdepartedOut⟩ := collectStates_bounds r.bestEffort h.away
    (collectStates r.bestEffort r.writerProxies r.releaseBudget).2.1
  obtain ⟨hcommit, hdone⟩ := commitReleased_bounds
    (h.setStates hproxies hdeparted (collectStates r.bestEffort r.departed
      (collectStates r.bestEffort r.writerProxies r.releaseBudget).2.1).2.1)
    (List.forall_mem_append.mpr ⟨hout, hdepartedOut⟩)
  refine ⟨allInI64_append.mpr ⟨allInI64_append.mpr ⟨hsums, hdepartedSums⟩, hcommit⟩, ?_⟩
  unfold releaseHeld
  simp only
  generalize commitReleased _ _ = committed at hdone ⊢
  obtain ⟨hkept, haway, hmemory⟩ := committed.1.drainDeparted_frame
  refine ⟨fun s hs => ?_, ?_⟩
  · rw [states, hkept, haway] at hs
    rcases List.mem_append.mp hs with hs | hs
    · exact hdone.matched s hs
    · exact hdone.away s (List.mem_of_mem_filter hs)
  · rw [hmemory]
    exact hdone.forwarded

/-! ### A call stays in range -/

theorem respondSums_bounds (r : ReliableReader) {s : WriterProxyState} (h : s.InBounds)
    (now : Nat) : AllInI64 (r.respondSums s now) := by
  have hnext := h.delivered.succ
  have hmissing := WriterProxy.missingChangesSums_bounds h.proxy
  unfold respondSums
  split
  · refine allInI64_append.mpr ⟨?_, ?_⟩
    · split
      · refine allInI64_cons.mpr ⟨hnext, ?_⟩
        split
        · exact hmissing 1
        · exact allInI64_nil
      · exact allInI64_nil
    · split
      · exact allInI64_nil
      · exact allInI64_append.mpr ⟨WriterProxy.acknackBaseSums_bounds h.proxy,
          allInI64_cons.mpr ⟨hnext, hmissing _⟩⟩
  · exact allInI64_nil

section

variable (h : r.InBounds)
include h

theorem tickOutbound_bounds (now : Nat) :
    AllInI64 (r.tickOutboundSums now) ∧ (r.tickOutbound now).1.InBounds := by
  constructor
  · unfold tickOutboundSums
    split
    · exact allInI64_nil
    · intro n hn
      obtain ⟨s, hs, hn⟩ := List.mem_flatMap.mp hn
      exact respondSums_bounds r (h.matched s hs) now n hn
  · obtain ⟨ps, a, n, heq, hsame⟩ := r.tickOutbound_frame now
    rw [heq]
    refine ⟨List.forall_mem_append.mpr ⟨fun s' hs' => ?_, h.away⟩, h.forwarded⟩
    obtain ⟨i, hi⟩ := List.getElem?_of_mem hs'
    obtain ⟨s, hget, p, rfl⟩ := forall₂_getElem? hsame.flip hi
    have hs := h.matched s (List.mem_of_getElem? hget)
    exact ⟨hs.proxy, hs.delivered, hs.cache, hs.coherent, hs.committed, hs.assembler⟩

theorem InBounds.rememberUnmatched (guid : Guid) (sn : Int) :
    (r.rememberUnmatched guid sn).InBounds := by
  obtain ⟨hproxies, hdeparted, hmemory⟩ := r.rememberUnmatched_frame guid sn
  refine ⟨?_, hmemory.forwarded ▸ h.forwarded⟩
  rw [ReliableReader.states, hproxies, hdeparted]
  exact h.states

section

variable (p : GuidPrefix)

theorem handleData_bounds {data : DataSubmessage}
    (hsn : 1 ≤ data.writerSn ∧ Counts data.writerSn) (hqos : QosCounts data.inlineQos)
    (ts : Option HeTimestamp) (opener : Option PayloadOpener) :
    AllInI64 (r.handleDataSums p data ts opener) ∧ (r.handleData p data ts opener).1.InBounds := by
  unfold handleDataSums handleData
  cases r.proxyIndexByWriter ⟨p, data.writerId⟩ with
  | none => exact ⟨allInI64_nil, h.rememberUnmatched _ _⟩
  | some idx =>
    exact deliverAt_bounds h idx fun d hd =>
      Delivery.receiveData_bounds r.guid r.bestEffort opener hd hsn hqos ts

theorem handleDataFrag_bounds {df : DataFragSubmessage}
    (hsn : 1 ≤ df.writerSn ∧ Counts df.writerSn) (hqos : QosCounts df.inlineQos)
    (ts : Option HeTimestamp) (opener : Option PayloadOpener) :
    AllInI64 (r.handleDataFragSums p df ts opener) ∧
      (r.handleDataFrag p df ts opener).1.InBounds := by
  unfold handleDataFragSums handleDataFrag
  cases r.proxyIndexByWriter ⟨p, df.writerId⟩ with
  | none => exact ⟨allInI64_nil, h.rememberUnmatched _ _⟩
  | some idx =>
    exact deliverAt_bounds h idx fun d hd =>
      Delivery.receiveDataFrag_bounds r.guid r.bestEffort opener hd hsn hqos ts

theorem handleHeartbeat_bounds {hb : HeartbeatSubmessage}
    (hfirst : hb.firstSn ≤ i64Max) (hlast : hb.lastSn < i64Max) (now : Nat) :
    AllInI64 (r.handleHeartbeatSums p hb now) ∧ (r.handleHeartbeat p hb now).1.InBounds := by
  unfold handleHeartbeatSums handleHeartbeat
  cases r.proxyIndexByWriter ⟨p, hb.writerId⟩ with
  | none =>
    refine ⟨allInI64_nil, ?_⟩
    simp only
    split
    · exact ⟨h.states, h.forwarded⟩
    · exact h.rememberUnmatched _ _
  | some idx =>
    simp only
    split
    · exact ⟨allInI64_nil, h⟩
    · exact deliverAt_bounds h idx fun d hd =>
        Delivery.receiveHeartbeat_bounds r.bestEffort hd hfirst hlast now

theorem handleGap_bounds {gap : GapSubmessage} (hstart : 1 ≤ gap.gapStart ∧ gap.gapStart ≤ i64Max)
    (hbase : 1 ≤ gap.gapList.bitmapBase ∧ gap.gapList.bitmapBase ≤ i64Max)
    (hset : ∀ n ∈ gap.gapList.iterSet, 1 ≤ n ∧ Counts n) :
    AllInI64 (r.handleGapSums p gap) ∧ (r.handleGap p gap).1.InBounds := by
  unfold handleGapSums handleGap
  cases r.proxyIndexByWriter ⟨p, gap.writerId⟩ with
  | none => exact ⟨allInI64_nil, h.states, h.forwarded⟩
  | some idx =>
    exact deliverAt_bounds h idx fun d hd =>
      Delivery.receiveGap_bounds r.bestEffort hd hstart hbase hset

theorem handleHeartbeatFrag_bounds
    (hbf : HeartbeatFragSubmessage) (now : Nat) : (r.handleHeartbeatFrag p hbf now).1.InBounds := by
  unfold handleHeartbeatFrag
  split
  · exact ⟨h.states, h.forwarded⟩
  · next idx _ =>
    split
    · exact h
    · split
      · exact h
      · next s hget =>
        split
        · have hs := h.matched s (List.mem_of_getElem? hget)
          exact ⟨List.forall_mem_append.mpr ⟨forall_mem_set h.matched idx
            ⟨hs.proxy, hs.delivered, hs.cache, hs.coherent, hs.committed, hs.assembler⟩, h.away⟩,
            h.forwarded⟩
        · exact h

end

end

theorem base_le_of_mem_iterSet {set : SequenceNumberSet} (h : n ∈ set.iterSet) :
    set.bitmapBase ≤ n := by
  obtain ⟨i, -, rfl⟩ := List.mem_map.mp h
  omega

theorem counts_of_lt (h : 1 ≤ n) (hlt : n < i64Max) : 1 ≤ n ∧ Counts n :=
  ⟨h, by omega, hlt⟩

theorem step_bounds (h : r.InBounds) {op : ReaderOp} (hdecoded : op.Decoded)
    (hbelow : op.BelowMax) : AllInI64 (r.stepSums op) ∧ (r.step op).1.InBounds := by
  cases op with
  | data p data ts opener =>
    exact handleData_bounds h p (counts_of_lt hdecoded.1 hbelow.1) hbelow.2 ts opener
  | dataFrag p df ts opener =>
    exact handleDataFrag_bounds h p (counts_of_lt hdecoded.1 hbelow.1) hbelow.2 ts opener
  | heartbeat p hb now => exact handleHeartbeat_bounds h p hdecoded.2.1 hbelow now
  | heartbeatFrag p hbf now => exact ⟨allInI64_nil, handleHeartbeatFrag_bounds h p hbf now⟩
  | gap p gap =>
    obtain ⟨hstart, hstart', hbase, hbase', -⟩ := hdecoded
    exact handleGap_bounds h p ⟨hstart, hstart'⟩ ⟨hbase, hbase'⟩ fun n hn =>
      counts_of_lt (hbase.trans (base_le_of_mem_iterSet hn)) (hbelow n hn)
  | setBestEffort b => exact ⟨allInI64_nil, h.states, h.forwarded⟩
  | setReleaseBudget b => exact ⟨allInI64_nil, h.states, h.forwarded⟩
  | setHeartbeatSuppressionDuration d => exact ⟨allInI64_nil, h.states, h.forwarded⟩
  | setMaxSamplesPerProxy max =>
    refine ⟨allInI64_nil, ?_, h.forwarded⟩
    refine List.forall_mem_append.mpr ⟨fun s' hs' => ?_, h.away⟩
    obtain ⟨s, hs, rfl⟩ := List.mem_map.mp hs'
    have hs := h.matched s hs
    exact ⟨hs.proxy, hs.delivered, hs.cache, hs.coherent, hs.committed, hs.assembler⟩
  | setForwarderTrusted writer trusted =>
    refine ⟨allInI64_nil, ?_⟩
    simp only [step, setForwarderTrusted]
    split
    · exact h
    · refine ⟨List.forall_mem_append.mpr ⟨fun s' hs' => ?_, h.away⟩, h.forwarded⟩
      rcases mem_modify hs' with hs | ⟨s, hs, rfl⟩
      · exact h.matched s' hs
      · have hs := h.matched s (List.mem_of_getElem? hs)
        exact ⟨hs.proxy, hs.delivered, hs.cache, hs.coherent, hs.committed, hs.assembler⟩
  | setWriterDataMaxSize writer max =>
    refine ⟨allInI64_nil, ?_⟩
    simp only [step, setWriterDataMaxSize]
    split
    · exact h
    · refine ⟨List.forall_mem_append.mpr ⟨fun s' hs' => ?_, h.away⟩, h.forwarded⟩
      rcases mem_modify hs' with hs | ⟨s, hs, rfl⟩
      · exact h.matched s' hs
      · have hs := h.matched s (List.mem_of_getElem? hs)
        exact ⟨hs.proxy, hs.delivered, hs.cache, hs.coherent, hs.committed, hs.assembler⟩
  | releaseHeld => exact releaseHeld_bounds h
  | tickOutbound now => exact tickOutbound_bounds h now

end ReliableReader
end ZeroDds.Rtps
