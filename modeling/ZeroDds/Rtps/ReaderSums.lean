/-
The sums of a reader.
-/
import ZeroDds.Rtps.ProxySums
import ZeroDds.Rtps.ReaderRun

namespace ZeroDds.Rtps

open HistoryCache WriterProxy WriterProxyState

/-! ### Numbers from the wire -/

theorem u32OfBytes_lt (littleEndian : Bool) (b : Octets) :
    u32OfBytes littleEndian b < 4294967296 := by
  have h : ∀ i, (b.getD i 0).toNat < 256 := fun i => UInt8.toNat_lt _
  have h0 := h 0
  have h1 := h 1
  have h2 := h 2
  have h3 := h 3
  simp only [u32OfBytes]
  split <;> omega

theorem inI64_sequenceNumberOfBytes (littleEndian : Bool) (b : Octets) :
    InI64 (sequenceNumberOfBytes littleEndian b) := by
  have hhigh := u32OfBytes_lt littleEndian b
  have hlow := u32OfBytes_lt littleEndian (b.drop 4)
  unfold sequenceNumberOfBytes i32OfBytes InI64 i64Max
  simp only
  split <;> omega

variable {qos : Option ParameterList}

theorem inI64_coherentSetOf {first : Int} (h : coherentSetOf qos = some first) : InI64 first := by
  obtain ⟨pl, -, hfind⟩ := Option.bind_eq_some_iff.mp h
  obtain ⟨p, -, hp⟩ := Option.bind_eq_some_iff.mp hfind
  split at hp
  · cases hp
  · simp only at hp
    split at hp
    · cases hp
    · obtain rfl := Option.some.inj hp
      exact inI64_sequenceNumberOfBytes _ _

theorem inI64_originalWriterOf {guid : Guid} {sn : Int}
    (h : originalWriterOf qos = some (guid, sn)) : InI64 sn := by
  obtain ⟨pl, -, hfind⟩ := Option.bind_eq_some_iff.mp h
  obtain ⟨⟨octets, n⟩, hjoin, heq⟩ := Option.map_eq_some_iff.mp hfind
  obtain ⟨-, rfl⟩ := Prod.mk.inj heq
  unfold InlineQos.findOriginalWriterInfo at hjoin
  split at hjoin
  · simp [Except.toOption] at hjoin
  · split at hjoin
    · simp [Except.toOption] at hjoin
    · simp only [Except.toOption, Option.join_some, Option.some.injEq, Prod.mk.injEq] at hjoin
      rw [← hjoin.2]
      exact inI64_sequenceNumberOfBytes _ _

/-- The numbers in-line QoS name: a coherent set that starts at -1 or above, and an
original number below `i64Max`. -/
structure QosCounts (qos : Option ParameterList) : Prop where
  coherent : ∀ first, coherentSetOf qos = some first → -1 ≤ first
  original : ∀ guid sn, originalWriterOf qos = some (guid, sn) → sn < i64Max

theorem qosCounts_none : QosCounts none :=
  ⟨(fun _ h => nomatch h), (fun _ _ h => nomatch h)⟩

/-! ### Ranges of numbers -/

namespace SnRanges

def insertAtSums (r : SnRanges) (sn : Int) : List Int :=
  let left := r.ranges.takeWhile fun x => x.2 < sn
  let right := r.ranges.drop left.length
  if right.head?.any fun x => x.1 ≤ sn then []
  else (left.getLast?.map fun x => x.2 + 1).toList ++ (right.head?.map fun _ => sn + 1).toList

def insertSums (r : SnRanges) (sn : Int) : List Int :=
  match r.ranges.getLast? with
  | some last => (last.2 + 1) :: if sn = last.2 + 1 then [] else r.insertAtSums sn
  | none => r.insertAtSums sn

def HasSucc (n : Int) : Prop := InI64 n ∧ n < i64Max

theorem HasSucc.succ {n : Int} (h : HasSucc n) : InI64 (n + 1) := by
  obtain ⟨⟨hlo, -⟩, hhi⟩ := h
  unfold InI64
  omega

def InBounds (r : SnRanges) : Prop := ∀ x ∈ r.ranges, HasSucc x.2

variable {r : SnRanges} {sn : Int}

theorem insertAt_bounds (h : r.InBounds) (hsn : HasSucc sn) :
    AllInI64 (r.insertAtSums sn) ∧ (r.insertAt sn).1.InBounds := by
  have hleft : ∀ x ∈ r.ranges.takeWhile fun x => x.2 < sn, HasSucc x.2 :=
    fun x hx => h x ((List.takeWhile_sublist _).subset hx)
  have hright : ∀ x ∈ r.ranges.drop (r.ranges.takeWhile fun x => x.2 < sn).length, HasSucc x.2 :=
    fun x hx => h x (List.mem_of_mem_drop hx)
  unfold insertAtSums insertAt
  simp only
  generalize r.ranges.takeWhile (fun x => x.2 < sn) = left at hleft hright ⊢
  generalize r.ranges.drop left.length = right at hright ⊢
  split
  · exact ⟨allInI64_nil, h⟩
  · refine ⟨allInI64_append.mpr ⟨?_, ?_⟩, ?_⟩
    · cases hl : left.getLast? with
      | none => exact allInI64_nil
      | some x => simpa using (hleft x (List.mem_of_getLast? hl)).succ
    · cases right.head? with
      | none => exact allInI64_nil
      | some x => simpa using hsn.succ
    · split
      · next l hh _ hr =>
        obtain ⟨hr, -⟩ := Option.filter_eq_some_iff.mp hr
        refine List.forall_mem_append.mpr ⟨fun x hx => hleft x (List.mem_of_mem_dropLast hx),
          List.forall_mem_cons.mpr ⟨hright hh (List.mem_of_head? hr),
            fun x hx => hright x (List.mem_of_mem_tail hx)⟩⟩
      · exact List.forall_mem_append.mpr ⟨fun x hx => hleft x (List.mem_of_mem_dropLast hx),
          List.forall_mem_cons.mpr ⟨hsn, hright⟩⟩
      · next hh _ hr =>
        obtain ⟨hr, -⟩ := Option.filter_eq_some_iff.mp hr
        exact List.forall_mem_append.mpr ⟨hleft,
          List.forall_mem_cons.mpr ⟨hright hh (List.mem_of_head? hr),
            fun x hx => hright x (List.mem_of_mem_tail hx)⟩⟩
      · have hall : ∀ x ∈ left ++ (sn, sn) :: right, HasSucc x.2 :=
          List.forall_mem_append.mpr ⟨hleft, List.forall_mem_cons.mpr ⟨hsn, hright⟩⟩
        intro x hx
        split at hx
        · exact hall x (List.mem_of_mem_tail hx)
        · exact hall x hx

theorem insert_bounds (h : r.InBounds) (hsn : HasSucc sn) :
    AllInI64 (r.insertSums sn) ∧ (r.insert sn).1.InBounds := by
  obtain ⟨hsums, hbounds⟩ := insertAt_bounds h hsn
  unfold insertSums insert
  cases hlast : r.ranges.getLast? with
  | none => exact ⟨hsums, hbounds⟩
  | some last =>
    have hcounts := h last (List.mem_of_getLast? hlast)
    simp only [allInI64_cons]
    split
    · refine ⟨⟨hcounts.succ, allInI64_nil⟩, ?_⟩
      exact List.forall_mem_append.mpr ⟨fun x hx => h x (List.mem_of_mem_dropLast hx),
        List.forall_mem_singleton.mpr hsn⟩
    · exact ⟨⟨hcounts.succ, hsums⟩, hbounds⟩

end SnRanges

/-! ### What a state holds -/

structure CacheChange.InBounds (c : CacheChange) : Prop where
  sn : 1 ≤ c.sequenceNumber ∧ Counts c.sequenceNumber
  coherent : ∀ first, c.coherentSetSn = some first → -1 ≤ first ∧ first ≤ i64Max
  original : ∀ guid n, originalWriterOf c.inlineQos = some (guid, n) → SnRanges.HasSucc n

structure DeliveredSample.InBounds (x : DeliveredSample) : Prop where
  sn : SnRanges.HasSucc x.sequenceNumber
  original : ∀ guid n, x.originalWriter = some (guid, n) → SnRanges.HasSucc n

structure CoherentTrack.InBounds (t : CoherentTrack) (upTo : Int) : Prop where
  first : -1 ≤ t.first ∧ t.first ≤ i64Max
  counted : 0 ≤ t.counted ∧ t.counted ≤ upTo

theorem CoherentTrack.InBounds.mono {t : CoherentTrack} {a b : Int} (h : t.InBounds a)
    (hab : a ≤ b) : t.InBounds b :=
  ⟨h.first, h.counted.1, h.counted.2.trans hab⟩

theorem hasSucc_of_counts {n : Int} (h : Counts n) : SnRanges.HasSucc n := by
  unfold Counts at h
  unfold SnRanges.HasSucc InI64
  omega

theorem CacheChange.InBounds.delivered {c : CacheChange} (h : c.InBounds) (writer : Guid) :
    (deliveredSampleOf writer c).InBounds :=
  ⟨hasSucc_of_counts h.sn.2, h.original⟩

def FragmentAssembler.QosAll (P : Option ParameterList → Prop) (a : FragmentAssembler) : Prop :=
  ∀ sn b, a.buffers.get? sn = some b → P b.inlineQos

structure WriterProxyState.InBounds (s : WriterProxyState) : Prop where
  proxy : s.proxy.InBounds
  delivered : Counts s.deliveredUpTo
  cache : ∀ n c, s.receivedCache.get n = some c → c.InBounds ∧ c.sequenceNumber = n
  coherent : ∀ t, s.coherent = some t → t.InBounds s.deliveredUpTo
  committed : s.committed.InBounds
  assembler : s.assembler.QosAll QosCounts

structure Delivery.InBounds (d : Delivery) : Prop where
  state : d.state.InBounds
  out : ∀ x ∈ d.out, x.InBounds

namespace FragmentAssembler

variable {P : Option ParameterList → Prop} {a : FragmentAssembler}

theorem QosAll.erase (h : a.QosAll P) (sn : Int) :
    QosAll P { a with buffers := a.buffers.erase sn } := by
  intro sn' b hget
  rw [SortedMap.get?_erase] at hget
  split at hget
  · cases hget
  · exact h sn' b hget

variable {b : FragmentBuffer} {df : DataFragSubmessage}

theorem QosAll.insert (h : a.QosAll P) (sn : Int) (hb : P b.inlineQos) :
    QosAll P { a with buffers := a.buffers.insert sn b } := by
  intro sn' b' hget
  rw [SortedMap.get?_insert] at hget
  split at hget
  · obtain rfl := Option.some.inj hget
    exact hb
  · exact h sn' b' hget

theorem QosAll.recordDrop (h : a.QosAll P) (reason : DropReason) : (a.recordDrop reason).QosAll P :=
  h

theorem QosAll.makeRoom (h : a.QosAll P) {sn : Int} {a' : FragmentAssembler}
    (hroom : a.makeRoom sn = some a') : a'.QosAll P := by
  unfold FragmentAssembler.makeRoom at hroom
  split at hroom
  · obtain ⟨oldest, -, rfl⟩ := Option.map_eq_some_iff.mp hroom
    exact (h.erase oldest).recordDrop _
  · obtain rfl := Option.some.inj hroom
    exact h

theorem QosAll.bufferFor (h : a.QosAll P) (hnone : P none) (hb : a.bufferFor df = some b) :
    P b.inlineQos := by
  unfold FragmentAssembler.bufferFor at hb
  split at hb
  · next b' hget =>
    split at hb
    · cases hb
    · obtain rfl := Option.some.inj hb
      exact h df.writerSn _ hget
  · obtain rfl := Option.some.inj hb
    exact hnone

theorem accept_qos {b' : FragmentBuffer} {reason : Option DropReason} (hb : P b.inlineQos)
    (hdf : P df.inlineQos) (h : b.accept df = (b', reason)) : P b'.inlineQos := by
  have hnote : P (b.noteInlineQos df).inlineQos := by
    simp only [FragmentBuffer.noteInlineQos]
    split
    · exact hdf
    · exact hb
  unfold FragmentBuffer.accept at h
  split at h
  · obtain rfl := (Prod.mk.inj h).1
    exact hb
  · split at h
    · obtain rfl := (Prod.mk.inj h).1
      exact hb
    · simp only at h
      split at h
      · obtain rfl := (Prod.mk.inj h).1
        exact hnote
      · obtain rfl := (Prod.mk.inj h).1
        exact hnote

theorem QosAll.insert_bundle (h : a.QosAll P) (hnone : P none) (hdf : P df.inlineQos) :
    (a.insert df).1.QosAll P ∧ ∀ c, (a.insert df).2 = some c → P c.inlineQos := by
  unfold FragmentAssembler.insert
  split
  · exact ⟨h.recordDrop _, (fun _ hc => nomatch hc)⟩
  · split
    · exact ⟨h.recordDrop _, (fun _ hc => nomatch hc)⟩
    · next a' hroom =>
      have ha' := h.makeRoom hroom
      split
      · exact ⟨ha'.recordDrop _, (fun _ hc => nomatch hc)⟩
      · next b hbuffer =>
        have hb := ha'.bufferFor hnone hbuffer
        split
        · next b' reason haccept =>
          exact ⟨(ha'.insert _ (accept_qos hb hdf haccept)).recordDrop _, (fun _ hc => nomatch hc)⟩
        · next b' haccept =>
          have hb' := accept_qos hb hdf haccept
          split
          · refine ⟨ha'.erase _, fun c hc => ?_⟩
            obtain rfl := Option.some.inj hc
            exact hb'
          · exact ⟨ha'.insert _ hb', (fun _ hc => nomatch hc)⟩

end FragmentAssembler

/-! ### Following a coherent set -/

namespace WriterProxyState

variable {s : WriterProxyState}

def followCoherentSetSums (s : WriterProxyState) (sn : Int) (set : Option Int)
    (stop grouped : Bool) : List Int :=
  if grouped then []
  else if stop then (s.coherent.map fun t => sn - t.first).toList
  else
    match s.coherent, set with
    | some t, some first => if t.first = first then [t.counted + 1] else [sn - t.first]
    | tracked, _ => (tracked.map fun t => sn - t.first).toList

def followCoherentSetPastSums (s : WriterProxyState) : List Int :=
  (s.coherent.map fun t => t.counted + 1).toList

theorem followCoherentSet_bounds (h : s.InBounds) {sn : Int} (hlt : s.deliveredUpTo < sn)
    (hsn : Counts sn) {set : Option Int}
    (hset : ∀ first, set = some first → -1 ≤ first ∧ first ≤ i64Max) (stop grouped : Bool) :
    AllInI64 (s.followCoherentSetSums sn set stop grouped) ∧
      ∀ t, (s.followCoherentSet sn set stop grouped).1.coherent = some t →
        t.InBounds (s.deliveredUpTo + 1) := by
  have hdelivered := h.delivered
  unfold Counts at hdelivered hsn
  have hsub : ∀ t, s.coherent = some t → InI64 (sn - t.first) := by
    intro t ht
    have hfirst := (h.coherent t ht).first
    unfold InI64 i64Max at *
    omega
  have hfresh : ∀ t, (set.map fun first => (⟨first, 1⟩ : CoherentTrack)) = some t →
      t.InBounds (s.deliveredUpTo + 1) := by
    intro t ht
    obtain ⟨first, hfirst, rfl⟩ := Option.map_eq_some_iff.mp ht
    exact ⟨hset first hfirst, by simp only; omega⟩
  have hkept : ∀ t, s.coherent = some t → t.InBounds (s.deliveredUpTo + 1) :=
    fun t ht => (h.coherent t ht).mono (by omega)
  unfold followCoherentSetSums followCoherentSet
  cases grouped with
  | true => exact ⟨allInI64_nil, hkept⟩
  | false =>
    cases stop with
    | true =>
      refine ⟨?_, (fun _ ht => nomatch ht)⟩
      intro n hn
      obtain ⟨t, ht, rfl⟩ := Option.map_eq_some_iff.mp (Option.mem_toList.mp hn)
      exact hsub t ht
    | false =>
      cases hc : s.coherent with
      | none => exact ⟨by simp, hfresh⟩
      | some t =>
        cases set with
        | none => exact ⟨by simpa using hsub t hc, hfresh⟩
        | some first =>
          simp only [Bool.false_eq_true, if_false]
          split
          · have hcounted := (h.coherent t hc).counted
            refine ⟨?_, fun t' ht' => ?_⟩
            · rw [allInI64_cons]
              refine ⟨?_, allInI64_nil⟩
              unfold InI64
              omega
            · obtain rfl := Option.some.inj ht'
              exact ⟨(h.coherent t hc).first, by simp only; omega⟩
          · exact ⟨by simpa using hsub t hc, hfresh⟩

end WriterProxyState

/-! ### Handing out in order -/

namespace Delivery

variable {d : Delivery}

def handOutSums (d : Delivery) (sample : DeliveredSample) : List Int :=
  d.state.followCoherentSetSums sample.sequenceNumber sample.coherentSetSn sample.coherentSetEnd
    sample.group.isSome

def collectStepSums (bestEffort : Bool) (d : Delivery) : List Int :=
  let next := d.state.deliveredUpTo + 1
  next ::
    match d.state.receivedCache.get next with
    | some change =>
      if d.budget = some 0 then []
      else d.handOutSums (deliveredSampleOf d.state.proxy.remoteWriterGuid change)
    | none =>
      if d.state.proxy.isKnown next then d.state.followCoherentSetPastSums
      else if next < d.state.proxy.firstAvailableSn then []
      else if bestEffort then
        match d.state.receivedCache.minSn with
        | some low =>
          if next < low then d.state.proxy.lostChangesUpdateSums low ++ [low - 1] else []
        | none => []
      else []

def collectLoopSums (bestEffort : Bool) : Nat → Delivery → List Int
  | 0, d => d.collectStepSums bestEffort
  | fuel + 1, d =>
    d.collectStepSums bestEffort ++
      match d.collectStep bestEffort with
      | some d' => collectLoopSums bestEffort fuel d'
      | none => []

def collectInOrderSums (bestEffort : Bool) (d : Delivery) : List Int :=
  collectLoopSums bestEffort (d.state.horizon - d.state.deliveredUpTo).toNat d

theorem handOut_bounds (h : d.InBounds) {c : CacheChange} (hc : c.InBounds)
    (hlt : d.state.deliveredUpTo < c.sequenceNumber) :
    AllInI64 (d.handOutSums (deliveredSampleOf d.state.proxy.remoteWriterGuid c)) ∧
      (∀ t, (CoherentTrack.follow d.state.coherent c).1 = some t →
        t.InBounds (d.state.deliveredUpTo + 1)) ∧
      ∀ x ∈ HandOut.deliveries d.state.proxy.remoteWriterGuid
        ⟨c, (CoherentTrack.follow d.state.coherent c).2⟩, x.InBounds := by
  obtain ⟨hsums, hcoherent⟩ :=
    followCoherentSet_bounds h.state hlt hc.sn.2 hc.coherent c.coherentSetEnd
      c.group.isSome
  rw [d.state.followCoherentSet_eq c] at hcoherent
  have hsample := hc.delivered d.state.proxy.remoteWriterGuid
  refine ⟨hsums, hcoherent, fun x hx => ?_⟩
  simp only [HandOut.deliveries] at hx
  split at hx
  · obtain rfl := List.mem_singleton.mp hx
    exact ⟨hsample.sn, hsample.original⟩
  · split at hx
    · rcases List.mem_cons.mp hx with rfl | hx
      · exact ⟨hsample.sn, fun _ _ hnone => absurd hnone.symm (Option.some_ne_none _)⟩
      · obtain rfl := List.mem_singleton.mp hx
        exact hsample
    · obtain rfl := List.mem_singleton.mp hx
      exact hsample

theorem counts_of_isKnown {p : WriterProxy} (h : p.InBounds) {n : Int} (hn : 0 ≤ n)
    (hknown : p.isKnown n = true) : Counts n := by
  have hrun := h.known
  rcases isKnown_iff.mp hknown with hle | hr | hi
  · unfold Counts at hrun ⊢
    omega
  · exact (h.received n hr).2
  · exact (h.irrelevant n hi).2

theorem counts_of_minSn (h : d.state.InBounds) {low : Int}
    (hlow : d.state.receivedCache.minSn = some low) : 1 ≤ low ∧ Counts low := by
  obtain ⟨⟨change, hget⟩, -⟩ := SortedMap.minKey?_eq_some.mp hlow
  obtain ⟨hc, hsn⟩ := h.cache low change hget
  exact hsn ▸ hc.sn

variable (bestEffort : Bool)

theorem collectStepSums_bounds (h : d.InBounds) : AllInI64 (d.collectStepSums bestEffort) := by
  have hs := h.state
  refine allInI64_cons.mpr ⟨hs.delivered.succ, ?_⟩
  split
  · next change hget =>
    split
    · exact allInI64_nil
    · obtain ⟨hc, hsn⟩ := hs.cache _ change hget
      exact (handOut_bounds h hc (by omega)).1
  · split
    · intro n hn
      obtain ⟨t, ht, rfl⟩ := Option.map_eq_some_iff.mp (Option.mem_toList.mp hn)
      have hcounted := (hs.coherent t ht).counted
      have hdelivered := hs.delivered
      unfold Counts at hdelivered
      unfold InI64
      omega
    · split
      · exact allInI64_nil
      · split
        · split
          · next low hlow =>
            obtain ⟨-, hcounts⟩ := counts_of_minSn hs hlow
            split
            · refine allInI64_append.mpr ⟨?_, by simpa using hcounts.pred⟩
              exact (lostChangesUpdate_bounds hs.proxy hcounts.2.le).1
            · exact allInI64_nil
          · exact allInI64_nil
        · exact allInI64_nil

theorem collectStep_bounds {bestEffort : Bool} (h : d.InBounds) {d' : Delivery}
    (hstep : d.collectStep bestEffort = some d') : d'.InBounds := by
  have hs := h.state
  have hdelivered := hs.delivered
  unfold Counts at hdelivered
  rcases collectStep_cases hstep with
    ⟨change, hget, -, rfl⟩ | ⟨-, ⟨hk, rfl⟩ | ⟨-, hfirst, rfl⟩ | ⟨-, -, -, low, hlow, hnext, rfl⟩⟩
  · obtain ⟨hc, hsn⟩ := hs.cache _ change hget
    obtain ⟨-, hcoherent, hout⟩ := handOut_bounds h hc (by omega)
    have hcounts := hc.sn.2
    rw [hsn] at hcounts
    refine ⟨⟨hs.proxy, hcounts, fun n c hn => ?_, hcoherent, hs.committed, hs.assembler⟩,
      List.forall_mem_append.mpr ⟨h.out, hout⟩⟩
    rw [afterCached, spend_state, get_removeUpTo] at hn
    split at hn
    · exact hs.cache n c hn
    · cases hn
  · have hcounts := counts_of_isKnown hs.proxy (by omega) hk
    refine ⟨⟨hs.proxy, hcounts, hs.cache, fun t ht => ?_, hs.committed, hs.assembler⟩, h.out⟩
    obtain ⟨t, htrack, rfl⟩ := Option.map_eq_some_iff.mp ht
    have htrack := hs.coherent t htrack
    have hcounted := htrack.counted
    refine ⟨htrack.first, ?_⟩
    show 0 ≤ t.counted + 1 ∧ t.counted + 1 ≤ d.state.deliveredUpTo + 1
    omega
  · have hcounts : Counts (d.state.deliveredUpTo + 1) := by
      have := hs.proxy.first
      unfold Counts
      omega
    exact ⟨⟨hs.proxy, hcounts, hs.cache, fun t ht => (hs.coherent t ht).mono (by simp),
      hs.committed, hs.assembler⟩, h.out⟩
  · obtain ⟨hone, hcounts⟩ := counts_of_minSn hs hlow
    obtain ⟨-, hproxy⟩ := lostChangesUpdate_bounds hs.proxy hcounts.2.le
    obtain ⟨n, hn⟩ := d.state.loseBefore_frame low
    unfold afterSkip
    rw [hn]
    exact ⟨⟨hproxy, counts_pred hone hcounts.2.le, hs.cache,
      fun t ht => (hs.coherent t ht).mono (by simp only; omega), hs.committed, hs.assembler⟩, h.out⟩

theorem collectLoopSums_bounds (fuel : Nat) (h : d.InBounds) :
    AllInI64 (collectLoopSums bestEffort fuel d) := by
  induction fuel generalizing d with
  | zero => exact collectStepSums_bounds bestEffort h
  | succ fuel ih =>
    refine allInI64_append.mpr ⟨collectStepSums_bounds bestEffort h, ?_⟩
    split
    · next d' hstep => exact ih (collectStep_bounds h hstep)
    · exact allInI64_nil

theorem collectInOrder_bounds (h : d.InBounds) :
    AllInI64 (d.collectInOrderSums bestEffort) ∧ (d.collectInOrder bestEffort).InBounds :=
  ⟨collectLoopSums_bounds bestEffort _ h,
    collectInOrder_induct (fun _ _ hd hstep => collectStep_bounds hd hstep) h⟩

end Delivery

/-! ### Storing a change -/

namespace WriterProxyState

variable {s : WriterProxyState}

def displaceForSums (s : WriterProxyState) (sn : Int) : List Int :=
  if s.receivedCache.kind = .keepAll ∧ s.receivedCache.len ≥ s.receivedCache.maxSamples ∧
      (s.receivedCache.maxSn.any fun highest => sn < highest) then
    match s.receivedCache.removeHighest with
    | (_, some displaced) => s.proxy.unreceiveChangeSetSums displaced.sequenceNumber
    | (_, none) => []
  else []

def storeReceivedSums (s : WriterProxyState) (change : CacheChange) : List Int :=
  s.displaceForSums change.sequenceNumber ++
    let s := s.displaceFor change.sequenceNumber
    match s.receivedCache.insert change with
    | (_, .ok _) => []
    | (_, .error _) => s.proxy.unreceiveChangeSetSums change.sequenceNumber

theorem InBounds.setProxy (h : s.InBounds) {p : WriterProxy} (hp : p.InBounds) :
    InBounds { s with proxy := p } :=
  ⟨hp, h.delivered, h.cache, h.coherent, h.committed, h.assembler⟩

theorem InBounds.setCache (h : s.InBounds) {cache : HistoryCache}
    (hcache : ∀ n c, cache.get n = some c → s.receivedCache.get n = some c) :
    InBounds { s with receivedCache := cache } :=
  ⟨h.proxy, h.delivered, fun n c hn => h.cache n c (hcache n c hn), h.coherent, h.committed,
    h.assembler⟩

theorem displaceFor_bounds (h : s.InBounds) (sn : Int) :
    AllInI64 (s.displaceForSums sn) ∧ (s.displaceFor sn).InBounds := by
  have hcache : ∀ n c, s.receivedCache.removeHighest.1.get n = some c →
      s.receivedCache.get n = some c := by
    intro n c hget
    unfold HistoryCache.removeHighest at hget
    split at hget
    · exact hget
    · next max _ =>
      change (s.receivedCache.take max).1.get n = some c at hget
      rw [get_take] at hget
      split at hget
      · cases hget
      · exact hget
  unfold displaceForSums displaceFor
  split
  · rcases hremove : s.receivedCache.removeHighest with ⟨cache, _ | displaced⟩ <;>
      rw [hremove] at hcache
    · exact ⟨allInI64_nil, h.setCache hcache⟩
    · obtain ⟨hsums, hproxy⟩ :=
        unreceiveChangeSet_bounds h.proxy displaced.sequenceNumber
      exact ⟨hsums, (h.setCache hcache).setProxy hproxy⟩
  · exact ⟨allInI64_nil, h⟩

theorem storeReceived_bounds (h : s.InBounds) {c : CacheChange} (hc : c.InBounds) :
    AllInI64 (s.storeReceivedSums c) ∧ (s.storeReceived c).1.InBounds := by
  obtain ⟨hdisplace, hs⟩ := displaceFor_bounds h c.sequenceNumber
  unfold storeReceivedSums storeReceived
  simp only [allInI64_append]
  generalize s.displaceFor c.sequenceNumber = s' at hs ⊢
  rcases hinsert : s'.receivedCache.insert c with ⟨cache, e | evicted⟩
  · have hsame := changes_insert_of_error hinsert
    obtain ⟨hsums, hproxy⟩ := unreceiveChangeSet_bounds hs.proxy c.sequenceNumber
    refine ⟨⟨hdisplace, hsums⟩, (hs.setCache fun n ch hn => ?_).setProxy hproxy⟩
    rwa [HistoryCache.get, hsame] at hn
  · refine ⟨⟨hdisplace, allInI64_nil⟩, hs.proxy, hs.delivered, fun n ch hn => ?_, hs.coherent,
      hs.committed, hs.assembler⟩
    by_cases hsn : n = c.sequenceNumber
    · subst hsn
      rw [get_of_insert_ok hinsert] at hn
      obtain rfl := Option.some.inj hn
      exact ⟨hc, rfl⟩
    · have hget : (s'.receivedCache.insert c).1.get n = some ch := by rw [hinsert]; exact hn
      rcases get_insert_some hget with hold | heq
      · exact hs.cache n ch hold
      · exact absurd heq hsn

end WriterProxyState

/-! ### Handling a submessage -/

namespace Ruling

def markSums (sn : Int) : Ruling → WriterProxy → List Int
  | .irrelevant, p => p.irrelevantChangeSetSums sn
  | .filtered, p => p.notAvailableChangeSetSums sn .filtered
  | .receivedIrrelevant, p =>
    p.receivedChangeSetSums sn ++ (p.receivedChangeSet sn).irrelevantChangeSetSums sn

theorem mark_bounds (ruling : Ruling) {p : WriterProxy} (h : p.InBounds) {sn : Int}
    (hsn : 1 ≤ sn ∧ Counts sn) : AllInI64 (ruling.markSums sn p) ∧ (ruling.mark sn p).InBounds := by
  cases ruling with
  | irrelevant => exact irrelevantChangeSet_bounds h hsn
  | filtered => exact notAvailableChangeSet_bounds h hsn .filtered
  | receivedIrrelevant =>
    obtain ⟨hreceived, hp⟩ := receivedChangeSet_bounds h hsn
    obtain ⟨hirrelevant, hp'⟩ := irrelevantChangeSet_bounds hp hsn
    exact ⟨allInI64_append.mpr ⟨hreceived, hirrelevant⟩, hp'⟩

end Ruling

namespace Delivery

variable {d : Delivery}

def handDirectSums (d : Delivery) (change : CacheChange) : List Int :=
  let sn := change.sequenceNumber
  d.handOutSums (deliveredSampleOf d.state.proxy.remoteWriterGuid change) ++
    if d.state.deliveredUpTo + 1 < sn then
      (sn + 1) :: d.state.proxy.lostChangesUpdateSums (sn + 1)
    else []

variable (bestEffort : Bool)

def deliverDirectSums (d : Delivery) (change : CacheChange) : List Int :=
  let next := change.sequenceNumber + 1
  let d' := d.handDirect change
  d.handDirectSums change ++ next ::
    if !d'.state.receivedCache.isEmpty ∨ d'.state.proxy.isKnown next ∨
        next < d'.state.proxy.firstAvailableSn then
      d'.collectInOrderSums bestEffort
    else []

def storeAndCollectSums (d : Delivery) (change : CacheChange) : List Int :=
  d.state.storeReceivedSums change ++
    match d.state.storeReceived change with
    | (_, false) => []
    | (s, true) => { d with state := s }.collectInOrderSums bestEffort

def takeArrivalSums (direct : Bool) (d : Delivery) (sn : Int) : Arrival → List Int
  | .ignored _ => []
  | .ruledOut ruling _ =>
    ruling.markSums sn d.state.proxy ++
      (d.setProxy (ruling.mark sn)).collectInOrderSums bestEffort
  | .change c =>
    let d' := d.setProxy (·.receivedChangeSet sn)
    d.state.proxy.receivedChangeSetSums sn ++
      (if direct then [d'.state.deliveredUpTo + 1] else []) ++
      if direct ∧ d'.state.receivedCache.isEmpty ∧
          (¬d'.state.deliveredUpTo + 1 < sn ∨ bestEffort) ∧ d'.budget ≠ some 0 then
        d'.deliverDirectSums bestEffort c
      else d'.storeAndCollectSums bestEffort c

def receiveDataSums (own : Guid) (bestEffort : Bool) (opener : Option PayloadOpener)
    (d : Delivery) (data : DataSubmessage) (ts : Option HeTimestamp) : List Int :=
  d.takeArrivalSums bestEffort true data.writerSn (d.state.arrivalOfData own opener data ts)

def receiveDataFragSums (own : Guid) (bestEffort : Bool) (opener : Option PayloadOpener)
    (d : Delivery) (df : DataFragSubmessage) (ts : Option HeTimestamp) : List Int :=
  let (s, arrival) := d.state.arrivalOfDataFrag own opener df ts
  { d with state := s }.takeArrivalSums bestEffort false df.writerSn arrival

def receiveHeartbeatSums (d : Delivery) (hb : HeartbeatSubmessage) (now : Nat) : List Int :=
  let s := { d.state with lastHeartbeatAt := some now }
  let (proxy, lost) := s.proxy.updateFromHeartbeat hb.firstSn hb.lastSn
  let s' := { s with proxy := proxy }.noteLost lost
  let s'' :=
    if !hb.finalFlag ∨
        (!hb.livelinessFlag ∧ (s'.proxy.hasMissingChanges ∨ s'.assembler.hasGaps)) then
      { s' with pendingAcknackSince := s'.pendingAcknackSince.or (some now) }
    else s'
  s.proxy.lostChangesUpdateSums hb.firstSn ++
    (if hb.finalFlag ∧ !hb.livelinessFlag then s'.proxy.missingChangesSums 1 else []) ++
    { d with state := s'' }.collectInOrderSums bestEffort

def notAvailableAllSums (kind : NotAvailableKind) : List Int → WriterProxy → List Int
  | [], _ => []
  | sn :: rest, p =>
    p.notAvailableChangeSetSums sn kind ++
      notAvailableAllSums kind rest (p.notAvailableChangeSet sn kind)

/-- The span below the base is counted and walked, and the list is read twice: to count
it and to mark it. -/
def receiveGapSums (d : Delivery) (gap : GapSubmessage) : List Int :=
  let s := (gapNumbers gap).foldl
    (fun s sn =>
      { s with
        proxy := s.proxy.notAvailableChangeSet sn (gapKind gap)
        assembler := s.assembler.discard sn }) d.state
  (gap.gapList.bitmapBase - gap.gapStart) :: gap.gapList.iterSet ++
    (Int.range gap.gapStart gap.gapList.bitmapBase).map (· + 1) ++ gap.gapList.iterSet ++
    notAvailableAllSums (gapKind gap) (gapNumbers gap) d.state.proxy ++
    { d with state := s }.collectInOrderSums bestEffort

/-! ### A handler stays in range -/

variable {c : CacheChange} {s : WriterProxyState}

theorem handDirect_bounds (h : d.InBounds) (hc : c.InBounds)
    (hlt : d.state.deliveredUpTo < c.sequenceNumber) :
    AllInI64 (d.handDirectSums c) ∧ (d.handDirect c).InBounds := by
  obtain ⟨hsums, hcoherent, hout⟩ := handOut_bounds h hc hlt
  have hs := h.state
  have hsn := hc.sn.2
  have hcoherent' : ∀ t, (CoherentTrack.follow d.state.coherent c).1 = some t →
      t.InBounds c.sequenceNumber := fun t ht => (hcoherent t ht).mono (by omega)
  have hmax : c.sequenceNumber + 1 ≤ i64Max := by
    unfold Counts at hsn
    omega
  obtain ⟨hlost, hproxy⟩ := lostChangesUpdate_bounds hs.proxy hmax
  have hout' := List.forall_mem_append.mpr ⟨h.out, hout⟩
  constructor
  · refine allInI64_append.mpr ⟨hsums, ?_⟩
    split
    · exact allInI64_cons.mpr ⟨hsn.succ, hlost⟩
    · exact allInI64_nil
  · unfold handDirect
    rw [handOut_eq]
    simp only
    split
    · obtain ⟨n, hn⟩ := loseBefore_frame { d.state with
        coherent := (CoherentTrack.follow d.state.coherent c).1
        deliveredUpTo := c.sequenceNumber } (c.sequenceNumber + 1)
      rw [hn]
      exact ⟨⟨hproxy, hsn, hs.cache, hcoherent', hs.committed, hs.assembler⟩, hout'⟩
    · exact ⟨⟨hs.proxy, hsn, hs.cache, hcoherent', hs.committed, hs.assembler⟩, hout'⟩

variable (bestEffort : Bool)

theorem deliverDirect_bounds (h : d.InBounds) (hc : c.InBounds)
    (hlt : d.state.deliveredUpTo < c.sequenceNumber) :
    AllInI64 (d.deliverDirectSums bestEffort c) ∧ (d.deliverDirect bestEffort c).InBounds := by
  obtain ⟨hsums, hd⟩ := handDirect_bounds h hc hlt
  obtain ⟨hcollect, hdone⟩ := collectInOrder_bounds bestEffort hd
  unfold deliverDirectSums deliverDirect
  simp only [allInI64_append, allInI64_cons]
  split
  · exact ⟨⟨hsums, hc.sn.2.succ, hcollect⟩, hdone⟩
  · exact ⟨⟨hsums, hc.sn.2.succ, allInI64_nil⟩, hd⟩

theorem storeAndCollect_bounds (h : d.InBounds) (hc : c.InBounds) :
    AllInI64 (d.storeAndCollectSums bestEffort c) ∧
    (d.storeAndCollect bestEffort c).1.InBounds := by
  obtain ⟨hsums, hs⟩ := storeReceived_bounds h.state hc
  unfold storeAndCollectSums storeAndCollect
  rcases hstore : d.state.storeReceived c with ⟨s, _ | _⟩ <;> rw [hstore] at hs
  · exact ⟨allInI64_append.mpr ⟨hsums, allInI64_nil⟩, hs, h.out⟩
  · obtain ⟨hcollect, hdone⟩ := collectInOrder_bounds (d := { d with state := s }) bestEffort
      ⟨hs, h.out⟩
    exact ⟨allInI64_append.mpr ⟨hsums, hcollect⟩, hdone⟩

theorem takeArrival_bounds (direct : Bool) (h : d.InBounds) {sn : Int} (hsn : 1 ≤ sn ∧ Counts sn)
    {a : Arrival}
    (ha : ∀ c, a = .change c → c.InBounds ∧ c.sequenceNumber = sn ∧ d.state.deliveredUpTo < sn) :
    AllInI64 (d.takeArrivalSums bestEffort direct sn a) ∧
      (d.takeArrival bestEffort direct sn a).1.InBounds := by
  cases a with
  | ignored counter => exact ⟨allInI64_nil, h⟩
  | ruledOut ruling counter =>
    obtain ⟨hmark, hp⟩ := ruling.mark_bounds h.state.proxy hsn
    obtain ⟨hcollect, hdone⟩ := collectInOrder_bounds (d := d.setProxy (ruling.mark sn)) bestEffort
      ⟨h.state.setProxy hp, h.out⟩
    exact ⟨allInI64_append.mpr ⟨hmark, hcollect⟩, hdone⟩
  | change c =>
    obtain ⟨hc, rfl, hlt⟩ := ha c rfl
    obtain ⟨hreceived, hp⟩ := receivedChangeSet_bounds h.state.proxy hsn
    have hd : (d.setProxy (·.receivedChangeSet c.sequenceNumber)).InBounds :=
      ⟨h.state.setProxy hp, h.out⟩
    have hahead : InI64 (d.state.deliveredUpTo + 1) := h.state.delivered.succ
    obtain ⟨hdirectSums, hdirect⟩ := deliverDirect_bounds bestEffort hd hc hlt
    obtain ⟨hstoreSums, hstore⟩ := storeAndCollect_bounds bestEffort hd hc
    unfold takeArrivalSums takeArrival
    simp only [allInI64_append]
    refine ⟨⟨⟨hreceived, ?_⟩, ?_⟩, ?_⟩
    · cases direct with
      | true => exact allInI64_cons.mpr ⟨hahead, allInI64_nil⟩
      | false => exact allInI64_nil
    · split
      · exact hdirectSums
      · exact hstoreSums
    · split
      · exact hdirect
      · exact hstore

theorem inBounds_of_qos (hqos : QosCounts qos)
    (hsn : 1 ≤ c.sequenceNumber ∧ Counts c.sequenceNumber)
    (hset : c.coherentSetSn = coherentSetOf qos) (hinline : c.inlineQos = qos) : c.InBounds := by
  refine ⟨hsn, fun first hfirst => ?_, fun guid n horiginal => ?_⟩
  · rw [hset] at hfirst
    exact ⟨hqos.coherent first hfirst, (inI64_coherentSetOf hfirst).2⟩
  · rw [hinline] at horiginal
    exact ⟨inI64_originalWriterOf horiginal, hqos.original guid n horiginal⟩

variable {own : Guid} {opener : Option PayloadOpener} {data : DataSubmessage}
  {ts : Option HeTimestamp} {df : DataFragSubmessage}

theorem arrivalOfData_change (h : s.arrivalOfData own opener data ts = .change c) :
    ∃ payload, c = changeOfData data payload ts opener.isSome := by
  unfold WriterProxyState.arrivalOfData at h
  simp only at h
  split_ifs at h
  split at h
  · cases h
  · split at h
    · cases h
    · exact ⟨_, (Arrival.change.inj h).symm⟩

theorem arrivalOfCompleted_change {completed : CompletedSample}
    (h : s.arrivalOfCompleted own opener df completed ts = .change c) :
    ∃ payload, c = changeOfCompleted df.writerSn completed payload ts
      (df.nonStandardFlag && opener.isNone) := by
  unfold WriterProxyState.arrivalOfCompleted at h
  simp only at h
  split at h
  · cases h
  · split_ifs at h
    exact ⟨_, (Arrival.change.inj h).symm⟩

theorem receiveData_bounds (own : Guid) (bestEffort : Bool) (opener : Option PayloadOpener)
    (h : d.InBounds) (hsn : 1 ≤ data.writerSn ∧ Counts data.writerSn)
    (hqos : QosCounts data.inlineQos) (ts : Option HeTimestamp) :
    AllInI64 (d.receiveDataSums own bestEffort opener data ts) ∧
      (d.receiveData own bestEffort opener data ts).1.InBounds := by
  refine takeArrival_bounds bestEffort true h hsn fun c hc => ?_
  obtain ⟨payload, rfl⟩ := arrivalOfData_change hc
  obtain ⟨counter, hignored⟩ | ⟨-, hlt, hsame⟩ :=
    arrivalOfData_fresh d.state own opener data ts
  · rw [hc] at hignored
    cases hignored
  · exact ⟨inBounds_of_qos hqos hsn rfl rfl, rfl, hlt⟩

theorem receiveDataFrag_bounds (own : Guid) (bestEffort : Bool) (opener : Option PayloadOpener)
    (h : d.InBounds) (hsn : 1 ≤ df.writerSn ∧ Counts df.writerSn) (hqos : QosCounts df.inlineQos)
    (ts : Option HeTimestamp) :
    AllInI64 (d.receiveDataFragSums own bestEffort opener df ts) ∧
      (d.receiveDataFrag own bestEffort opener df ts).1.InBounds := by
  have hs := h.state
  obtain ⟨hbuffers, hcompleted⟩ := hs.assembler.insert_bundle qosCounts_none hqos
  by_cases hpassed : d.state.proxy.isKnown df.writerSn = true ∨ df.writerSn ≤ d.state.deliveredUpTo
  · simp only [receiveDataFragSums, receiveDataFrag, WriterProxyState.arrivalOfDataFrag,
      if_pos hpassed]
    exact ⟨allInI64_nil, h⟩
  · have hfed : Delivery.InBounds { d with
        state := { d.state with assembler := (d.state.assembler.insert df).1 } } :=
      ⟨⟨hs.proxy, hs.delivered, hs.cache, hs.coherent, hs.committed, hbuffers⟩, h.out⟩
    simp only [receiveDataFragSums, receiveDataFrag, WriterProxyState.arrivalOfDataFrag,
      if_neg hpassed]
    cases hdone : (d.state.assembler.insert df).2 with
    | none => exact ⟨allInI64_nil, hfed⟩
    | some completed =>
      refine takeArrival_bounds bestEffort false hfed hsn fun c hc => ?_
      obtain ⟨payload, rfl⟩ := arrivalOfCompleted_change hc
      exact ⟨inBounds_of_qos (hcompleted completed hdone) hsn rfl rfl, rfl,
        not_le.mp fun hle => hpassed (.inr hle)⟩

theorem receiveHeartbeat_bounds (h : d.InBounds) {hb : HeartbeatSubmessage}
    (hfirst : hb.firstSn ≤ i64Max) (hlast : hb.lastSn < i64Max) (now : Nat) :
    AllInI64 (d.receiveHeartbeatSums bestEffort hb now) ∧
      (d.receiveHeartbeat bestEffort hb now).InBounds := by
  have hs := h.state
  obtain ⟨hlost, hp⟩ := updateFromHeartbeat_bounds hs.proxy hfirst hlast
  have hcollect : ∀ pending lost, Delivery.InBounds { d with
      state := { d.state with
        proxy := (d.state.proxy.updateFromHeartbeat hb.firstSn hb.lastSn).1
        lastHeartbeatAt := some now
        pendingAcknackSince := pending
        lostChanges := lost } } :=
    fun _ _ => ⟨⟨hp, hs.delivered, hs.cache, hs.coherent, hs.committed, hs.assembler⟩, h.out⟩
  unfold receiveHeartbeatSums receiveHeartbeat
  obtain ⟨n, hn⟩ := noteLost_frame { d.state with
      proxy := (d.state.proxy.updateFromHeartbeat hb.firstSn hb.lastSn).1
      lastHeartbeatAt := some now }
    (d.state.proxy.updateFromHeartbeat hb.firstSn hb.lastSn).2
  simp only [hn, allInI64_append]
  refine ⟨⟨⟨hlost, ?_⟩, ?_⟩, ?_⟩
  · split
    · exact missingChangesSums_bounds hp 1
    · exact allInI64_nil
  · split
    · exact (collectInOrder_bounds bestEffort (hcollect _ n)).1
    · exact (collectInOrder_bounds bestEffort (hcollect _ n)).1
  · split
    · exact (collectInOrder_bounds bestEffort (hcollect _ n)).2
    · exact (collectInOrder_bounds bestEffort (hcollect _ n)).2

theorem notAvailableAll_bounds (kind : NotAvailableKind) {ns : List Int}
    (hns : ∀ n ∈ ns, 1 ≤ n ∧ Counts n) (hs : s.InBounds) :
    AllInI64 (notAvailableAllSums kind ns s.proxy) ∧
      WriterProxyState.InBounds (ns.foldl
        (fun s sn =>
          { s with
            proxy := s.proxy.notAvailableChangeSet sn kind
            assembler := s.assembler.discard sn }) s) := by
  induction ns generalizing s with
  | nil => exact ⟨allInI64_nil, hs⟩
  | cons sn ns ih =>
    obtain ⟨hsn, hrest⟩ := List.forall_mem_cons.mp hns
    obtain ⟨hsums, hp⟩ := notAvailableChangeSet_bounds hs.proxy hsn kind
    obtain ⟨hall, hdone⟩ := ih hrest (s := { s with
        proxy := s.proxy.notAvailableChangeSet sn kind
        assembler := s.assembler.discard sn })
      ⟨hp, hs.delivered, hs.cache, hs.coherent, hs.committed, hs.assembler.erase sn⟩
    exact ⟨allInI64_append.mpr ⟨hsums, hall⟩, hdone⟩

theorem receiveGap_bounds (h : d.InBounds) {gap : GapSubmessage}
    (hstart : 1 ≤ gap.gapStart ∧ gap.gapStart ≤ i64Max)
    (hbase : 1 ≤ gap.gapList.bitmapBase ∧ gap.gapList.bitmapBase ≤ i64Max)
    (hset : ∀ n ∈ gap.gapList.iterSet, 1 ≤ n ∧ Counts n) :
    AllInI64 (d.receiveGapSums bestEffort gap) ∧ (d.receiveGap bestEffort gap).InBounds := by
  have hspan : ∀ n ∈ Int.range gap.gapStart gap.gapList.bitmapBase, 1 ≤ n ∧ Counts n := by
    intro n hn
    have := Int.mem_range_iff.mp hn
    unfold Counts
    omega
  have hlist : AllInI64 gap.gapList.iterSet := by
    intro n hn
    have := (hset n hn).2
    exact (hasSucc_of_counts this).1
  obtain ⟨hall, hs⟩ := notAvailableAll_bounds (gapKind gap)
    (List.forall_mem_append.mpr ⟨hspan, hset⟩) h.state
  obtain ⟨hcollect, hdone⟩ := collectInOrder_bounds (d := { d with state := _ }) bestEffort
    ⟨hs, h.out⟩
  refine ⟨?_, hdone⟩
  unfold receiveGapSums
  simp only [List.cons_append, allInI64_cons, allInI64_append]
  refine ⟨inI64_sub (by omega) hbase.2 (by omega) hstart.2, ⟨⟨⟨hlist, ?_⟩, hlist⟩, hall⟩, hcollect⟩
  intro n hn
  obtain ⟨m, hm, rfl⟩ := List.mem_map.mp hn
  exact (hspan m hm).2.succ

end Delivery
end ZeroDds.Rtps
