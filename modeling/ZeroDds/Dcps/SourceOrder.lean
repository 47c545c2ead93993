/-
DESTINATION_ORDER by source timestamp.
-/
import ZeroDds.Dcps.Admissible
import ZeroDds.Dcps.InstanceLife
import ZeroDds.Lib.Records

namespace ZeroDds.Dcps.DataReader

variable {T : Type} (cfg : ReaderConfig T)

structure PlainBySource : Prop where
  bySource : cfg.qos.bySourceTs = true
  shared : cfg.qos.exclusiveOwnership = false
  noSeparation : cfg.qos.minSepNanos = 0
  noFilter : cfg.filter = none
  maxSamples : cfg.qos.maxSamples < 0
  maxSamplesPerInstance : cfg.qos.maxSamplesPerInstance < 0
  maxInstances : cfg.qos.maxInstances < 0

structure OfInstance (kh : KeyHash) (raw : RawIngestSample) : Prop where
  decodes : ∃ sample, cfg.codec.decode raw.bytes.octets raw.representation raw.bigEndian =
    .ok sample ∧ cfg.codec.instanceKeyHash sample = kh
  stamped : raw.sourceTimestamp.isSome
  unending : raw.lifespanNanos = 0

def sourceTime (raw : RawIngestSample) : Time := raw.sourceTs .zero

def sourceRank (raw : RawIngestSample) : Nat := (sourceTime raw).clampedNanos

variable {raw : RawIngestSample}

theorem sourceTs_eq (h : raw.sourceTimestamp.isSome) (now : Time) :
    raw.sourceTs now = sourceTime raw := by
  obtain ⟨ts, hts⟩ := Option.isSome_iff_exists.mp h
  simp [sourceTime, RawIngestSample.sourceTs, hts]

def deliveredRank (r : DataReader T) (kh : KeyHash) : Option Nat :=
  ((r.instances.stateOf kh).bind (·.lastDeliveredTs)).map Time.clampedNanos

def LastCached (r : DataReader T) (kh : KeyHash) (raw : RawIngestSample) : Prop :=
  ∃ e s, r.cache.getLast? = some e ∧ r.instances.stateOf kh = some s ∧
    e.info.instanceHandle = s.handle ∧ e.bytes = some raw.bytes ∧
    e.info.sourceTimestamp = sourceTime raw ∧
    e.info.publicationHandle = writerPublicationHandle raw.writerGuid

variable {cfg} {kh : KeyHash}

theorem admit_plain (hp : PlainBySource cfg) {sample : T}
    (hkh : cfg.codec.instanceKeyHash sample = kh) (hstamped : raw.sourceTimestamp.isSome)
    (r : DataReader T) (now : Time) :
    (admitSample cfg r now raw sample).2 = .admitted ∧
      deliveredRank (admitSample cfg r now raw sample).1 kh = some (sourceRank raw) ∧
      LastCached (admitSample cfg r now raw sample).1 kh raw := by
  have hadmitted := admit_of_unlimited cfg hp.maxSamples hp.maxSamplesPerInstance hp.maxInstances r
    now raw sample
  rcases admit_cases cfg r now raw sample with
    ⟨_, heq⟩ | ⟨t, handle, n, r₁, inCache, hobs, hhist, ⟨_, _, _, heq⟩ | ⟨r₂, s, hlim, hs, heq⟩⟩
  · rw [heq] at hadmitted
    split at hadmitted <;> cases hadmitted
  · rw [heq] at hadmitted
    cases hadmitted
  · have hevicts := evicts_applyHistory cfg { r with instances := t } handle n
    rw [hhist] at hevicts
    obtain ⟨holder, s₁, rfl, rfl, rfl, hstate⟩ := InstanceTracker.observeAdmitted_eq_some _ hobs
    have hlives := Evicts.sameLives (hevicts.trans (applyLimits_none cfg hlim))
    have hown := hstate (cfg.codec.instanceKeyHash sample)
    rw [if_pos rfl] at hown
    obtain ⟨s₂, hs₂, hlife⟩ := hlives.lives.symm.stateOf_eq_some hown
    have hnoted : (noteDelivery cfg r₂ now raw (cfg.codec.instanceKeyHash sample)).instances.stateOf
        (cfg.codec.instanceKeyHash sample) = some (s₂.admitted (raw.orderTs cfg.qos.bySourceTs now)
          (raw.filterTs cfg.qos.tbfClock now) raw.writerGuid) := by
      simp only [noteDelivery, InstanceTracker.noteAdmitted]
      rw [InstanceTracker.stateOf_modifyKey, if_pos rfl, hs₂]
      rfl
    have horder : raw.orderTs cfg.qos.bySourceTs now = sourceTime raw := by
      rw [RawIngestSample.orderTs, hp.bySource, if_pos rfl, sourceTs_eq hstamped]
    have hinst : ∀ h, (push cfg (noteDelivery cfg r₂ now raw (cfg.codec.instanceKeyHash sample)) now
        raw sample h s).instances.stateOf kh = some (s₂.admitted (sourceTime raw)
          (raw.filterTs cfg.qos.tbfClock now) raw.writerGuid) := by
      intro h
      rw [← hkh, ← horder]
      exact hnoted
    have hhandle := congrArg Prod.fst hlife
    rw [heq]
    refine ⟨rfl, ?_, _, _, List.getLast?_concat, hinst _, hhandle.symm, rfl, ?_, rfl⟩
    · rw [deliveredRank, hinst]
      rfl
    · exact sourceTs_eq hstamped now

theorem destinationOrderAdmits_iff (last candidate : Time) :
    InstanceTracker.destinationOrderAdmits last candidate = true ↔
      last.clampedNanos < candidate.clampedNanos := by
  exact decide_eq_true_iff

theorem delivers_iff_newer (hsource : cfg.qos.bySourceTs = true)
    (hstamped : raw.sourceTimestamp.isSome) (r : DataReader T) (kh : KeyHash) (now : Time) :
    r.instances.shouldDeliverUnderDestinationOrder kh
      (raw.orderTs cfg.qos.bySourceTs now) cfg.qos.bySourceTs =
        (deliveredRank r kh).all fun n => decide (n < sourceRank raw) := by
  have horder : raw.orderTs cfg.qos.bySourceTs now = sourceTime raw := by
    rw [RawIngestSample.orderTs, hsource, if_pos rfl, sourceTs_eq hstamped]
  rw [horder, hsource]
  unfold InstanceTracker.shouldDeliverUnderDestinationOrder deliveredRank
  cases (r.instances.stateOf kh).bind (·.lastDeliveredTs) with
  | none => rfl
  | some last =>
    rw [Option.map_some, Option.all_some, if_neg (by decide), Bool.eq_iff_iff]
    exact (destinationOrderAdmits_iff last (sourceTime raw)).trans decide_eq_true_iff.symm

theorem ingest_plain (hp : PlainBySource cfg) (ho : OfInstance cfg kh raw) (r : DataReader T)
    (now : Time) :
    if (deliveredRank r kh).all (fun n => decide (n < sourceRank raw)) then
      (ingestAlive cfg r now raw).2 = .admitted ∧
        deliveredRank (ingestAlive cfg r now raw).1 kh = some (sourceRank raw) ∧
        LastCached (ingestAlive cfg r now raw).1 kh raw
    else ingestAlive cfg r now raw = (r, .dropped .destinationOrder) := by
  obtain ⟨sample, hdecode, hkh⟩ := ho.decodes
  have hsuper : supersede cfg r kh = r := by
    simp [supersede, hp.noSeparation]
  have htbf : r.instances.shouldDeliverUnderTimeBasedFilter kh
      (raw.filterTs cfg.qos.tbfClock now) cfg.qos.minSepNanos = true := by
    simp [InstanceTracker.shouldDeliverUnderTimeBasedFilter, hp.noSeparation]
  have hdecides := delivers_iff_newer hp.bySource ho.stamped r kh now
  have hstep : ingestAlive cfg r now raw =
      if r.instances.shouldDeliverUnderDestinationOrder kh
          (raw.orderTs cfg.qos.bySourceTs now) cfg.qos.bySourceTs = true then
        admitSample cfg r now raw sample
      else (r, .dropped .destinationOrder) := by
    rw [ingestAlive, ingestAliveFiltered_eq_ingestFiltered cfg ho.unending hp.noFilter hp.shared
      hdecode, ingestFiltered]
    simp only [hkh, htbf, hsuper, Bool.not_true, Bool.and_false, Bool.false_eq_true, if_false]
    cases r.instances.shouldDeliverUnderDestinationOrder kh
      (raw.orderTs cfg.qos.bySourceTs now) cfg.qos.bySourceTs <;> rfl
  rw [hstep, hdecides]
  split
  · exact admit_plain hp hkh ho.stamped r now
  · rfl

/-! ### An order of arrival -/

variable (cfg)

/-- The samples one after the other, each at its time: the reader, and what entered its
cache. -/
def ingestEach : DataReader T → List (Time × RawIngestSample) →
    DataReader T × List RawIngestSample
  | r, [] => (r, [])
  | r, (now, raw) :: rest =>
    let (r, verdict) := ingestAlive cfg r now raw
    let (r, entered) := ingestEach r rest
    (r, if verdict = .admitted then raw :: entered else entered)

variable {cfg} {order : List (Time × RawIngestSample)}

theorem ingestEach_records (hp : PlainBySource cfg)
    (ho : ∀ raw ∈ order.map Prod.snd, OfInstance cfg kh raw) (r : DataReader T) :
    (ingestEach cfg r order).2 =
      recordsFrom sourceRank (deliveredRank r kh) (order.map Prod.snd) := by
  induction order generalizing r with
  | nil => rfl
  | cons entry rest ih =>
    obtain ⟨now, raw⟩ := entry
    obtain ⟨hraw, hrest⟩ := List.forall_mem_cons.mp ho
    have hone := ingest_plain hp hraw r now
    simp only [ingestEach, List.map_cons, recordsFrom]
    split at hone
    · next hnewer =>
      rw [if_pos hone.1, if_pos hnewer, ih hrest, hone.2.1]
    · next hnewer =>
      rw [hone]
      simp only [reduceCtorEq, if_false]
      rw [if_neg hnewer, ih hrest]

theorem ingestEach_of_none (hp : PlainBySource cfg)
    (ho : ∀ raw ∈ order.map Prod.snd, OfInstance cfg kh raw) (r : DataReader T)
    (h : (ingestEach cfg r order).2 = []) : (ingestEach cfg r order).1 = r := by
  induction order generalizing r with
  | nil => rfl
  | cons entry rest ih =>
    obtain ⟨now, raw⟩ := entry
    obtain ⟨hraw, hrest⟩ := List.forall_mem_cons.mp ho
    have hone := ingest_plain hp hraw r now
    simp only [ingestEach] at h ⊢
    split at hone
    · rw [if_pos hone.1] at h
      cases h
    · rw [hone] at h ⊢
      exact ih hrest r h

theorem ingestEach_lastCached (hp : PlainBySource cfg)
    (ho : ∀ raw ∈ order.map Prod.snd, OfInstance cfg kh raw) (r : DataReader T)
    {last : RawIngestSample} (h : (ingestEach cfg r order).2.getLast? = some last) :
    LastCached (ingestEach cfg r order).1 kh last := by
  induction order generalizing r with
  | nil => cases h
  | cons entry rest ih =>
    obtain ⟨now, raw⟩ := entry
    obtain ⟨hraw, hrest⟩ := List.forall_mem_cons.mp ho
    have hone := ingest_plain hp hraw r now
    simp only [ingestEach] at h ⊢
    split at hone
    · rw [if_pos hone.1] at h
      cases hlater : (ingestEach cfg (ingestAlive cfg r now raw).1 rest).2 with
      | nil =>
        rw [hlater] at h
        cases h
        rw [ingestEach_of_none hp hrest _ hlater]
        exact hone.2.2
      | cons x later =>
        rw [hlater, List.getLast?_cons_cons, ← hlater] at h
        exact ih hrest _ h
    · rw [hone] at h ⊢
      exact ih hrest r h

def OrderOf (samples : List RawIngestSample) (order : List (Time × RawIngestSample)) : Prop :=
  SameClassOrder RawIngestSample.writerGuid samples (order.map Prod.snd)

def Undelivered (kh : KeyHash) (r : DataReader T) : Prop :=
  (r.instances.stateOf kh).bind (·.lastDeliveredTs) = none

/-- Whatever the orders in which two readers ingest the samples, what enters has rising
source timestamps, and the last to enter, which is the last in the cache, is the same. -/
def Converges (cfg₁ cfg₂ : ReaderConfig T) (kh : KeyHash) (samples : List RawIngestSample) : Prop :=
  ∀ (r₁ r₂ : DataReader T) (order₁ order₂ : List (Time × RawIngestSample)),
    Undelivered kh r₁ → Undelivered kh r₂ → OrderOf samples order₁ → OrderOf samples order₂ →
      (ingestEach cfg₁ r₁ order₁).2.Pairwise (fun a b => sourceTime a < sourceTime b) ∧
      (∀ raw, (ingestEach cfg₁ r₁ order₁).2.getLast? = some raw →
        LastCached (ingestEach cfg₁ r₁ order₁).1 kh raw) ∧
      (ingestEach cfg₁ r₁ order₁).2.getLast? = (ingestEach cfg₂ r₂ order₂).2.getLast?

/-- Of samples newer than everything before them of their writer, what is later for
DESTINATION_ORDER is later: its nanoseconds read a negative second as zero. -/
def RanksAgree (samples : List RawIngestSample) : Prop :=
  ∀ a b, OwnRecord sourceRank RawIngestSample.writerGuid samples a →
    OwnRecord sourceRank RawIngestSample.writerGuid samples b →
    sourceRank a < sourceRank b → sourceTime a < sourceTime b

abbrev OneLatestWriter (samples : List RawIngestSample) : Prop :=
  OneClassHighest sourceRank RawIngestSample.writerGuid samples

theorem entered_eq_records (hp : PlainBySource cfg) {samples : List RawIngestSample}
    (hs : ∀ raw ∈ samples, OfInstance cfg kh raw) {r : DataReader T} (hr : Undelivered kh r)
    (ho : OrderOf samples order) :
    (ingestEach cfg r order).2 = records sourceRank (order.map Prod.snd) := by
  have hof : ∀ raw ∈ order.map Prod.snd, OfInstance cfg kh raw :=
    fun raw hraw => hs raw ((ho.mem_iff _).mp hraw)
  have hnone : deliveredRank r kh = none := by
    rw [deliveredRank, hr]
    rfl
  rw [ingestEach_records hp hof r, hnone]
  rfl

/-- Two readers end with the same latest sample in every arrival order if and only if ranks
and timestamps order the samples alike and one writer has the latest. -/
theorem source_order_converges_iff (cfg₁ cfg₂ : ReaderConfig T) (kh : KeyHash)
    (samples : List RawIngestSample) (hp₁ : PlainBySource cfg₁) (hp₂ : PlainBySource cfg₂)
    (hs : ∀ raw ∈ samples, OfInstance cfg₁ kh raw ∧ OfInstance cfg₂ kh raw) :
    Converges cfg₁ cfg₂ kh samples ↔ RanksAgree samples ∧ OneLatestWriter samples := by
  have hs₁ : ∀ raw ∈ samples, OfInstance cfg₁ kh raw := fun raw hraw => (hs raw hraw).1
  have hs₂ : ∀ raw ∈ samples, OfInstance cfg₂ kh raw := fun raw hraw => (hs raw hraw).2
  constructor
  · intro h
    have hfresh : Undelivered kh (DataReader.new .new : DataReader T) := rfl
    have htimed : ∀ m : List RawIngestSample, ((m.map fun raw => (Time.zero, raw)).map Prod.snd)
        = m := by
      intro m
      simp [Function.comp_def]
    have horder : ∀ m, SameClassOrder RawIngestSample.writerGuid samples m →
        OrderOf samples (m.map fun raw => (Time.zero, raw)) := by
      intro m hm
      rw [OrderOf, htimed]
      exact hm
    constructor
    · intro a b ha hb hlt
      obtain ⟨m, hm, hma, hmb⟩ := exists_order_with_records _ _ ha hb hlt
      have hrises := (h _ _ _ _ hfresh hfresh (horder m hm) (horder m hm)).1
      rw [entered_eq_records hp₁ hs₁ hfresh (horder m hm), htimed] at hrises
      have hforth : (records sourceRank m).Pairwise fun a b =>
          sourceRank a < sourceRank b → sourceTime a < sourceTime b := by
        refine hrises.imp ?_
        intro a b htime _
        exact htime
      have hback : (records sourceRank m).Pairwise fun a b =>
          sourceRank b < sourceRank a → sourceTime b < sourceTime a := by
        refine (recordsFrom_pairwise sourceRank none m).imp ?_
        intro a b hrank hback
        exact absurd hback (Nat.lt_asymm hrank)
      exact hforth.forall_of_forall_of_flip (fun x _ h => absurd h (Nat.lt_irrefl _)) hback
        hma hmb hlt
    · refine oneClassHighest_of_converge _ _ fun m₁ m₂ hm₁ hm₂ => ?_
      have hsame := (h _ _ _ _ hfresh hfresh (horder m₁ hm₁) (horder m₂ hm₂)).2.2
      rwa [entered_eq_records hp₁ hs₁ hfresh (horder m₁ hm₁), htimed,
        entered_eq_records hp₂ hs₂ hfresh (horder m₂ hm₂), htimed] at hsame
  · rintro ⟨hagree, hone⟩ r₁ r₂ order₁ order₂ hr₁ hr₂ ho₁ ho₂
    have hof : ∀ raw ∈ order₁.map Prod.snd, OfInstance cfg₁ kh raw :=
      fun raw hraw => hs₁ raw ((ho₁.mem_iff _).mp hraw)
    refine ⟨?_, fun raw hlast => ingestEach_lastCached hp₁ hof r₁ hlast, ?_⟩
    · rw [entered_eq_records hp₁ hs₁ hr₁ ho₁]
      refine (recordsFrom_pairwise sourceRank none _).imp_of_mem fun ha hb hlt => ?_
      exact hagree _ _ (.of_mem_records _ _ ho₁ ha) (.of_mem_records _ _ ho₁ hb) hlt
    · rw [entered_eq_records hp₁ hs₁ hr₁ ho₁, entered_eq_records hp₂ hs₂ hr₂ ho₂]
      exact records_converge _ _ hone ho₁ ho₂

theorem ranksAgree_of_normal {samples : List RawIngestSample}
    (h : ∀ raw ∈ samples, 0 ≤ (sourceTime raw).sec ∧ (sourceTime raw).nanosec < 1000000000) :
    RanksAgree samples := by
  intro a b ha hb hlt
  have hmem : ∀ {x}, OwnRecord sourceRank RawIngestSample.writerGuid samples x → x ∈ samples :=
    fun hx => (List.mem_filter.mp ((recordsFrom_sublist _ _ _).subset hx)).1
  obtain ⟨hsecb, hnanosb⟩ := h b (hmem hb)
  unfold sourceRank Time.clampedNanos at hlt
  have hlex : toLex ((sourceTime a).sec, (sourceTime a).nanosec) <
      toLex ((sourceTime b).sec, (sourceTime b).nanosec) := by
    rw [Prod.Lex.toLex_lt_toLex]
    omega
  exact hlex

/-- Three samples of two writers, the latest of the first. -/
theorem source_order_converges_three :
    Converges (octetConfig { reliableQos with bySourceTs := true })
      (octetConfig { reliableQos with bySourceTs := true }) (octetKey 1)
      [octetRaw 1 [1, 0] 1, octetRaw 2 [1, 2] 2, octetRaw 1 [1, 3] 3] := by
  refine (source_order_converges_iff _ _ (octetKey 1) _
    ⟨rfl, rfl, rfl, rfl, by decide, by decide, by decide⟩
    ⟨rfl, rfl, rfl, rfl, by decide, by decide, by decide⟩ ?_).mpr ⟨?_, ?_⟩
  · intro raw hraw
    simp only [List.mem_cons, List.not_mem_nil, or_false] at hraw
    rcases hraw with rfl | rfl | rfl
    · exact ⟨⟨⟨(1, 0), rfl, rfl⟩, rfl, rfl⟩, ⟨⟨(1, 0), rfl, rfl⟩, rfl, rfl⟩⟩
    · exact ⟨⟨⟨(1, 2), rfl, rfl⟩, rfl, rfl⟩, ⟨⟨(1, 2), rfl, rfl⟩, rfl, rfl⟩⟩
    · exact ⟨⟨⟨(1, 3), rfl, rfl⟩, rfl, rfl⟩, ⟨⟨(1, 3), rfl, rfl⟩, rfl, rfl⟩⟩
  · exact ranksAgree_of_normal (by decide +kernel)
  · have hlatest : ∀ a ∈ [octetRaw 1 [1, 0] 1, octetRaw 2 [1, 2] 2, octetRaw 1 [1, 3] 3],
        (∀ x ∈ [octetRaw 1 [1, 0] 1, octetRaw 2 [1, 2] 2, octetRaw 1 [1, 3] 3],
          sourceRank x ≤ sourceRank a) → a.writerGuid = Octets16.repeated 1 := by
      decide +kernel
    intro a b ha hb hamax hbmax
    rw [hlatest a ha hamax, hlatest b hb hbmax]

/-- Two writers with the same source timestamp: the first to arrive stays. -/
theorem source_order_tie_diverges :
    ¬ ∀ (cfg : ReaderConfig (UInt8 × UInt8)) (kh : KeyHash) (samples : List RawIngestSample),
      PlainBySource cfg → (∀ raw ∈ samples, OfInstance cfg kh raw) →
        Converges cfg cfg kh samples := by
  intro hall
  have hconverges := hall (octetConfig { reliableQos with bySourceTs := true }) (octetKey 1)
    [octetRaw 1 [1, 0] 1, octetRaw 2 [1, 2] 1]
    ⟨rfl, rfl, rfl, rfl, by decide, by decide, by decide⟩ (by
      intro raw hraw
      simp only [List.mem_cons, List.not_mem_nil, or_false] at hraw
      rcases hraw with rfl | rfl
      · exact ⟨⟨(1, 0), rfl, rfl⟩, rfl, rfl⟩
      · exact ⟨⟨(1, 2), rfl, rfl⟩, rfl, rfl⟩)
  have hsame := (hconverges (DataReader.new .new) (DataReader.new .new)
    [(.zero, octetRaw 1 [1, 0] 1), (.zero, octetRaw 2 [1, 2] 1)]
    [(.zero, octetRaw 2 [1, 2] 1), (.zero, octetRaw 1 [1, 0] 1)] rfl rfl (fun _ => rfl)
    (sameClassOrder_classFirst _ (Octets16.repeated 2) _)).2.2
  revert hsame
  decide +kernel

end ZeroDds.Dcps.DataReader
