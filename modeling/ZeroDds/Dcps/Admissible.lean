/-
Samples that are admitted.
-/
import ZeroDds.Dcps.RejectedSamples

namespace ZeroDds.Dcps.DataReader

variable {T : Type} (cfg : ReaderConfig T)

/-! ### HISTORY and the sample limits -/

variable {r r' : DataReader T}

theorem evictOldestOfInstance_congr (h : r'.cache = r.cache) (handle : InstanceHandle) :
    (r'.evictOldestOfInstance handle).map (·.cache) =
      (r.evictOldestOfInstance handle).map (·.cache) := by
  simp only [evictOldestOfInstance, h, Option.map_map]
  rfl

theorem evictDownTo_congr (handle : InstanceHandle) (depth : Nat) (inCache : Nat)
    (h : r'.cache = r.cache) :
    (evictDownTo handle depth r' inCache).1.cache = (evictDownTo handle depth r inCache).1.cache ∧
      (evictDownTo handle depth r' inCache).2 = (evictDownTo handle depth r inCache).2 := by
  induction inCache generalizing r r' with
  | zero => exact ⟨h, rfl⟩
  | succ inCache ih =>
    have hevict := evictOldestOfInstance_congr h handle
    unfold evictDownTo
    split
    · cases hr : r.evictOldestOfInstance handle with
      | none =>
        rw [hr] at hevict
        rw [Option.map_eq_none_iff.mp hevict]
        exact ⟨h, rfl⟩
      | some r₁ =>
        rw [hr] at hevict
        obtain ⟨r₂, hr₂, hcache⟩ := Option.map_eq_some_iff.mp hevict
        rw [hr₂]
        exact ih hcache
    · exact ⟨h, rfl⟩

theorem applyHistory_congr (handle : InstanceHandle) (inCache : Nat) (h : r'.cache = r.cache) :
    (applyHistory cfg r' handle inCache).1.cache = (applyHistory cfg r handle inCache).1.cache ∧
      (applyHistory cfg r' handle inCache).2 = (applyHistory cfg r handle inCache).2 := by
  unfold applyHistory
  split
  · exact evictDownTo_congr handle _ inCache h
  · exact ⟨h, rfl⟩

def SampleRoom (r : DataReader T) (handle : InstanceHandle) (inCache : Nat) : Prop :=
  cfg.qos.reliable = true →
    overInstanceLimit cfg (applyHistory cfg r handle inCache).2 = false ∧
      samplesFull cfg (applyHistory cfg r handle inCache).1 = false

instance (r : DataReader T) (handle : InstanceHandle) (inCache : Nat) :
    Decidable (SampleRoom cfg r handle inCache) :=
  inferInstanceAs (Decidable (_ → _))

theorem samplesFull_congr (h : r'.cache = r.cache) : samplesFull cfg r' = samplesFull cfg r := by
  rw [samplesFull, samplesFull, h]

variable {handle : InstanceHandle} {inCache : Nat}

theorem sampleRoom_congr (h : r'.cache = r.cache) (hroom : SampleRoom cfg r handle inCache) :
    SampleRoom cfg r' handle inCache := by
  obtain ⟨hcache, hcount⟩ := applyHistory_congr cfg handle inCache h
  intro hreliable
  rw [hcount, samplesFull_congr cfg hcache]
  exact hroom hreliable

theorem applyLimits_of_room (h : cfg.qos.reliable = true →
      overInstanceLimit cfg inCache = false ∧ samplesFull cfg r = false) :
    (applyLimits cfg r handle inCache).2 = none := by
  unfold applyLimits
  cases hreliable : cfg.qos.reliable with
  | false => simp
  | true =>
    obtain ⟨hunder, hfull⟩ := h hreliable
    have hsame : makeInstanceRoom cfg r handle inCache = r := by
      simp [makeInstanceRoom, hunder]
    simp [hunder, hsame, hfull]

/-- The instance as the ownership check leaves it, as far as the checks after it look. -/
structure Accepted (kh : KeyHash) (r r₁ : DataReader T) : Prop where
  cache : r₁.cache = r.cache
  filterTs : (r₁.instances.stateOf kh).bind (·.lastFilterTs) =
    (r.instances.stateOf kh).bind (·.lastFilterTs)
  deliveredTs : (r₁.instances.stateOf kh).bind (·.lastDeliveredTs) =
    (r.instances.stateOf kh).bind (·.lastDeliveredTs)
  handle : (r₁.instances.entry kh none).1.handle = (r.instances.entry kh none).1.handle
  count : satIncU32 (r₁.instances.entry kh none).1.samplesInCache =
    countWith cfg (r.instances.entry kh none).1
  room : cfg.qos.exclusiveOwnership = true ∨ r₁.instances = r.instances
  known : cfg.qos.exclusiveOwnership = true → (r₁.instances.stateOf kh).isSome = true

end DataReader

namespace InstanceState

theorem noteObserved_times (s : InstanceState) (keyHolder : Option Rtps.Octets)
    (timestamp : Option Time) :
    (s.noteObserved keyHolder timestamp).lastFilterTs = s.lastFilterTs ∧
      (s.noteObserved keyHolder timestamp).lastDeliveredTs = s.lastDeliveredTs ∧
      (s.noteObserved keyHolder timestamp).currentOwner = s.currentOwner ∧
      (s.noteObserved keyHolder timestamp).ownerAt = s.ownerAt := by
  unfold noteObserved counted stamped revived withHolder
  split <;> split <;> split <;> exact ⟨rfl, rfl, rfl, rfl⟩

theorem ownershipGoesTo_congr {s s' : InstanceState} (howner : s'.currentOwner = s.currentOwner)
    (hat : s'.ownerAt = s.ownerAt) (writer : WriterGuid) (strength : Int) (now : Time)
    (deadlineNanos : Option Nat) :
    s'.ownershipGoesTo writer strength now deadlineNanos =
      s.ownershipGoesTo writer strength now deadlineNanos := by
  unfold ownershipGoesTo
  rw [howner, hat]

end InstanceState

namespace InstanceTracker

structure ObservedFrom (t : InstanceTracker) (kh : KeyHash) (s : InstanceState) : Prop where
  filterTs : s.lastFilterTs = (t.stateOf kh).bind (·.lastFilterTs)
  deliveredTs : s.lastDeliveredTs = (t.stateOf kh).bind (·.lastDeliveredTs)
  owner : s.currentOwner = (t.entry kh none).1.currentOwner
  ownerAt : s.ownerAt = (t.entry kh none).1.ownerAt
  handle : s.handle = (t.entry kh none).1.handle
  count : s.samplesInCache = satIncU32 (t.entry kh none).1.samplesInCache

theorem observeSample_facts (t : InstanceTracker) (kh : KeyHash) (holder : Rtps.Octets) :
    ∃ s, (t.observeSample kh holder none).stateOf kh = some s ∧ ObservedFrom t kh s := by
  have hobs := stateOf_observeSampleWithHolder t kh kh (some holder) none
  rw [if_pos rfl] at hobs
  obtain ⟨hfilter, hdelivered, howner, hat⟩ :=
    (t.entry kh (some holder)).1.noteObserved_times (some holder) none
  have hhandle := (t.entry kh (some holder)).1.handle_noteObserved (some holder) none
  have hcount := (t.entry kh (some holder)).1.samplesInCache_noteObserved (some holder) none
  refine ⟨_, hobs, ?_, ?_, ?_, ?_, ?_, ?_⟩
  · rw [hfilter]
    unfold entry
    cases t.stateOf kh <;> rfl
  · rw [hdelivered]
    unfold entry
    cases t.stateOf kh <;> rfl
  · rw [howner]
    unfold entry
    cases t.stateOf kh <;> rfl
  · rw [hat]
    unfold entry
    cases t.stateOf kh <;> rfl
  · rw [hhandle]
    unfold entry
    cases t.stateOf kh <;> rfl
  · rw [hcount]
    unfold entry
    cases t.stateOf kh <;> rfl

end InstanceTracker

namespace DataReader

variable {T : Type} (cfg : ReaderConfig T)

def OwnershipGoes (r : DataReader T) (kh : KeyHash) (writer : WriterGuid) (strength : Int) : Prop :=
  cfg.qos.exclusiveOwnership = true → (r.instances.entry kh none).1.ownershipGoesTo writer strength
    (cfg.clock r.readings) cfg.deadlineNanos = true

instance (r : DataReader T) (kh : KeyHash) (writer : WriterGuid) (strength : Int) :
    Decidable (OwnershipGoes cfg r kh writer strength) :=
  inferInstanceAs (Decidable (_ → _))

variable {r : DataReader T} {sample : T}

theorem passesExclusiveOwnership_accepted {writer : WriterGuid} {strength : Int}
    (h : OwnershipGoes cfg r (cfg.codec.instanceKeyHash sample) writer strength) :
    ∃ r₁, passesExclusiveOwnership cfg r sample writer strength = (r₁, true) ∧
      Accepted cfg (cfg.codec.instanceKeyHash sample) r r₁ := by
  unfold passesExclusiveOwnership
  cases hx : cfg.qos.exclusiveOwnership with
  | false =>
    refine ⟨r, rfl, rfl, rfl, rfl, rfl, ?_, .inr rfl, fun hx' => ?_⟩
    · simp [countWith, hx]
    · rw [hx] at hx'
      cases hx'
  | true =>
    simp only [Bool.not_true, Bool.false_eq_true, if_false, wallNow]
    generalize cfg.codec.instanceKeyHash sample = kh at h ⊢
    generalize cfg.codec.keyHolder sample = holder
    obtain ⟨s, hstate, hs⟩ := InstanceTracker.observeSample_facts r.instances kh holder
    have hgoes : s.ownershipGoesTo writer strength (cfg.clock r.readings) cfg.deadlineNanos
        = true := by
      rw [InstanceState.ownershipGoesTo_congr hs.owner hs.ownerAt]
      exact h hx
    have hown : ((r.instances.observeSample kh holder none).modifyKey kh
        (·.ownedBy writer strength (cfg.clock r.readings))).stateOf kh =
          some (s.ownedBy writer strength (cfg.clock r.readings)) := by
      rw [InstanceTracker.stateOf_modifyKey, if_pos rfl, hstate]
      rfl
    refine ⟨{ r with
      readings := r.readings + 1
      instances := (r.instances.observeSample kh holder none).modifyKey kh
        (·.ownedBy writer strength (cfg.clock r.readings)) }, ?_, rfl, ?_, ?_, ?_, ?_,
        .inl hx, fun _ => by simp only [hown, Option.isSome_some]⟩
    · simp only [InstanceTracker.acceptUnderExclusiveOwnership, hstate, hgoes, if_true]
    · rw [hown]
      exact hs.filterTs
    · rw [hown]
      exact hs.deliveredTs
    · simp only [InstanceTracker.entry, hown]
      exact hs.handle
    · simp only [InstanceTracker.entry, hown, countWith, hx, if_true]
      exact congrArg satIncU32 hs.count

/-! ### The whole chain -/

def Admissible (r : DataReader T) (now : Time) (raw : RawIngestSample) (timeFilter : Bool)
    (sample : T) : Prop :=
  let kh := cfg.codec.instanceKeyHash sample
  expired (raw.expiresAt now) now = false ∧
    cfg.samplePassesFilter sample = true ∧
    OwnershipGoes cfg r kh raw.writerGuid raw.writerStrength ∧
    (timeFilter = true → r.instances.shouldDeliverUnderTimeBasedFilter kh
      (raw.filterTs cfg.qos.tbfClock now) cfg.qos.minSepNanos = true) ∧
    r.instances.shouldDeliverUnderDestinationOrder kh (raw.orderTs cfg.qos.bySourceTs now)
      cfg.qos.bySourceTs = true ∧
    (cfg.qos.exclusiveOwnership = false →
      r.instances.hasRoomFor kh cfg.qos.maxInstances = true) ∧
    SampleRoom cfg r (r.instances.entry kh none).1.handle
      (countWith cfg (r.instances.entry kh none).1)

instance (r : DataReader T) (now : Time) (raw : RawIngestSample) (timeFilter : Bool) (sample : T) :
    Decidable (Admissible cfg r now raw timeFilter sample) :=
  inferInstanceAs (Decidable (_ ∧ _))

variable {now : Time} {raw : RawIngestSample}

theorem admit_of_room
    (hroom : r.instances.hasRoomFor (cfg.codec.instanceKeyHash sample) cfg.qos.maxInstances = true)
    (hsamples : SampleRoom cfg r
      (r.instances.entry (cfg.codec.instanceKeyHash sample) none).1.handle
      (satIncU32 (r.instances.entry (cfg.codec.instanceKeyHash sample) none).1.samplesInCache)) :
    (admitSample cfg r now raw sample).2 = .admitted := by
  rcases admit_cases cfg r now raw sample with
    ⟨hnone, _⟩ | ⟨t, handle, n, r₁, inCache, hobs, hhist, ⟨reason, _, hlim, _⟩ | ⟨_, _, _, _, heq⟩⟩
  · rw [hroom] at hnone
    cases hnone
  · obtain ⟨holder, s, rfl, rfl, rfl, _⟩ := InstanceTracker.observeAdmitted_eq_some _ hobs
    rw [InstanceState.handle_noteObserved, InstanceState.samplesInCache_noteObserved] at hhist
    have hcache : ({ r with instances := t } : DataReader T).cache = r.cache := rfl
    have hsamples₁ := sampleRoom_congr cfg hcache hsamples
    rw [SampleRoom, hhist] at hsamples₁
    have hlet : (applyLimits cfg r₁
        (r.instances.entry (cfg.codec.instanceKeyHash sample) none).1.handle inCache).2 = none :=
      applyLimits_of_room cfg hsamples₁
    rw [InstanceState.handle_noteObserved] at hlim
    rw [hlim] at hlet
    cases hlet
  · rw [heq]

theorem admit_of_unlimited (hsamples : cfg.qos.maxSamples < 0)
    (hinstance : cfg.qos.maxSamplesPerInstance < 0) (hinstances : cfg.qos.maxInstances < 0)
    (r : DataReader T) (now : Time) (raw : RawIngestSample) (sample : T) :
    (admitSample cfg r now raw sample).2 = .admitted := by
  refine admit_of_room cfg ?_ fun _ => ?_
  · simp [InstanceTracker.hasRoomFor, hinstances]
  · simp [overInstanceLimit, samplesFull, Int.not_le.mpr hsamples, Int.not_le.mpr hinstance]

theorem ingestAliveFiltered_eq_ingestFiltered (hlasts : raw.lifespanNanos = 0)
    (hfilter : cfg.filter = none) (hshared : cfg.qos.exclusiveOwnership = false)
    (hdecode : cfg.codec.decode raw.bytes.octets raw.representation raw.bigEndian = .ok sample)
    (r : DataReader T) (now : Time) (timeFilter : Bool) :
    ingestAliveFiltered cfg r now raw timeFilter =
      ingestFiltered cfg r now raw sample timeFilter := by
  simp [ingestAliveFiltered, expired, RawIngestSample.expiresAt, lifespanExpiry, hlasts, hdecode,
    ReaderConfig.samplePassesFilter, hfilter, passesExclusiveOwnership, hshared]

theorem admitted_of_admissible {timeFilter : Bool}
    (hdecode : cfg.codec.decode raw.bytes.octets raw.representation raw.bigEndian = .ok sample)
    (h : Admissible cfg r now raw timeFilter sample) :
    (ingestAliveFiltered cfg r now raw timeFilter).2 = .admitted := by
  obtain ⟨hexpired, hpass, hgoes, htbf, horder, hinstances, hsamples⟩ := h
  obtain ⟨r₁, hown, hacc⟩ := passesExclusiveOwnership_accepted cfg hgoes
  have htbf₁ : (timeFilter && !r₁.instances.shouldDeliverUnderTimeBasedFilter
      (cfg.codec.instanceKeyHash sample) (raw.filterTs cfg.qos.tbfClock now)
      cfg.qos.minSepNanos) = false := by
    cases timeFilter with
    | false => rfl
    | true =>
      have hlet := htbf rfl
      unfold InstanceTracker.shouldDeliverUnderTimeBasedFilter at hlet ⊢
      rw [hacc.filterTs, hlet]
      rfl
  have horder₁ : (supersede cfg r₁ (cfg.codec.instanceKeyHash
      sample)).instances.shouldDeliverUnderDestinationOrder (cfg.codec.instanceKeyHash sample)
      (raw.orderTs cfg.qos.bySourceTs now) cfg.qos.bySourceTs = true := by
    rw [supersede_instances]
    unfold InstanceTracker.shouldDeliverUnderDestinationOrder at horder ⊢
    rw [hacc.deliveredTs]
    exact horder
  have hadmitted : (admitSample cfg (supersede cfg r₁ (cfg.codec.instanceKeyHash sample)) now raw
      sample).2 = .admitted := by
    refine admit_of_room cfg ?_ ?_
    · rw [supersede_instances]
      rcases hacc.room with hx | hsame
      · simp [InstanceTracker.hasRoomFor, hacc.known hx]
      · rw [hsame]
        cases hx : cfg.qos.exclusiveOwnership with
        | false => exact hinstances hx
        | true =>
          have hknown := hacc.known hx
          rw [hsame] at hknown
          simp [InstanceTracker.hasRoomFor, hknown]
    · rw [supersede_instances, hacc.handle, hacc.count]
      exact sampleRoom_congr cfg (by rw [supersede_cache, hacc.cache]) hsamples
  unfold ingestAliveFiltered
  simp only [hexpired, hdecode, hpass, hown, Bool.false_eq_true, if_false, Bool.not_true]
  unfold ingestFiltered
  simp only [htbf₁, horder₁, Bool.false_eq_true, if_false, Bool.not_true]
  exact hadmitted

end ZeroDds.Dcps.DataReader
