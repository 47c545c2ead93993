/-
The retention contract bounds the store.
-/
import ZeroDds.Lib.Run
import ZeroDds.Durability.InMemoryStore

namespace ZeroDds.Durability

open SortedMap

open Dcps (KeyHash WriterGuid HistoryKind)

def ValidCap (cap : Int) : Prop := cap = lengthUnlimited ∨ 1 ≤ cap ∧ cap < 2147483648

structure Contract.ValidCaps (c : Contract) : Prop where
  maxSamples : ValidCap c.maxSamples
  maxInstances : ValidCap c.maxInstances
  maxSamplesPerInstance : ValidCap c.maxSamplesPerInstance

def sampleCount (slots : SortedMap KeyHash Slot) : Nat := (slots.values.map (·.samples.size)).sum

structure Bounded (c : Contract) (slots : SortedMap KeyHash Slot) : Prop where
  samples : c.samplesBounded = true → (sampleCount slots : Int) ≤ c.maxSamples
  instances : c.instancesBounded = true → (slots.size : Int) ≤ c.maxInstances
  keepLast : c.historyKind = .keepLast → ∀ key slot, slots.get? key = some slot →
    slot.samples.size ≤ c.effectiveDepth
  keepAll : c.historyKind = .keepAll → c.perInstanceBounded = true →
    ∀ key slot, slots.get? key = some slot → (slot.samples.size : Int) ≤ c.maxSamplesPerInstance

theorem asUsize_of_valid {cap : Int} (hvalid : ValidCap cap) (hbounded : cap ≠ lengthUnlimited) :
    1 ≤ asUsize cap ∧ (asUsize cap : Int) = cap := by
  rcases hvalid with h | ⟨hpos, hlt⟩
  · exact absurd h hbounded
  · have hmod : cap % 18446744073709551616 = cap := Int.emod_eq_of_lt (by omega) (by omega)
    rw [asUsize, hmod]
    omega

variable {c : Contract}

theorem bounded_empty (hc : c.ValidCaps) : Bounded c .empty where
  samples h := by
    have hcap := asUsize_of_valid hc.maxSamples (by simpa [Contract.samplesBounded] using h)
    have hzero : sampleCount (.empty : SortedMap KeyHash Slot) = 0 := rfl
    omega
  instances h := by
    have hcap := asUsize_of_valid hc.maxInstances (by simpa [Contract.instancesBounded] using h)
    have hzero : (.empty : SortedMap KeyHash Slot).size = 0 := rfl
    omega
  keepLast _ key slot h := by cases h
  keepAll _ _ key slot h := by cases h

theorem Bounded.filter {slots : SortedMap KeyHash Slot} (h : Bounded c slots)
    (p : KeyHash → Slot → Bool) : Bounded c (slots.filter p) where
  samples hb := by
    have hle : sampleCount (slots.filter p) ≤ sampleCount slots :=
      sum_values_filter_le slots _ p
    have := h.samples hb
    omega
  instances hb := by
    have hle := size_filter_le slots p
    have := h.instances hb
    omega
  keepLast hk key slot hslot := by
    rw [get?_filter, Option.filter_eq_some_iff] at hslot
    exact h.keepLast hk key slot hslot.1
  keepAll hk hb key slot hslot := by
    rw [get?_filter, Option.filter_eq_some_iff] at hslot
    exact h.keepAll hk hb key slot hslot.1

theorem Bounded.insert {slots : SortedMap KeyHash Slot} (h : Bounded c slots) {key : KeyHash}
    {slot : Slot} (hsamples : c.samplesBounded = true →
      (sampleCount (slots.insert key slot) : Int) ≤ c.maxSamples)
    (hinstances : c.instancesBounded = true → slots.contains key = true ∨
      (slots.size + 1 : Int) ≤ c.maxInstances)
    (hkeepLast : c.historyKind = .keepLast → slot.samples.size ≤ c.effectiveDepth)
    (hkeepAll : c.historyKind = .keepAll → c.perInstanceBounded = true →
      (slot.samples.size : Int) ≤ c.maxSamplesPerInstance) :
    Bounded c (slots.insert key slot) where
  samples := hsamples
  instances hb := by
    have hold := h.instances hb
    cases hget : slots.get? key with
    | some old =>
      rw [size_insert_of_some hget]
      exact hold
    | none =>
      rw [size_insert_of_none hget]
      rcases hinstances hb with hin | hroom
      · rw [SortedMap.contains, hget] at hin
        cases hin
      · exact hroom
  keepLast hk key' slot' hslot := by
    rw [get?_insert] at hslot
    split at hslot
    · obtain rfl := Option.some.inj hslot
      exact hkeepLast hk
    · exact h.keepLast hk key' slot' hslot
  keepAll hk hb key' slot' hslot := by
    rw [get?_insert] at hslot
    split at hslot
    · obtain rfl := Option.some.inj hslot
      exact hkeepAll hk hb
    · exact h.keepAll hk hb key' slot' hslot

namespace InMemoryStore

def heldOf (s : InMemoryStore) (sample : DurabilitySample) : Nat :=
  (((s.slots sample.topic).get? sample.instanceKey).getD {}).samples.size

/-- Under KEEP_LAST, no instance that is below its depth gets a new number while the topic is at its
cap. -/
def FitsCap (s : InMemoryStore) (sample : DurabilitySample) : Prop :=
  let c := s.contractFor sample.topic
  c.historyKind = .keepLast → c.samplesBounded = true → s.isResend sample = true ∨
    c.effectiveDepth ≤ s.heldOf sample ∨ s.topicSampleCount sample.topic < asUsize c.maxSamples

def CapKept (topic : String) (s : InMemoryStore) : Call → Prop
  | .setContract t _ => t ≠ topic
  | .setTopicMeta t _ => t ≠ topic
  | .store sample => sample.topic = topic → s.FitsCap sample
  | _ => True

variable {s : InMemoryStore} {topic : String} {c : Contract} {sample : DurabilitySample}

theorem contractFor_store : (s.store sample).2.contractFor topic = s.contractFor topic := by
  rcases s.store_cases sample with ⟨e, h⟩ | ⟨e, -, h⟩ | ⟨slot', grown, -, h, -⟩
  · rw [h]
  · rw [h]; rfl
  · rw [h]; rfl

theorem store_refused (hc : (s.contractFor sample.topic).ValidCaps) {e : StoreError}
    (h : (s.store sample).1 = .error e) : (s.store sample).2 = s := by
  rcases s.store_cases sample with ⟨e', heq⟩ | ⟨e', hpush, heq⟩ | ⟨slot', grown, -, heq, -⟩
  · rw [heq]
  · rw [heq]
    obtain ⟨hbounded, hfull⟩ := pushIntoSlot_error hpush
    have hcap := asUsize_of_valid hc.maxSamplesPerInstance
      (by simpa [Contract.perInstanceBounded] using hbounded)
    cases hget : (s.slots sample.topic).get? sample.instanceKey with
    | none =>
      have hzero : ({} : Slot).samples.size = 0 := rfl
      rw [hget, Option.getD_none, hzero] at hfull
      omega
    | some slot => exact putSlot_of_get hget
  · rw [heq] at h
    cases h

theorem sampleCount_insert (slots : SortedMap KeyHash Slot) (key : KeyHash) (slot : Slot) :
    sampleCount (slots.insert key slot) + ((slots.get? key).getD {}).samples.size =
      sampleCount slots + slot.samples.size := by
  have h := sum_values_insert slots (·.samples.size) key slot
  cases hget : slots.get? key with
  | none => simpa [hget, sampleCount, SortedMap.size, SortedMap.empty] using h
  | some old => simpa [hget, sampleCount] using h

theorem size_insert_le (m : SortedMap Nat DurabilitySample) (n : Nat) (v : DurabilitySample) :
    (m.insert n v).size ≤ m.size + 1 ∧ (m.contains n = true → (m.insert n v).size = m.size) := by
  cases hget : m.get? n with
  | none =>
    refine ⟨Nat.le_of_eq (size_insert_of_none hget), fun hin => ?_⟩
    rw [SortedMap.contains, hget] at hin
    cases hin
  | some w =>
    have hsize : (m.insert n v).size = m.size := size_insert_of_some hget
    exact ⟨by omega, fun _ => hsize⟩

theorem isResend_iff : s.isResend sample = true ↔
    (((s.slots sample.topic).get? sample.instanceKey).getD {}).samples.contains sample.sequence =
      true := by
  unfold isResend
  cases (s.slots sample.topic).get? sample.instanceKey with
  | none => simp [SortedMap.contains]
  | some slot => simp

theorem bounded_store (hc : c.ValidCaps) (hcontract : s.contractFor topic = c)
    (hb : Bounded c (s.slots topic)) (hfits : sample.topic = topic → s.FitsCap sample) :
    Bounded c ((s.store sample).2.slots topic) := by
  by_cases htopic : sample.topic = topic
  swap
  · have hother : (s.store sample).2.slots topic = s.slots topic := by
      have hne : ¬topic = sample.topic := fun h => htopic h.symm
      rcases s.store_cases sample with ⟨e, h⟩ | ⟨e, -, h⟩ | ⟨slot', grown, -, h, -⟩
      · rw [h]
      · rw [h, slots_putSlot, if_neg hne]
      · rw [h, slots_putSlot, if_neg hne]
    rw [hother]
    exact hb
  have hfits' := hfits htopic
  subst htopic
  subst hcontract
  cases hresult : (s.store sample).1 with
  | error e =>
    rw [store_refused hc hresult]
    exact hb
  | ok u =>
  rcases s.store_cases sample with ⟨e, h⟩ | ⟨e, -, h⟩ | ⟨slot', grown, hpush, h, hroom, hinstances⟩
  · rw [h] at hresult
    cases hresult
  · rw [h] at hresult
    cases hresult
  rw [h, slots_putSlot_self]
  obtain ⟨-, hkind⟩ := pushIntoSlot_ok hpush
  have hheld : s.heldOf sample =
      (((s.slots sample.topic).get? sample.instanceKey).getD {}).samples.size := rfl
  have hcount := sampleCount_insert (s.slots sample.topic) sample.instanceKey slot'
  have htopicCount : s.topicSampleCount sample.topic = sampleCount (s.slots sample.topic) := rfl
  obtain ⟨hgrows, hsame⟩ := size_insert_le
    (((s.slots sample.topic).get? sample.instanceKey).getD {}).samples sample.sequence sample
  refine hb.insert ?_ ?_ ?_ ?_
  · intro hbounded
    have hcap := asUsize_of_valid hc.maxSamples (by simpa [Contract.samplesBounded] using hbounded)
    have hold := hb.samples hbounded
    rcases hkind with ⟨hall, hsamples, -⟩ | ⟨hlast, hsamples⟩
    · rw [hsamples] at hcount
      rcases hroom with hresend | hunbounded | hbelow | hlast
      · have := hsame (isResend_iff.mp hresend)
        omega
      · rw [hunbounded] at hbounded
        cases hbounded
      · omega
      · rw [hall] at hlast
        cases hlast
    · rw [hsamples, size_dropFirst] at hcount
      rcases hfits' hlast hbounded with hresend | hdepth | hbelow
      · have := hsame (isResend_iff.mp hresend)
        omega
      · omega
      · omega
  · intro hbounded
    rcases hinstances with hin | hunbounded | hbelow
    · exact Or.inl hin
    · rw [hunbounded] at hbounded
      cases hbounded
    · have hcap := asUsize_of_valid hc.maxInstances
        (by simpa [Contract.instancesBounded] using hbounded)
      have hsize : s.topicInstanceCount sample.topic = (s.slots sample.topic).size := rfl
      exact Or.inr (by omega)
  · intro hlast
    rcases hkind with ⟨hall, -⟩ | ⟨-, hsamples⟩
    · rw [hall] at hlast
      cases hlast
    · rw [hsamples, size_dropFirst]
      omega
  · intro hall hbounded
    rcases hkind with ⟨-, hsamples, hslotRoom⟩ | ⟨hlast, -⟩
    · have hcap := asUsize_of_valid hc.maxSamplesPerInstance
        (by simpa [Contract.perInstanceBounded] using hbounded)
      rw [hsamples]
      rcases hslotRoom with hresend | hunbounded | hbelow
      · rw [hsame hresend]
        cases hget : (s.slots sample.topic).get? sample.instanceKey with
        | none =>
          rw [hget] at hresend
          cases hresend
        | some slot => exact hb.keepAll hall hbounded _ slot hget
      · rw [hunbounded] at hbounded
        cases hbounded
      · omega
    · rw [hall] at hlast
      cases hlast

theorem bounded_unregister {t : String} {key : KeyHash} {now : SystemTime}
    (hb : Bounded c (s.slots topic)) : Bounded c ((s.unregister t key now).slots topic) := by
  unfold unregister
  cases hget : (s.slots t).get? key with
  | none => exact hb
  | some slot =>
    rw [slots_putSlot]
    split
    · next htopic =>
      subst htopic
      refine hb.insert ?_ ?_ ?_ ?_
      · intro hbounded
        have hcount := sampleCount_insert (s.slots topic) key
          { slot with unregisteredAt := some now }
        rw [hget] at hcount
        have hold := hb.samples hbounded
        simp only [Option.getD_some] at hcount
        omega
      · intro _
        exact Or.inl (contains_iff.mpr ⟨slot, hget⟩)
      · exact fun hlast => hb.keepLast hlast key slot hget
      · exact fun hall hbounded => hb.keepAll hall hbounded key slot hget
    · exact hb

theorem bounded_call (hc : c.ValidCaps) {call : Call} (hok : CapKept topic s call)
    (h : s.contractFor topic = c ∧ Bounded c (s.slots topic)) :
    (s.call call).1.contractFor topic = c ∧ Bounded c ((s.call call).1.slots topic) := by
  obtain ⟨hcontract, hb⟩ := h
  cases call with
  | setContract t contract =>
    have hne : ¬topic = t := fun h => hok h.symm
    refine ⟨?_, hb⟩
    rw [← hcontract]
    simp only [InMemoryStore.call, contractFor, setContract, get?_insert, if_neg hne]
  | setTopicMeta t m =>
    have hne : ¬topic = t := fun h => hok h.symm
    refine ⟨?_, hb⟩
    rw [← hcontract]
    simp only [InMemoryStore.call, contractFor, setTopicMeta, get?_insert, if_neg hne]
  | store sample => exact ⟨contractFor_store.trans hcontract, bounded_store hc hcontract hb hok⟩
  | unregister t key now =>
    exact ⟨contractFor_unregister.trans hcontract, bounded_unregister hb⟩
  | cleanup now =>
    refine ⟨hcontract, ?_⟩
    have hslots : (s.call (.cleanup now)).1.slots topic =
        (s.slots topic).filter fun _ slot => !s.isDue topic now slot := slots_cleanup
    rw [hslots]
    exact hb.filter _
  | topicMeta t => exact ⟨hcontract, hb⟩
  | query t sel => exact ⟨hcontract, hb⟩
  | stats t => exact ⟨hcontract, hb⟩
  | replayForTopic t => exact ⟨hcontract, hb⟩

/-- In every state of a run that keeps the cap under KEEP_LAST, the topic is within its contract,
and a sample of it that is refused leaves every query and every count as it was. -/
theorem contract_bounds_kept {s₀ : InMemoryStore} {h : History Call Reply}
    (hcontract : s₀.contractFor topic = c) (hc : c.ValidCaps) (hempty : s₀.slots topic = .empty)
    (hr : Reaches InMemoryStore.call (CapKept topic) s₀ h s) :
    Bounded c (s.slots topic) ∧
    ∀ sample e, sample.topic = topic → (s.store sample).1 = .error e →
      (∀ t sel, (s.store sample).2.query t sel = s.query t sel) ∧
      ∀ t, (s.store sample).2.stats t = s.stats t := by
  have hinv : s.contractFor topic = c ∧ Bounded c (s.slots topic) := by
    refine hr.invariant (P := fun _ s => s.contractFor topic = c ∧ Bounded c (s.slots topic))
      ⟨hcontract, ?_⟩ fun _ s call hinv hok => bounded_call hc hok hinv
    rw [hempty]
    exact bounded_empty hc
  refine ⟨hinv.2, fun sample e htopic he => ?_⟩
  have hsame : (s.store sample).2 = s := by
    refine store_refused ?_ he
    rw [htopic, hinv.1]
    exact hc
  rw [hsame]
  exact ⟨fun _ _ => rfl, fun _ => rfl⟩

end InMemoryStore

/-! ### A ceiling that KEEP_LAST does not keep -/

namespace Fixture

def lastOfOne : Contract := ⟨.keepLast, 1, 1, lengthUnlimited, lengthUnlimited, 0⟩

def sampleOf (instanceKey : UInt8) (sequence : Nat) : DurabilitySample :=
  ⟨"t", .repeated instanceKey, sequence, [instanceKey], 1, false, 0, .repeated 9, sequence⟩

def twoInstances : List Call := [.store (sampleOf 1 0), .store (sampleOf 2 1)]

/-- The topic ends with two samples where its contract has one. -/
theorem two_instances_over_the_cap :
    lastOfOne.ValidCaps ∧
    ¬Bounded lastOfOne ((run InMemoryStore.call (.withDefaultContract lastOfOne)
      twoInstances).1.slots "t") := by
  refine ⟨⟨Or.inr ⟨by decide, by decide⟩, Or.inl rfl, Or.inl rfl⟩, fun hb => ?_⟩
  have hle := hb.samples (by decide)
  revert hle
  decide +kernel

def oneInstance : List Call :=
  [.store (sampleOf 1 0), .store (sampleOf 1 1), .unregister "t" (.repeated 1) 5, .cleanup 4]

theorem one_instance_within_the_cap :
    Bounded lastOfOne ((run InMemoryStore.call (.withDefaultContract lastOfOne)
      oneInstance).1.slots "t") := by
  have hok : RunOk InMemoryStore.call (InMemoryStore.CapKept "t")
      (.withDefaultContract lastOfOne) oneInstance := by
    refine ⟨fun _ _ _ => Or.inr (Or.inr ?_), fun _ _ _ => Or.inr (Or.inl ?_), trivial, trivial,
      trivial⟩
    · decide +kernel
    · decide +kernel
  exact (InMemoryStore.contract_bounds_kept rfl
    ⟨Or.inr ⟨by decide, by decide⟩, Or.inl rfl, Or.inl rfl⟩ rfl (reaches_run hok)).1

end Fixture

end ZeroDds.Durability
