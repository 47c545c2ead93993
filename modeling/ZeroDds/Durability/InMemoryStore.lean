/-
The store in memory.

The samples of an instance are a map by sequence number, which is a vector sorted by it in the
source: inserting over a number replaces the sample, and the history evicts from the front.
-/
import ZeroDds.Durability.Model

namespace ZeroDds.Durability

open Dcps (KeyHash WriterGuid HistoryKind)

structure Slot where
  samples : SortedMap Nat DurabilitySample := .empty
  unregisteredAt : Option SystemTime := none
deriving DecidableEq

structure InMemoryStore where
  defaultContract : Contract
  contracts : SortedMap String Contract
  topicMeta : SortedMap String TopicMeta
  byKey : SortedMap String (SortedMap KeyHash Slot)

def pushIntoSlot (slot : Slot) (sample : DurabilitySample) (contract : Contract) :
    Except StoreError (Slot × Int) :=
  match contract.historyKind with
  | .keepAll =>
    let isResend := slot.samples.contains sample.sequence
    if !isResend && contract.perInstanceBounded &&
        slot.samples.size ≥ asUsize contract.maxSamplesPerInstance then
      .error (.outOfResources "max_samples_per_instance")
    else
      let samples := slot.samples.insert sample.sequence sample
      .ok ({ slot with samples }, samples.size - slot.samples.size)
  | .keepLast =>
    let inserted := slot.samples.insert sample.sequence sample
    -- The lowest sequence numbers go.
    let samples := inserted.dropFirst (inserted.size - contract.effectiveDepth)
    .ok ({ slot with samples }, samples.size - slot.samples.size)

namespace InMemoryStore

def withDefaultContract (defaultContract : Contract) : InMemoryStore :=
  ⟨defaultContract, .empty, .empty, .empty⟩

variable (s : InMemoryStore) (topic : String)

def contractFor : Contract :=
  match s.topicMeta.get? topic with
  | some m => m.contract
  | none => (s.contracts.get? topic).getD s.defaultContract

def slots : SortedMap KeyHash Slot := (s.byKey.get? topic).getD .empty

def topicSampleCount : Nat := ((s.slots topic).values.map (·.samples.size)).sum

def topicInstanceCount : Nat := (s.slots topic).size

def setContract (contract : Contract) : InMemoryStore :=
  { s with contracts := s.contracts.insert topic contract }

def setTopicMeta (m : TopicMeta) : InMemoryStore :=
  { s with topicMeta := s.topicMeta.insert topic m }

def putSlot (key : KeyHash) (slot : Slot) : InMemoryStore :=
  { s with byKey := s.byKey.insert topic ((s.slots topic).insert key slot) }

def isResend (sample : DurabilitySample) : Bool :=
  ((s.slots sample.topic).get? sample.instanceKey).any (·.samples.contains sample.sequence)

def store (sample : DurabilitySample) : Except StoreError Unit × InMemoryStore :=
  let contract := s.contractFor sample.topic
  if !s.isResend sample && contract.samplesBounded &&
      s.topicSampleCount sample.topic ≥ asUsize contract.maxSamples &&
      contract.historyKind = .keepAll then
    (.error (.outOfResources "max_samples"), s)
  else if !(s.slots sample.topic).contains sample.instanceKey && contract.instancesBounded &&
      s.topicInstanceCount sample.topic ≥ asUsize contract.maxInstances then
    (.error (.outOfResources "max_instances"), s)
  else
    let slot := ((s.slots sample.topic).get? sample.instanceKey).getD {}
    match pushIntoSlot slot sample contract with
    | .error e => (.error e, s.putSlot sample.topic sample.instanceKey slot)
    | .ok (slot', _) => (.ok (), s.putSlot sample.topic sample.instanceKey slot')

def topicSamples : List DurabilitySample :=
  (s.slots topic).values.flatMap (·.samples.values)

def query (sel : Selector) : Page :=
  pageOf sel ((s.topicSamples topic).filter sel.accepts)

def unregister (key : KeyHash) (now : SystemTime) : InMemoryStore :=
  match (s.slots topic).get? key with
  | none => s
  | some slot => s.putSlot topic key { slot with unregisteredAt := some now }

def isDue (now : SystemTime) (slot : Slot) : Bool :=
  slot.unregisteredAt.any fun t =>
    (t.checkedAdd (s.contractFor topic).cleanupDelay).any fun deadline => deadline ≤ now

def cleanup (now : SystemTime) : Nat × InMemoryStore :=
  ((s.byKey.entries.map fun e => (e.2.filter fun _ slot => s.isDue e.1 now slot).size).sum,
    { s with
      byKey := s.byKey.mapWithKey fun topic slots =>
        slots.filter fun _ slot => !s.isDue topic now slot })

def stats : StoreStats where
  samples := s.topicSampleCount topic
  instances := s.topicInstanceCount topic
  bytes := ((s.topicSamples topic).map (·.payload.length)).sum

def replayForTopic : List DurabilitySample :=
  replayAll (s.query topic) (s.topicSampleCount topic)

def call : Call → InMemoryStore × Reply
  | .setContract topic contract => (s.setContract topic contract, .done)
  | .setTopicMeta topic m => (s.setTopicMeta topic m, .done)
  | .topicMeta topic => (s, .topicMeta (s.topicMeta.get? topic))
  | .store sample => ((s.store sample).2, .ofResult (s.store sample).1)
  | .query topic sel => (s, .page (s.query topic sel))
  | .unregister topic key now => (s.unregister topic key now, .done)
  | .cleanup now => ((s.cleanup now).2, .removed (s.cleanup now).1)
  | .stats topic => (s, .stats (s.stats topic))
  | .replayForTopic topic => (s, .samples (s.replayForTopic topic))

/-! ### Slots and contracts after a call -/

variable {s} {topic topic' : String} {key : KeyHash} {slot : Slot} {now : SystemTime}
  {sample : DurabilitySample}

theorem slots_putSlot :
    (s.putSlot topic key slot).slots topic' =
      if topic' = topic then (s.slots topic).insert key slot else s.slots topic' := by
  simp only [slots, putSlot, SortedMap.get?_insert]
  split <;> rfl

@[simp] theorem slots_putSlot_self :
    (s.putSlot topic key slot).slots topic = (s.slots topic).insert key slot := by
  rw [slots_putSlot, if_pos rfl]

theorem slots_cleanup :
    (s.cleanup now).2.slots topic =
      (s.slots topic).filter fun _ slot => !s.isDue topic now slot := by
  simp only [slots, cleanup, SortedMap.get?_mapWithKey]
  cases s.byKey.get? topic <;> rfl

theorem contractFor_unregister :
    (s.unregister topic key now).contractFor topic' = s.contractFor topic' := by
  unfold unregister
  split <;> rfl

theorem putSlot_of_get (hslot : (s.slots topic).get? key = some slot) :
    s.putSlot topic key slot = s := by
  have hslots : (s.slots topic).insert key slot = s.slots topic := by
    refine SortedMap.ext_get? fun k => ?_
    rw [SortedMap.get?_insert]
    split
    · next h => rw [h, hslot]
    · rfl
  have hbyKey : s.byKey.insert topic (s.slots topic) = s.byKey := by
    refine SortedMap.ext_get? fun t => ?_
    rw [SortedMap.get?_insert]
    split
    · next h =>
      subst h
      unfold slots at hslot ⊢
      cases hget : s.byKey.get? t with
      | none => simp [hget] at hslot
      | some slots => rfl
    · rfl
  rw [putSlot, hslots, hbyKey]

/-! ### What a store does -/

theorem store_cases (s : InMemoryStore) (sample : DurabilitySample) :
    (∃ e, s.store sample = (.error e, s)) ∨
    (∃ e, pushIntoSlot (((s.slots sample.topic).get? sample.instanceKey).getD {}) sample
        (s.contractFor sample.topic) = .error e ∧
      s.store sample = (.error e, s.putSlot sample.topic sample.instanceKey
        (((s.slots sample.topic).get? sample.instanceKey).getD {}))) ∨
    ∃ slot' grown, pushIntoSlot (((s.slots sample.topic).get? sample.instanceKey).getD {}) sample
        (s.contractFor sample.topic) = .ok (slot', grown) ∧
      s.store sample = (.ok (), s.putSlot sample.topic sample.instanceKey slot') ∧
      (s.isResend sample = true ∨ (s.contractFor sample.topic).samplesBounded = false ∨
        s.topicSampleCount sample.topic < asUsize (s.contractFor sample.topic).maxSamples ∨
        (s.contractFor sample.topic).historyKind = .keepLast) ∧
      ((s.slots sample.topic).contains sample.instanceKey = true ∨
        (s.contractFor sample.topic).instancesBounded = false ∨
        s.topicInstanceCount sample.topic < asUsize (s.contractFor sample.topic).maxInstances) := by
  unfold store
  simp only
  split
  · exact Or.inl ⟨_, rfl⟩
  next hsamples =>
  split
  · exact Or.inl ⟨_, rfl⟩
  next hinstances =>
  refine Or.inr ?_
  cases hpush : pushIntoSlot (((s.slots sample.topic).get? sample.instanceKey).getD {}) sample
      (s.contractFor sample.topic) with
  | error e => exact Or.inl ⟨e, rfl, rfl⟩
  | ok pushed =>
    refine Or.inr ⟨pushed.1, pushed.2, rfl, rfl, ?_, ?_⟩
    · by_contra hnot
      push Not at hnot
      obtain ⟨h₁, h₂, h₃, h₄⟩ := hnot
      refine hsamples ?_
      have hkind : (s.contractFor sample.topic).historyKind = .keepAll := by
        cases hk : (s.contractFor sample.topic).historyKind
        · exact absurd hk h₄
        · rfl
      simp [h₁, h₂, h₃, hkind]
    · by_contra hnot
      push Not at hnot
      obtain ⟨h₁, h₂, h₃⟩ := hnot
      refine hinstances ?_
      simp [h₁, h₂, h₃]

end InMemoryStore

/-! ### What a slot does -/

variable {slot : Slot} {sample : DurabilitySample} {contract : Contract}

theorem pushIntoSlot_ok {slot' : Slot} {grown : Int}
    (h : pushIntoSlot slot sample contract = .ok (slot', grown)) :
    slot'.unregisteredAt = slot.unregisteredAt ∧
    ((contract.historyKind = .keepAll ∧
        slot'.samples = slot.samples.insert sample.sequence sample ∧
        (slot.samples.contains sample.sequence = true ∨ contract.perInstanceBounded = false ∨
          slot.samples.size < asUsize contract.maxSamplesPerInstance)) ∨
      (contract.historyKind = .keepLast ∧
        slot'.samples = (slot.samples.insert sample.sequence sample).dropFirst
          ((slot.samples.insert sample.sequence sample).size - contract.effectiveDepth))) := by
  unfold pushIntoSlot at h
  cases hkind : contract.historyKind with
  | keepAll =>
    simp only [hkind] at h
    split at h
    · cases h
    · next hroom =>
      obtain ⟨rfl, -⟩ := Prod.mk.inj (Except.ok.inj h)
      refine ⟨rfl, Or.inl ⟨rfl, rfl, ?_⟩⟩
      by_contra hnot
      push Not at hnot
      obtain ⟨h₁, h₂, h₃⟩ := hnot
      exact hroom (by simp [h₁, h₂, h₃])
  | keepLast =>
    simp only [hkind] at h
    obtain ⟨rfl, -⟩ := Prod.mk.inj (Except.ok.inj h)
    exact ⟨rfl, Or.inr ⟨rfl, rfl⟩⟩

theorem pushIntoSlot_error {e : StoreError} (h : pushIntoSlot slot sample contract = .error e) :
    contract.perInstanceBounded = true ∧
      asUsize contract.maxSamplesPerInstance ≤ slot.samples.size := by
  unfold pushIntoSlot at h
  cases hkind : contract.historyKind with
  | keepAll =>
    simp only [hkind] at h
    split at h
    · next hfull =>
      simp only [Bool.and_eq_true, decide_eq_true_eq] at hfull
      exact ⟨hfull.1.2, hfull.2⟩
    · cases h
  | keepLast =>
    simp only [hkind] at h
    cases h

end ZeroDds.Durability
