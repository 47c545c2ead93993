/-
The durability service over one topic.

A run of the service starts its counter at the number of samples in the store and remembers the
source identities it finds there; the pump then gives every sample it has not seen the next number.
-/
import ZeroDds.Durability.Retention

namespace ZeroDds.Durability

open InMemoryStore SortedMap

open Dcps (KeyHash WriterGuid HistoryKind)

structure Incoming where
  keyHash : Option KeyHash
  payload : List UInt8
  representation : UInt8
  bigEndian : Bool
  writerGuid : WriterGuid
  sourceSequence : Int
  now : SystemTime
deriving DecidableEq

def Incoming.raw (payload : List UInt8) (now : SystemTime) : Incoming :=
  ⟨none, payload, 1, false, .unknown, -1, now⟩

structure Service where
  store : InMemoryStore
  seq : Nat
  seen : List (WriterGuid × Int)

inductive ServiceInput where
  | start (m : TopicMeta)
  | alive (sample : Incoming)
  | lifecycle (keyHash : KeyHash) (now : SystemTime)
  | cleanup (now : SystemTime)

structure Stored where
  sample : DurabilitySample
  result : Except StoreError Unit
deriving DecidableEq

namespace Service

variable (topic : String)

def start (store : InMemoryStore) (m : TopicMeta) : Service :=
  let store := store.setTopicMeta topic m
  { store
    seq := (store.stats topic).samples
    seen := ((store.replayForTopic topic).filter fun s => 0 ≤ s.sourceSequence).map
      fun s => (s.sourceGuid, s.sourceSequence) }

def sampleFor (svc : Service) (i : Incoming) : DurabilitySample where
  topic := topic
  instanceKey := i.keyHash.getD Dcps.keylessInstanceKey
  sequence := svc.seq
  payload := i.payload
  representation := i.representation
  bigEndian := i.bigEndian
  createdAt := i.now
  sourceGuid := i.writerGuid
  sourceSequence := i.sourceSequence

def alreadySeen (svc : Service) (i : Incoming) : Bool :=
  0 ≤ i.sourceSequence && (i.writerGuid, i.sourceSequence) ∈ svc.seen

/-- The pump, for a sample: a new one gets the next number, whether the store takes it or not. -/
def ingest (svc : Service) (i : Incoming) : Service × Option Stored :=
  if svc.alreadySeen i then (svc, none)
  else
    let stored := svc.store.store (svc.sampleFor topic i)
    ({ store := stored.2
       seq := (svc.seq + 1) % 18446744073709551616
       seen := if 0 ≤ i.sourceSequence then (i.writerGuid, i.sourceSequence) :: svc.seen
         else svc.seen },
      some ⟨svc.sampleFor topic i, stored.1⟩)

def step (svc : Service) : ServiceInput → Service × Option Stored
  | .start m => (start topic svc.store m, none)
  | .alive i => svc.ingest topic i
  | .lifecycle keyHash now => ({ svc with store := svc.store.unregister topic keyHash now }, none)
  | .cleanup now => ({ svc with store := (svc.store.cleanup now).2 }, none)

end Service

/-! ### Numbers in the store -/

namespace InMemoryStore

def HoldsNumber (s : InMemoryStore) (topic : String) (n : Nat) : Prop :=
  ∃ key slot sample, (s.slots topic).get? key = some slot ∧ slot.samples.get? n = some sample

variable {s : InMemoryStore} {topic : String} {sample : DurabilitySample} {n : Nat}
  {m : SortedMap Nat DurabilitySample} {k : Nat} {slot : Slot} {held : DurabilitySample}

theorem get?_dropFirst_some (h : (m.dropFirst k).get? n = some sample) : m.get? n = some sample :=
  get?_eq_some.mpr (List.mem_of_mem_drop (get?_eq_some.mp h))

theorem get?_pushIntoSlot {slot' : Slot} {contract : Contract} {grown : Int}
    (hpush : pushIntoSlot slot sample contract = .ok (slot', grown))
    (h : slot'.samples.get? n = some held) :
    n = sample.sequence ∧ held = sample ∨ slot.samples.get? n = some held := by
  have hinserted : (slot.samples.insert sample.sequence sample).get? n = some held := by
    rcases (pushIntoSlot_ok hpush).2 with ⟨-, hsamples, -⟩ | ⟨-, hsamples⟩
    · rw [← hsamples]
      exact h
    · rw [hsamples] at h
      exact get?_dropFirst_some h
  rw [get?_insert] at hinserted
  split at hinserted
  · next heq => exact Or.inl ⟨heq, (Option.some.inj hinserted).symm⟩
  · exact Or.inr hinserted

variable {key : KeyHash}

theorem holdsNumber_putSlot (h : (s.putSlot topic key slot).HoldsNumber topic n) :
    s.HoldsNumber topic n ∨ ∃ held, slot.samples.get? n = some held := by
  obtain ⟨key', slot', held, hget, hheld⟩ := h
  rw [slots_putSlot_self, get?_insert] at hget
  split at hget
  · obtain rfl := Option.some.inj hget
    exact Or.inr ⟨held, hheld⟩
  · exact Or.inl ⟨key', slot', held, hget, hheld⟩

theorem holdsNumber_of_slot (h : (((s.slots topic).get? key).getD {}).samples.get? n = some held) :
    s.HoldsNumber topic n := by
  cases hget : (s.slots topic).get? key with
  | none =>
    rw [hget] at h
    cases h
  | some slot =>
    rw [hget] at h
    exact ⟨key, slot, held, hget, h⟩

theorem holdsNumber_store (h : (s.store sample).2.HoldsNumber sample.topic n) :
    n = sample.sequence ∨ s.HoldsNumber sample.topic n := by
  rcases s.store_cases sample with ⟨e, heq⟩ | ⟨e, -, heq⟩ | ⟨slot', grown, hpush, heq, -⟩
  · rw [heq] at h
    exact Or.inr h
  · rw [heq] at h
    rcases holdsNumber_putSlot h with h | ⟨held, h⟩
    · exact Or.inr h
    · exact Or.inr (holdsNumber_of_slot h)
  · rw [heq] at h
    rcases holdsNumber_putSlot h with h | ⟨held, h⟩
    · exact Or.inr h
    · rcases get?_pushIntoSlot hpush h with ⟨hn, -⟩ | h
      · exact Or.inl hn
      · exact Or.inr (holdsNumber_of_slot h)

variable {now : SystemTime}

theorem holdsNumber_unregister (h : (s.unregister topic key now).HoldsNumber topic n) :
    s.HoldsNumber topic n := by
  unfold unregister at h
  cases hget : (s.slots topic).get? key with
  | none =>
    simp only [hget] at h
    exact h
  | some slot =>
    simp only [hget] at h
    rcases holdsNumber_putSlot h with h | ⟨held, h⟩
    · exact h
    · exact ⟨key, slot, held, hget, h⟩

theorem holdsNumber_cleanup (h : (s.cleanup now).2.HoldsNumber topic n) :
    s.HoldsNumber topic n := by
  obtain ⟨key, slot, held, hget, hheld⟩ := h
  rw [slots_cleanup, get?_filter, Option.filter_eq_some_iff] at hget
  exact ⟨key, slot, held, hget.1, hheld⟩

theorem get?_dropFirst_of_above (hget : m.get? n = some sample)
    (habove : ∀ n' held, m.get? n' = some held → n' ≤ n) (hk : k < m.size) :
    (m.dropFirst k).get? n = some sample := by
  obtain ⟨l, hs⟩ := m
  rw [get?_eq_some] at hget ⊢
  simp only [get?_eq_some] at habove
  have hsplit := List.take_append_drop k l
  have hmem : (n, sample) ∈ l.take k ++ l.drop k := by
    rw [hsplit]
    exact hget
  rcases List.mem_append.mp hmem with hmem | hmem
  · have hne : l.drop k ≠ [] := by
      rw [Ne, List.drop_eq_nil_iff]
      exact Nat.not_le.mpr hk
    obtain ⟨e, he⟩ := List.exists_mem_of_ne_nil _ hne
    have hs' := hs
    rw [← hsplit] at hs'
    have hlt : n < e.1 := (List.pairwise_append.mp hs').2.2 _ hmem e he
    have hle : e.1 ≤ n := habove e.1 e.2 (List.mem_of_mem_drop he)
    exact absurd hlt (Nat.not_lt.mpr hle)
  · exact hmem

theorem retained_of_above (habove : ∀ n, s.HoldsNumber sample.topic n → n < sample.sequence)
    (hok : (s.store sample).1 = .ok ()) :
    ∃ slot, ((s.store sample).2.slots sample.topic).get? sample.instanceKey = some slot ∧
      slot.samples.get? sample.sequence = some sample := by
  rcases s.store_cases sample with ⟨e, heq⟩ | ⟨e, -, heq⟩ | ⟨slot', grown, hpush, heq, -⟩
  · rw [heq] at hok
    cases hok
  · rw [heq] at hok
    cases hok
  refine ⟨slot', by rw [heq, slots_putSlot_self, get?_insert_self], ?_⟩
  rcases (pushIntoSlot_ok hpush).2 with ⟨-, hsamples, -⟩ | ⟨-, hsamples⟩
  · rw [hsamples, get?_insert_self]
  · rw [hsamples]
    refine get?_dropFirst_of_above (get?_insert_self _ _ _) (fun n' held hheld => ?_) ?_
    · rw [get?_insert] at hheld
      split at hheld
      · next h => exact Nat.le_of_eq h
      · exact Nat.le_of_lt (habove n' (holdsNumber_of_slot hheld))
    · have hpos := (s.contractFor sample.topic).effectiveDepth_pos
      have hsize : 0 < ((((s.slots sample.topic).get? sample.instanceKey).getD {}).samples.insert
          sample.sequence sample).size :=
        size_pos_iff.mpr ⟨_, _, get?_insert_self _ _ _⟩
      omega

end InMemoryStore

namespace Service

variable {topic : String}

/-- A run starts with a count above the numbers in the store, and no counter comes round. -/
def CountsOn (topic : String) (svc : Service) : ServiceInput → Prop
  | .start _ => ∀ n, svc.store.HoldsNumber topic n → n < (svc.store.stats topic).samples
  | .alive _ => svc.seq + 1 < 18446744073709551616
  | _ => True

def Fresh (topic : String) (svc : Service) : Prop :=
  ∀ n, svc.store.HoldsNumber topic n → n < svc.seq

theorem fresh_step {svc : Service} {input : ServiceInput} (hok : CountsOn topic svc input)
    (hfresh : svc.Fresh topic) : (svc.step topic input).1.Fresh topic := by
  cases input with
  | start m => exact hok
  | alive i =>
    rw [step, ingest]
    split
    · exact hfresh
    · intro n hn
      have hnext : (svc.seq + 1) % 18446744073709551616 = svc.seq + 1 := Nat.mod_eq_of_lt hok
      rw [hnext]
      have hstore : n = (svc.sampleFor topic i).sequence ∨ svc.store.HoldsNumber topic n :=
        holdsNumber_store hn
      rcases hstore with rfl | hn
      · exact Nat.lt_succ_self _
      · exact Nat.lt_succ_of_lt (hfresh n hn)
  | lifecycle keyHash now => exact fun n hn => hfresh n (holdsNumber_unregister hn)
  | cleanup now => exact fun n hn => hfresh n (holdsNumber_cleanup hn)

/-- In every state of every sequence of runs, the number that a sample is stored under is above
every number the topic holds, so that no sample is replaced, and a sample that the store takes is
there after it. -/
theorem ingested_sample_fresh {store : InMemoryStore} (hempty : store.slots topic = .empty)
    {h : History ServiceInput (Option Stored)} {svc : Service}
    (hr : Reaches (step topic) (CountsOn topic) ⟨store, 0, []⟩ h svc) {i : Incoming}
    {stored : Stored} (hstored : (svc.ingest topic i).2 = some stored) :
    (∀ n, svc.store.HoldsNumber topic n → n < stored.sample.sequence) ∧
    (stored.result = .ok () →
      ∃ slot, ((svc.ingest topic i).1.store.slots topic).get? stored.sample.instanceKey =
        some slot ∧
        slot.samples.get? stored.sample.sequence = some stored.sample) := by
  have hfresh : svc.Fresh topic := by
    refine hr.invariant (P := fun _ svc => svc.Fresh topic) ?_
      fun _ _ _ hfresh hok => fresh_step hok hfresh
    rintro n ⟨key, slot, sample, hget, -⟩
    rw [hempty] at hget
    cases hget
  unfold ingest at hstored ⊢
  split at hstored
  · cases hstored
  · next hnew =>
    obtain rfl := Option.some.inj hstored
    rw [if_neg hnew]
    exact ⟨hfresh, fun hok => retained_of_above hfresh hok⟩

end Service

/-! ### A restart after an eviction -/

namespace Fixture

def keepLastOne : TopicMeta :=
  ⟨"T", true, ⟨.keepLast, 1, lengthUnlimited, lengthUnlimited, lengthUnlimited, 0⟩⟩

def noStore : InMemoryStore := .withDefaultContract keepLastOne.contract

def wireSample (key : UInt8) (n : Nat) : Incoming :=
  ⟨some (.repeated key), [n.toUInt8], 1, false, .repeated 9, n, n⟩

def evictedThenRestarted : Service :=
  (run (Service.step "t") ⟨noStore, 0, []⟩ [.start keepLastOne, .alive (wireSample 1 1),
    .alive (wireSample 1 2), .alive (wireSample 1 3), .start keepLastOne]).1

/-- The next sample gets the number 1 where 2 is held, is taken, and is not there after it. -/
theorem sample_after_restart_lost :
    let sample := evictedThenRestarted.sampleFor "t" (wireSample 1 4)
    (evictedThenRestarted.ingest "t" (wireSample 1 4)).2 = some ⟨sample, .ok ()⟩ ∧
    evictedThenRestarted.store.HoldsNumber "t" 2 ∧ ¬2 < sample.sequence ∧
    ¬∃ slot, ((evictedThenRestarted.ingest "t" (wireSample 1 4)).1.store.slots "t").get?
        sample.instanceKey = some slot ∧ slot.samples.get? sample.sequence = some sample := by
  refine ⟨by decide +kernel, ?_, by decide +kernel, ?_⟩
  · obtain ⟨held, hheld⟩ := Option.isSome_iff_exists.mp
      (show ((((evictedThenRestarted.store.slots "t").get? (.repeated 1)).getD {}).samples.get?
        2).isSome = true by decide +kernel)
    exact holdsNumber_of_slot hheld
  · rintro ⟨slot, hslot, hheld⟩
    have hnone : (((evictedThenRestarted.ingest "t" (wireSample 1 4)).1.store.slots "t").get?
        (.repeated 1)).bind (·.samples.get? 1) = none := by decide +kernel
    have hsome : (((evictedThenRestarted.ingest "t" (wireSample 1 4)).1.store.slots "t").get?
        (.repeated 1)).bind (·.samples.get? 1) = _ := (congrArg (Option.bind · _) hslot).trans hheld
    exact absurd (hnone.symm.trans hsome) (Option.some_ne_none _).symm

def restarted : List ServiceInput :=
  [.start keepLastOne, .alive (wireSample 1 1), .start keepLastOne]

/-- Without an eviction the next sample is there. -/
theorem sample_after_restart_kept :
    let svc := (run (Service.step "t") ⟨noStore, 0, []⟩ restarted).1
    ∃ slot, ((svc.ingest "t" (wireSample 1 2)).1.store.slots "t").get? (.repeated 1) = some slot ∧
      slot.samples.get? 1 = some (svc.sampleFor "t" (wireSample 1 2)) := by
  have hnothing : ∀ n, ¬noStore.HoldsNumber "t" n := by
    rintro n ⟨key, slot, sample, hget, -⟩
    cases hget
  have hfirst : Service.Fresh "t" (Service.step "t" (Service.start "t" noStore keepLastOne)
      (.alive (wireSample 1 1))).1 :=
    Service.fresh_step (by decide +kernel : 0 + 1 < 18446744073709551616)
      fun n hn => absurd hn (hnothing n)
  have hok : RunOk (Service.step "t") (Service.CountsOn "t") ⟨noStore, 0, []⟩ restarted := by
    refine ⟨fun n hn => absurd hn (hnothing n), ?_, fun n hn => ?_, trivial⟩
    · show 0 + 1 < 18446744073709551616
      decide
    · exact lt_of_lt_of_eq (hfirst n hn) (by decide +kernel)
  have hstored : ((run (Service.step "t") ⟨noStore, 0, []⟩ restarted).1.ingest "t"
      (wireSample 1 2)).2 =
        some ⟨(run (Service.step "t") ⟨noStore, 0, []⟩ restarted).1.sampleFor "t"
          (wireSample 1 2), .ok ()⟩ := by decide +kernel
  exact (Service.ingested_sample_fresh rfl (reaches_run hok) hstored).2 rfl

end Fixture

end ZeroDds.Durability
