/-
Which instances a cleanup purges.
-/
import ZeroDds.Durability.Retention

namespace ZeroDds.Durability

open Dcps (KeyHash WriterGuid HistoryKind)

/-- A call, with its reply, that unregistered the instance or stored a sample of it. -/
def Touches (topic : String) (key : KeyHash) : Call × Reply → Prop
  | (.unregister t k _, _) => t = topic ∧ k = key
  | (.store sample, r) => sample.topic = topic ∧ sample.instanceKey = key ∧ r = .done
  | _ => False

/-- The instance was last unregistered at `t`, and no sample of it was stored since. -/
def AbandonedAt (h : History Call Reply) (topic : String) (key : KeyHash) (t : SystemTime) : Prop :=
  ∃ h₁ r h₂, h = h₁ ++ (.unregister topic key t, r) :: h₂ ∧ ∀ e ∈ h₂, ¬Touches topic key e

variable {h : History Call Reply}

theorem AbandonedAt.next {topic : String} {key : KeyHash} {t : SystemTime}
    (ha : AbandonedAt h topic key t) {e : Call × Reply} (he : ¬Touches topic key e) :
    AbandonedAt (h ++ [e]) topic key t := by
  obtain ⟨h₁, r, h₂, rfl, hafter⟩ := ha
  refine ⟨h₁, r, h₂ ++ [e], by simp, fun e' he' => ?_⟩
  rcases List.mem_append.mp he' with he' | he'
  · exact hafter e' he'
  · rw [List.mem_singleton.mp he']
    exact he

theorem abandonedAt_last (h : History Call Reply) (topic : String) (key : KeyHash)
    (t : SystemTime) (r : Reply) : AbandonedAt (h ++ [(.unregister topic key t, r)]) topic key t :=
  ⟨h, r, [], rfl, fun _ he => absurd he List.not_mem_nil⟩

theorem not_abandonedAt_of_stored (sample : DurabilitySample) (t : SystemTime) :
    ¬AbandonedAt (h ++ [(.store sample, .done)]) sample.topic sample.instanceKey t := by
  rintro ⟨h₁, r, h₂, heq, hafter⟩
  have hlast := congrArg List.getLast? heq
  rw [List.getLast?_concat, List.getLast?_append_of_ne_nil _ (List.cons_ne_nil _ _),
    List.getLast?_cons] at hlast
  cases hend : h₂.getLast? with
  | none =>
    rw [hend] at hlast
    cases hlast
  | some e =>
    rw [hend, Option.getD_some] at hlast
    obtain rfl := Option.some.inj hlast
    have htouches : Touches sample.topic sample.instanceKey (.store sample, .done) :=
      ⟨rfl, rfl, rfl⟩
    exact hafter _ (List.mem_of_getLast? hend) htouches

namespace InMemoryStore

def markOf (s : InMemoryStore) (topic : String) (key : KeyHash) : Option SystemTime :=
  ((s.slots topic).get? key).bind (·.unregisteredAt)

def SparesMarked (topic : String) (key : KeyHash) (s : InMemoryStore) : Call → Prop
  | .store sample => sample.topic = topic ∧ sample.instanceKey = key → s.markOf topic key = none
  | _ => True

variable {s : InMemoryStore} {topic : String} {key : KeyHash} {sample : DurabilitySample}
  {topic' : String} {key' : KeyHash} {slot : Slot}

theorem markOf_putSlot :
    (s.putSlot topic' key' slot).markOf topic key =
      if topic = topic' ∧ key = key' then slot.unregisteredAt else s.markOf topic key := by
  unfold markOf
  rw [slots_putSlot]
  by_cases htopic : topic = topic'
  · subst htopic
    rw [if_pos rfl, SortedMap.get?_insert]
    by_cases hkey : key = key'
    · simp [hkey]
    · simp [hkey]
  · simp [htopic]

theorem markOf_store : (s.store sample).2.markOf topic key = s.markOf topic key := by
  have hput : ∀ slot' : Slot, slot'.unregisteredAt =
      (((s.slots sample.topic).get? sample.instanceKey).getD {}).unregisteredAt →
      (s.putSlot sample.topic sample.instanceKey slot').markOf topic key = s.markOf topic key := by
    intro slot' hmark
    rw [markOf_putSlot]
    split
    · next h =>
      obtain ⟨rfl, rfl⟩ := h
      rw [hmark, markOf]
      cases (s.slots sample.topic).get? sample.instanceKey <;> rfl
    · rfl
  rcases s.store_cases sample with ⟨e, h⟩ | ⟨e, -, h⟩ | ⟨slot', grown, hpush, h, -⟩
  · rw [h]
  · rw [h]
    exact hput _ rfl
  · rw [h]
    exact hput slot' (pushIntoSlot_ok hpush).1

variable {now t : SystemTime}

theorem markOf_unregister (h : (s.unregister topic' key' now).markOf topic key = some t) :
    topic = topic' ∧ key = key' ∧ t = now ∨
      ¬(topic = topic' ∧ key = key') ∧ s.markOf topic key = some t := by
  unfold unregister at h
  cases hget : (s.slots topic').get? key' with
  | none =>
    simp only [hget] at h
    refine Or.inr ⟨?_, h⟩
    rintro ⟨rfl, rfl⟩
    rw [markOf, hget] at h
    cases h
  | some slot =>
    simp only [hget] at h
    rw [markOf_putSlot] at h
    split at h
    · next heq => exact Or.inl ⟨heq.1, heq.2, (Option.some.inj h).symm⟩
    · next hne => exact Or.inr ⟨hne, h⟩

theorem markOf_cleanup (h : (s.cleanup now).2.markOf topic key = some t) :
    s.markOf topic key = some t := by
  unfold markOf at h ⊢
  rw [slots_cleanup, SortedMap.get?_filter] at h
  cases hget : (s.slots topic).get? key with
  | none => simp [hget] at h
  | some slot =>
    rw [hget, Option.filter_some] at h
    split at h
    · exact h
    · cases h

theorem abandoned_of_marked {defaultContract : Contract}
    (hr : Reaches InMemoryStore.call (SparesMarked topic key) (.withDefaultContract defaultContract)
      h s)
    (hmark : s.markOf topic key = some t) : AbandonedAt h topic key t := by
  revert t hmark
  refine hr.invariant (P := fun h s =>
    ∀ {t}, s.markOf topic key = some t → AbandonedAt h topic key t) (fun hmark => by cases hmark) ?_
  intro h s call ih hok t hmark
  cases call with
  | store sample =>
    have hold : s.markOf topic key = some t := markOf_store.symm.trans hmark
    refine (ih hold).next ?_
    rintro ⟨rfl, rfl, -⟩
    rw [hok ⟨rfl, rfl⟩] at hold
    cases hold
  | unregister topic' key' now =>
    rcases markOf_unregister hmark with ⟨rfl, rfl, rfl⟩ | ⟨hne, hold⟩
    · exact abandonedAt_last h topic key t _
    · refine (ih hold).next ?_
      rintro ⟨rfl, rfl⟩
      exact hne ⟨rfl, rfl⟩
  | cleanup now => exact (ih (markOf_cleanup hmark)).next id
  | setContract topic' contract => exact (ih hmark).next id
  | setTopicMeta topic' m => exact (ih hmark).next id
  | topicMeta topic' => exact (ih hmark).next id
  | query topic' sel => exact (ih hmark).next id
  | stats topic' => exact (ih hmark).next id
  | replayForTopic topic' => exact (ih hmark).next id

theorem marked_of_removed (hthere : (s.slots topic).get? key = some slot)
    (hgone : ((s.cleanup now).2.slots topic).get? key = none) :
    ∃ t, s.markOf topic key = some t ∧ t + (s.contractFor topic).cleanupDelay ≤ now := by
  rw [slots_cleanup, SortedMap.get?_filter, hthere, Option.filter_some] at hgone
  split at hgone
  · cases hgone
  · next hdue =>
    rw [Bool.not_eq_true', Bool.not_eq_false, isDue, Option.any_eq_true] at hdue
    obtain ⟨t, hmark, hdeadline⟩ := hdue
    rw [Option.any_eq_true] at hdeadline
    obtain ⟨deadline, hadd, hle⟩ := hdeadline
    refine ⟨t, by rw [markOf, hthere, Option.bind_some, hmark], ?_⟩
    unfold SystemTime.checkedAdd at hadd
    split at hadd
    · obtain rfl := Option.some.inj hadd
      exact of_decide_eq_true hle
    · cases hadd

/-- An instance that is not stored into while it is marked, and that a cleanup removes, was
unregistered longer ago than the delay of its contract and not written since. -/
theorem removed_was_abandoned {defaultContract : Contract} {h : History Call Reply}
    (hr : Reaches InMemoryStore.call (SparesMarked topic key) (.withDefaultContract defaultContract)
      h s)
    {slot : Slot} {now : SystemTime} (hthere : (s.slots topic).get? key = some slot)
    (hgone : ((s.cleanup now).2.slots topic).get? key = none) :
    ∃ t, AbandonedAt h topic key t ∧ t + (s.contractFor topic).cleanupDelay ≤ now := by
  obtain ⟨t, hmark, hdelay⟩ := marked_of_removed hthere hgone
  exact ⟨t, abandoned_of_marked hr hmark, hdelay⟩

end InMemoryStore

/-! ### An instance that is written again -/

namespace Fixture

def allForTen : Contract :=
  ⟨.keepAll, 0, lengthUnlimited, lengthUnlimited, lengthUnlimited, 10⟩

def returned : List Call :=
  [.store (sampleOf 1 0), .unregister "t" (.repeated 1) 0, .store (sampleOf 1 1)]

/-- The cleanup ten later takes both samples of the instance, which was not abandoned. -/
theorem returned_instance_purged :
    let r := run InMemoryStore.call (.withDefaultContract allForTen) returned
    (∃ slot, (r.1.slots "t").get? (.repeated 1) = some slot) ∧
    ((r.1.cleanup 10).2.slots "t").get? (.repeated 1) = none ∧
    ∀ t, ¬AbandonedAt r.2 "t" (.repeated 1) t := by
  refine ⟨Option.isSome_iff_exists.mp (by decide +kernel), by decide +kernel, fun t ha => ?_⟩
  exact not_abandonedAt_of_stored (h := [_, _]) (sampleOf 1 1) t ha

def departed : List Call := [.store (sampleOf 1 0), .unregister "t" (.repeated 1) 0]

theorem departed_instance_abandoned :
    ∃ t, AbandonedAt (run InMemoryStore.call (.withDefaultContract allForTen) departed).2 "t"
        (.repeated 1) t ∧ t + 10 ≤ 10 := by
  have hok : RunOk InMemoryStore.call (InMemoryStore.SparesMarked "t" (.repeated 1))
      (.withDefaultContract allForTen) departed := ⟨fun _ => rfl, trivial, trivial⟩
  obtain ⟨slot, hthere⟩ := Option.isSome_iff_exists.mp (show ((((run InMemoryStore.call
    (.withDefaultContract allForTen) departed).1.slots "t").get? (.repeated 1)).isSome = true) by
      decide +kernel)
  have hgone : (((run InMemoryStore.call (.withDefaultContract allForTen) departed).1.cleanup
      10).2.slots "t").get? (.repeated 1) = none := by decide +kernel
  exact InMemoryStore.removed_was_abandoned (reaches_run hok) hthere hgone

end Fixture

end ZeroDds.Durability
