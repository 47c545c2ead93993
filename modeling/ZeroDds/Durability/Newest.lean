/-
KEEP_LAST keeps the newest samples of an instance.
-/
import ZeroDds.Lib.Largest
import ZeroDds.Durability.Retention

namespace ZeroDds.Durability

open SortedMap

open Dcps (KeyHash WriterGuid HistoryKind)

def AmongLargest (d : Nat) (numbers : List Nat) (n : Nat) : Prop :=
  n ∈ numbers ∧ (numbers.toFinset.filter (n < ·)).card < d

theorem amongLargest_iff {d : Nat} {numbers : List Nat} {n : Nat} :
    AmongLargest d numbers n ↔ n ∈ largest d numbers.toFinset := by
  rw [mem_largest, List.mem_toFinset]
  rfl

/-- What an instance holds after the samples of `history` were stored to it: the `d` largest
distinct numbers in ascending order, each with the last sample of that number, which was among the
largest when it came. -/
structure Newest (d : Nat) (history held : List DurabilitySample) : Prop where
  ascending : (held.map (·.sequence)).Pairwise (· < ·)
  numbers : ∀ n, n ∈ held.map (·.sequence) ↔ AmongLargest d (history.map (·.sequence)) n
  last : ∀ x ∈ held, ∃ before after, history = before ++ x :: after ∧
    AmongLargest d ((before ++ [x]).map (·.sequence)) x.sequence ∧
    ∀ y ∈ after, y.sequence ≠ x.sequence

def lastOf (history : List DurabilitySample) (n : Nat) : Option DurabilitySample :=
  (history.filter fun x => x.sequence = n).getLast?

def Kept (d : Nat) (history : List DurabilitySample) (slot : Slot) : Prop :=
  ∀ n x, slot.samples.get? n = some x ↔
    n ∈ largest d (history.map (·.sequence)).toFinset ∧ lastOf history n = some x

section Instance

variable {d : Nat} {history : List DurabilitySample} {slot : Slot}
  {x y : DurabilitySample} {n : Nat}

theorem lastOf_append_self : lastOf (history ++ [x]) x.sequence = some x := by
  rw [lastOf, List.filter_append, List.filter_cons_of_pos (by simp), List.filter_nil,
    List.getLast?_concat]

theorem lastOf_append_of_ne (h : n ≠ x.sequence) :
    lastOf (history ++ [x]) n = lastOf history n := by
  have hnone : [x].filter (fun x => decide (x.sequence = n)) = [] := by
    simpa using Ne.symm h
  rw [lastOf, lastOf, List.filter_append, hnone, List.append_nil]

theorem sequence_of_lastOf (h : lastOf history n = some x) : x.sequence = n := by
  have hmem := List.mem_of_getLast? h
  simpa using (List.mem_filter.mp hmem).2

theorem exists_lastOf (h : n ∈ history.map (·.sequence)) : ∃ x, lastOf history n = some x := by
  obtain ⟨x, hx, hn⟩ := List.mem_map.mp h
  have hmem : x ∈ history.filter fun x => x.sequence = n :=
    List.mem_filter.mpr ⟨hx, by simpa using hn⟩
  exact Option.ne_none_iff_exists'.mp (by simpa [lastOf] using List.ne_nil_of_mem hmem)

theorem split_lastOf (h : lastOf history n = some x) :
    ∃ before after, history = before ++ x :: after ∧ ∀ y ∈ after, y.sequence ≠ n := by
  induction history using List.reverseRecOn with
  | nil => cases h
  | append_singleton history y ih =>
    by_cases hy : n = y.sequence
    · subst hy
      rw [lastOf_append_self] at h
      cases h
      exact ⟨history, [], rfl, fun z hz => absurd hz (List.not_mem_nil)⟩
    · rw [lastOf_append_of_ne hy] at h
      obtain ⟨before, after, rfl, hafter⟩ := ih h
      refine ⟨before, after ++ [y], by rw [List.append_assoc, List.cons_append], fun z hz => ?_⟩
      rcases List.mem_append.mp hz with hz | hz
      · exact hafter z hz
      · rw [List.mem_singleton.mp hz]
        exact Ne.symm hy

theorem kept_empty : Kept d [] {} := by
  intro n x
  constructor
  · intro h
    cases h
  · rintro ⟨-, h⟩
    cases h

theorem Kept.keys (h : Kept d history slot) :
    slot.samples.keys.toFinset = largest d (history.map (·.sequence)).toFinset := by
  ext n
  rw [List.mem_toFinset, mem_keys]
  constructor
  · rintro ⟨x, hx⟩
    exact ((h n x).mp hx).1
  · intro hn
    obtain ⟨x, hx⟩ := exists_lastOf (List.mem_toFinset.mp (largest_subset hn))
    exact ⟨x, (h n x).mpr ⟨hn, hx⟩⟩

theorem Kept.push (h : Kept d history slot) (mark : Option SystemTime) :
    Kept d (history ++ [x]) ⟨(slot.samples.insert x.sequence x).dropFirst
      ((slot.samples.insert x.sequence x).size - d), mark⟩ := by
  have hkeys : (slot.samples.insert x.sequence x).keys.toFinset =
      insert x.sequence (largest d (history.map (·.sequence)).toFinset) := by
    rw [← h.keys]
    ext n
    rw [List.mem_toFinset, mem_keys, Finset.mem_insert, List.mem_toFinset,
      mem_keys]
    simp only [get?_insert]
    by_cases hn : n = x.sequence <;> simp [hn]
  have hnumbers : ((history ++ [x]).map (·.sequence)).toFinset =
      insert x.sequence (history.map (·.sequence)).toFinset := by
    simp
  intro n y
  rw [get?_trim, hkeys, largest_insert, hnumbers, and_comm, get?_insert]
  refine and_congr_right fun hlargest => ?_
  by_cases hn : n = x.sequence
  · rw [if_pos hn, hn, lastOf_append_self]
  · rw [if_neg hn, lastOf_append_of_ne hn, h n y]
    refine and_iff_right ?_
    rw [← largest_insert] at hlargest
    exact (Finset.mem_insert.mp (largest_subset hlargest)).resolve_left hn

theorem amongLargest_of_append {numbers more : List Nat} (hmem : n ∈ numbers)
    (h : AmongLargest d (numbers ++ more) n) : AmongLargest d numbers n := by
  refine ⟨hmem, lt_of_le_of_lt (Finset.card_le_card ?_) h.2⟩
  refine Finset.filter_subset_filter _ fun k hk => ?_
  rw [List.mem_toFinset] at hk ⊢
  exact List.mem_append_left _ hk

theorem Kept.newest (h : Kept d history slot) : Newest d history slot.samples.values := by
  have hsequence : ∀ n x, slot.samples.get? n = some x → x.sequence = n :=
    fun n x hx => sequence_of_lastOf ((h n x).mp hx).2
  have hkeys : slot.samples.values.map (·.sequence) = slot.samples.keys := by
    rw [SortedMap.values, SortedMap.keys, List.map_map]
    refine List.map_congr_left ?_
    rintro ⟨n, x⟩ he
    exact hsequence n x (get?_eq_some.mpr he)
  have hnumbers : ∀ n, n ∈ slot.samples.values.map (·.sequence) ↔
      AmongLargest d (history.map (·.sequence)) n := by
    intro n
    rw [hkeys, amongLargest_iff, ← h.keys, List.mem_toFinset]
  refine ⟨?_, hnumbers, fun x hx => ?_⟩
  · rw [hkeys]
    exact slot.samples.keys_sorted
  · have hlargest := (hnumbers x.sequence).mp (List.mem_map_of_mem hx)
    obtain ⟨n, hn⟩ := mem_values.mp hx
    obtain rfl := hsequence n x hn
    obtain ⟨before, after, rfl, hafter⟩ := split_lastOf ((h _ x).mp hn).2
    refine ⟨before, after, rfl, ?_, hafter⟩
    have hsplit : (before ++ x :: after).map (·.sequence) =
        (before ++ [x]).map (·.sequence) ++ after.map (·.sequence) := by
      simp
    rw [hsplit] at hlargest
    exact amongLargest_of_append (by simp) hlargest

end Instance

namespace InMemoryStore

def storeAll (s : InMemoryStore) (samples : List DurabilitySample) : InMemoryStore :=
  samples.foldl (fun s x => (s.store x).2) s

def held (s : InMemoryStore) (topic : String) (key : KeyHash) : List DurabilitySample :=
  (((s.slots topic).get? key).getD {}).samples.values

def sentTo (topic : String) (key : KeyHash) (samples : List DurabilitySample) :
    List DurabilitySample :=
  samples.filter fun x => x.topic = topic ∧ x.instanceKey = key

variable {s : InMemoryStore} {topic : String} {key : KeyHash} {x : DurabilitySample}

theorem get?_slots_store (h : ¬(topic = x.topic ∧ key = x.instanceKey)) :
    ((s.store x).2.slots topic).get? key = (s.slots topic).get? key := by
  have hput : ∀ slot, ((s.putSlot x.topic x.instanceKey slot).slots topic).get? key =
      (s.slots topic).get? key := by
    intro slot
    rw [slots_putSlot]
    split
    · next htopic =>
      rw [get?_insert, if_neg fun hkey => h ⟨htopic, hkey⟩, htopic]
    · rfl
  rcases store_cases s x with ⟨e, heq⟩ | ⟨e, -, heq⟩ | ⟨slot', grown, -, heq, -⟩
  · rw [heq]
  · rw [heq]
    exact hput _
  · rw [heq]
    exact hput _

theorem store_keepLast (hkind : (s.contractFor x.topic).historyKind = .keepLast)
    (hinstances : (s.contractFor x.topic).maxInstances = lengthUnlimited) :
    ∃ slot', (pushIntoSlot (((s.slots x.topic).get? x.instanceKey).getD {}) x
        (s.contractFor x.topic)).map Prod.fst = .ok slot' ∧
      s.store x = (.ok (), s.putSlot x.topic x.instanceKey slot') := by
  have hbounded : (s.contractFor x.topic).instancesBounded = false := by
    simp [Contract.instancesBounded, hinstances]
  unfold store
  simp only [hkind, hbounded, Bool.and_false, Bool.false_and, Bool.false_eq_true, if_false,
    pushIntoSlot, reduceCtorEq, decide_false]
  exact ⟨_, rfl, rfl⟩

variable {samples : List DurabilitySample}

theorem contractFor_storeAll : (s.storeAll samples).contractFor topic = s.contractFor topic := by
  induction samples generalizing s with
  | nil => rfl
  | cons x samples ih =>
    show ((s.store x).2.storeAll samples).contractFor topic = _
    rw [ih, contractFor_store]

theorem storeAll_append (more : List DurabilitySample) :
    s.storeAll (samples ++ more) = (s.storeAll samples).storeAll more := List.foldl_append

theorem kept_storeAll (hempty : s.slots topic = .empty)
    (hkind : (s.contractFor topic).historyKind = .keepLast)
    (hinstances : (s.contractFor topic).maxInstances = lengthUnlimited) (key : KeyHash) :
    Kept (s.contractFor topic).effectiveDepth (sentTo topic key samples)
      ((((s.storeAll samples).slots topic).get? key).getD {}) := by
  induction samples using List.reverseRecOn with
  | nil =>
    show Kept _ [] (((s.slots topic).get? key).getD {})
    rw [hempty]
    exact kept_empty
  | append_singleton samples x ih =>
    have hstore : s.storeAll (samples ++ [x]) = ((s.storeAll samples).store x).2 :=
      storeAll_append _
    rw [hstore]
    by_cases hto : x.topic = topic ∧ x.instanceKey = key
    · have hsent : sentTo topic key (samples ++ [x]) = sentTo topic key samples ++ [x] := by
        simp [sentTo, hto]
      obtain ⟨rfl, rfl⟩ := hto
      have hcontract : (s.storeAll samples).contractFor x.topic = s.contractFor x.topic :=
        contractFor_storeAll
      obtain ⟨slot', hpush, heq⟩ := store_keepLast (hcontract ▸ hkind) (hcontract ▸ hinstances)
      rw [hsent, heq, slots_putSlot_self, get?_insert_self, Option.getD_some]
      simp only [pushIntoSlot, hcontract, hkind, Except.map, Except.ok.injEq] at hpush
      rw [← hpush]
      exact ih.push _
    · have hsent : sentTo topic key (samples ++ [x]) = sentTo topic key samples := by
        simp [sentTo, hto]
      rw [hsent, get?_slots_store fun h => hto ⟨h.1.symm, h.2.symm⟩]
      exact ih

/-- Under an unchanged KEEP_LAST contract with no cap on the instances every store is taken, each
instance holds the newest of the samples that were stored to it, and no store to one instance
changes another. -/
theorem keepLast_keeps_newest (s : InMemoryStore) (topic : String)
    (samples : List DurabilitySample) (hempty : s.slots topic = .empty)
    (hkind : (s.contractFor topic).historyKind = .keepLast)
    (hinstances : (s.contractFor topic).maxInstances = lengthUnlimited) :
    (∀ key, Newest (s.contractFor topic).effectiveDepth (sentTo topic key samples)
      ((s.storeAll samples).held topic key)) ∧
    (∀ x, x.topic = topic → ((s.storeAll samples).store x).1 = .ok ()) ∧
    ∀ x topic' key, ¬(topic' = x.topic ∧ key = x.instanceKey) →
      (((s.storeAll samples).store x).2.slots topic').get? key =
        ((s.storeAll samples).slots topic').get? key := by
  refine ⟨fun key => (kept_storeAll hempty hkind hinstances key).newest, ?_, ?_⟩
  · rintro x rfl
    have hcontract : (s.storeAll samples).contractFor x.topic = s.contractFor x.topic :=
      contractFor_storeAll
    obtain ⟨slot', -, heq⟩ := store_keepLast (hcontract ▸ hkind) (hcontract ▸ hinstances)
    rw [heq]
  · intro x topic' key h
    exact get?_slots_store h

end InMemoryStore

namespace Fixture

open InMemoryStore

def lastTwo : Contract := ⟨.keepLast, 2, lengthUnlimited, lengthUnlimited, lengthUnlimited, 0⟩

def outOfOrder : List DurabilitySample :=
  [sampleOf 1 5, sampleOf 1 7, sampleOf 2 1, sampleOf 1 3, sampleOf 1 7, sampleOf 1 6]

theorem keepLast_keeps_newest_out_of_order :
    (((withDefaultContract lastTwo).storeAll outOfOrder).held "t" (sampleOf 1 0).instanceKey).map
        (·.sequence) = [6, 7] ∧
      Newest 2 (sentTo "t" (sampleOf 1 0).instanceKey outOfOrder)
        (((withDefaultContract lastTwo).storeAll outOfOrder).held "t"
          (sampleOf 1 0).instanceKey) := by
  refine ⟨by decide +kernel, ?_⟩
  exact (keepLast_keeps_newest (withDefaultContract lastTwo) "t" outOfOrder rfl rfl rfl).1
    (sampleOf 1 0).instanceKey

end Fixture

end ZeroDds.Durability
