/-
A cache in memory over a store.
-/
import ZeroDds.Durability.Newest
import ZeroDds.Durability.Replay

namespace ZeroDds.Durability

open Dcps (KeyHash WriterGuid HistoryKind)

/-! ### The cache of a topic -/

abbrev HotKey := Nat ×ₗ KeyHash

def DurabilitySample.hotKey (x : DurabilitySample) : HotKey := toLex (x.sequence, x.instanceKey)

structure HotTopic where
  samples : SortedMap HotKey DurabilitySample := .empty
  bytes : Nat := 0

def weight (m : SortedMap HotKey DurabilitySample) : Nat :=
  (m.values.map (·.payload.length)).sum

namespace HotTopic

def shrink (budget : Nat) : Nat → HotTopic → HotTopic
  | 0, t => t
  | fuel + 1, t =>
    if t.bytes > budget then
      match t.samples.first? with
      | none => t
      | some (k, removed) =>
        let t' : HotTopic := ⟨t.samples.erase k, t.bytes - removed.payload.length⟩
        if t'.samples.size ≤ 1 then t' else shrink budget fuel t'
    else t

def insert (t : HotTopic) (sample : DurabilitySample) : HotTopic :=
  let bytes :=
    match t.samples.get? sample.hotKey with
    | some old => t.bytes - old.payload.length
    | none => t.bytes
  ⟨t.samples.insert sample.hotKey sample, bytes + sample.payload.length⟩

def remove (t : HotTopic) (k : HotKey) : HotTopic :=
  match t.samples.get? k with
  | some removed => ⟨t.samples.erase k, t.bytes - removed.payload.length⟩
  | none => t

end HotTopic

structure TieredStore where
  cold : InMemoryStore
  hot : SortedMap String HotTopic
  budgetBytes : Nat

namespace TieredStore

def new (cold : InMemoryStore) (budgetBytes : Nat) : TieredStore := ⟨cold, .empty, budgetBytes⟩

variable (s : TieredStore)

def hotOf (topic : String) : HotTopic := (s.hot.get? topic).getD {}

def cache (sample : DurabilitySample) : TieredStore :=
  if s.budgetBytes = 0 then s
  else
    let t := (s.hotOf sample.topic).insert sample
    { s with hot := s.hot.insert sample.topic (t.shrink s.budgetBytes t.samples.size) }

def recent (topic : String) (sel : Selector) : List DurabilitySample :=
  ((s.hotOf topic).samples.values.filter sel.accepts).insertionSort fun a b => a.cursor.le b.cursor

def hotBytes (topic : String) : Nat := (s.hotOf topic).bytes

def store (sample : DurabilitySample) : Except StoreError Unit × TieredStore :=
  match s.cold.store sample with
  | (.error e, cold) => (.error e, { s with cold })
  | (.ok (), cold) => (.ok (), ({ s with cold } : TieredStore).cache sample)

def query (topic : String) (sel : Selector) : Page := s.cold.query topic sel

def unregister (topic : String) (key : KeyHash) (now : SystemTime) : TieredStore :=
  let cold := s.cold.unregister topic key now
  match s.hot.get? topic with
  | none => { s with cold }
  | some t =>
    let drop := t.samples.keys.filter fun k => (ofLex k).2 = key
    { s with cold, hot := s.hot.insert topic (drop.foldl HotTopic.remove t) }

def call : Call → TieredStore × Reply
  | .store sample => ((s.store sample).2, .ofResult (s.store sample).1)
  | .unregister topic key now => (s.unregister topic key now, .done)
  | c => ({ s with cold := (s.cold.call c).1 }, (s.cold.call c).2)

end TieredStore

variable {m : SortedMap HotKey DurabilitySample}
  {e : HotKey × DurabilitySample} {k : HotKey} {x : DurabilitySample}

theorem SortedMap.erase_first (h : m.first? = some e) : m.erase e.1 = m.dropFirst 1 := by
  obtain ⟨entries, sorted⟩ := m
  cases entries with
  | nil => cases h
  | cons a rest =>
    cases h
    have hrest : (e :: rest).filter (fun e' => decide (e'.1 ≠ e.1)) = rest := by
      rw [List.filter_cons_of_neg (by simp)]
      refine List.filter_eq_self.mpr fun b hb => ?_
      exact decide_eq_true ((List.pairwise_cons.mp sorted).1 b hb).ne'
    simp only [SortedMap.erase, SortedMap.filter, SortedMap.dropFirst, hrest, List.drop_one,
      List.tail_cons]

theorem weight_first (h : m.first? = some e) :
    weight m = e.2.payload.length + weight (m.dropFirst 1) := by
  obtain ⟨entries, sorted⟩ := m
  cases entries with
  | nil => cases h
  | cons a rest =>
    cases h
    rfl

theorem weight_of_size_zero (h : m.size = 0) : weight m = 0 := by
  have hnil : m.entries = [] := List.eq_nil_of_length_eq_zero h
  rw [weight, SortedMap.values, hnil]
  rfl

theorem weight_erase (h : m.get? k = some x) :
    weight m = weight (m.erase k) + x.payload.length := by
  have hsum := SortedMap.sum_values_insert (m.erase k) (·.payload.length) k x
  rw [SortedMap.insert_erase_of_some h, SortedMap.get?_erase_self, Option.map_none,
    Option.getD_none, Nat.add_zero] at hsum
  exact hsum

namespace HotTopic

variable {t : HotTopic} {budget fuel : Nat} {x : DurabilitySample} {k : HotKey}

theorem shrink_spec (hfuel : t.samples.size ≤ fuel) (hbytes : t.bytes = weight t.samples) :
    ∃ j, (t.shrink budget fuel).samples = t.samples.dropFirst j ∧
      (t.shrink budget fuel).bytes = weight (t.shrink budget fuel).samples ∧
      ((t.shrink budget fuel).bytes ≤ budget ∨
        1 ≤ j ∧ (t.shrink budget fuel).samples.size = 1) ∧
      ((t.shrink budget fuel).samples.size = 0 →
        t.samples.size = 0 ∨ t.samples.size = 1 ∧ budget < t.bytes) := by
  induction fuel generalizing t with
  | zero =>
    have hsize : t.samples.size = 0 := Nat.le_zero.mp hfuel
    refine ⟨0, rfl, hbytes, .inl ?_, fun _ => .inl hsize⟩
    show t.bytes ≤ budget
    rw [hbytes, weight_of_size_zero hsize]
    exact Nat.zero_le _
  | succ fuel ih =>
    rw [shrink]
    split
    · next hover =>
      cases hfirst : t.samples.first? with
      | none =>
        have hsize : t.samples.size = 0 :=
          List.length_eq_zero_iff.mpr (List.head?_eq_none_iff.mp hfirst)
        rw [hbytes, weight_of_size_zero hsize] at hover
        exact absurd hover (Nat.not_lt_zero _)
      | some e =>
        obtain ⟨k, removed⟩ := e
        have herase := SortedMap.erase_first hfirst
        have hweight := weight_first hfirst
        have hpos : 0 < t.samples.size := by
          refine List.length_pos_iff.mpr fun hnil => ?_
          rw [SortedMap.first?, hnil] at hfirst
          cases hfirst
        have hsize : (t.samples.erase k).size = t.samples.size - 1 := by
          rw [herase]
          exact SortedMap.size_dropFirst _ _
        have hbytes' : t.bytes - removed.payload.length = weight (t.samples.erase k) := by
          rw [hbytes, hweight, herase]
          exact Nat.add_sub_cancel_left ..
        simp only
        split
        · next hlast =>
          refine ⟨1, herase, hbytes', ?_, fun hzero => ?_⟩
          · by_cases hzero : (t.samples.erase k).size = 0
            · left
              rw [hbytes', weight_of_size_zero hzero]
              exact Nat.zero_le _
            · right
              exact ⟨Nat.le_refl 1, show (t.samples.erase k).size = 1 by omega⟩
          · have hnone : (t.samples.erase k).size = 0 := hzero
            exact .inr ⟨by omega, hover⟩
        · next hmore =>
          obtain ⟨j, hsamples, hweight', hbound, hempty⟩ :=
            ih (t := ⟨t.samples.erase k, t.bytes - removed.payload.length⟩)
              (show (t.samples.erase k).size ≤ fuel by omega) hbytes'
          refine ⟨1 + j, ?_, hweight', ?_, fun hzero => ?_⟩
          · rw [hsamples]
            rw [herase]
            simp only [SortedMap.dropFirst, List.drop_drop]
          · rcases hbound with hle | ⟨-, hone⟩
            · exact .inl hle
            · exact .inr ⟨by omega, hone⟩
          · have hfew : (t.samples.erase k).size = 0 ∨
                (t.samples.erase k).size = 1 ∧ _ := hempty hzero
            omega
    · next hwithin => exact ⟨0, rfl, hbytes, .inl (Nat.not_lt.mp hwithin), fun hzero => .inl hzero⟩

theorem insert_bytes (hbytes : t.bytes = weight t.samples) :
    (t.insert x).bytes = weight (t.insert x).samples := by
  have hsum := SortedMap.sum_values_insert t.samples (·.payload.length) x.hotKey x
  show _ + x.payload.length = weight (t.samples.insert x.hotKey x)
  unfold weight at hbytes ⊢
  cases hget : t.samples.get? x.hotKey with
  | none =>
    rw [hget] at hsum
    simp only [Option.map_none, Option.getD_none] at hsum ⊢
    omega
  | some old =>
    rw [hget] at hsum
    simp only [Option.map_some, Option.getD_some] at hsum ⊢
    have hold := weight_erase hget
    unfold weight at hold
    omega

structure Less (t' t : HotTopic) : Prop where
  mem : ∀ k x, t'.samples.get? k = some x → t.samples.get? k = some x
  bytes : t'.bytes = weight t'.samples
  size : t'.samples.size ≤ t.samples.size
  le : t'.bytes ≤ t.bytes

theorem less_refl (hbytes : t.bytes = weight t.samples) : Less t t :=
  ⟨fun _ _ h => h, hbytes, Nat.le_refl _, Nat.le_refl _⟩

theorem less_remove (hbytes : t.bytes = weight t.samples) (k : HotKey) : Less (t.remove k) t := by
  unfold remove
  split
  · next removed hget =>
    have hsum := weight_erase hget
    refine ⟨fun k' x hx => ?_, ?_, (SortedMap.size_erase_lt hget).le, Nat.sub_le _ _⟩
    · rw [SortedMap.get?_erase] at hx
      split at hx
      · cases hx
      · exact hx
    · show t.bytes - removed.payload.length = weight (t.samples.erase k)
      omega
  · exact less_refl hbytes

theorem less_foldl_remove (hbytes : t.bytes = weight t.samples) (ks : List HotKey) :
    Less (ks.foldl remove t) t := by
  induction ks generalizing t with
  | nil => exact less_refl hbytes
  | cons k ks ih =>
    have hfirst := less_remove hbytes k
    have hrest := ih hfirst.bytes
    exact ⟨fun k' x hx => hfirst.mem k' x (hrest.mem k' x hx), hrest.bytes,
      hrest.size.trans hfirst.size, hrest.le.trans hfirst.le⟩

end HotTopic

/-! ### What stays cached -/

def weightFrom (m : SortedMap HotKey DurabilitySample) (k : HotKey) : Nat :=
  weight (m.filter fun k' _ => decide (k ≤ k'))

/-- From the key on the samples are within the budget, or it is the last of several. -/
def StaysHot (budget : Nat) (m : SortedMap HotKey DurabilitySample) (k : HotKey) : Prop :=
  weightFrom m k ≤ budget ∨ 2 ≤ m.size ∧ ∀ k' ∈ m.keys, k' ≤ k

section Shrunk

variable {m : SortedMap HotKey DurabilitySample} {j : Nat} {k : HotKey} {x : DurabilitySample}
  (h : (m.dropFirst j).get? k = some x)

include h

theorem get?_of_dropFirst : m.get? k = some x :=
  SortedMap.get?_eq_some.mpr (List.mem_of_mem_drop (SortedMap.get?_eq_some.mp h))

theorem lt_of_mem_take (he : e ∈ m.entries.take j) : e.1 < k := by
  have hsorted := m.sorted
  rw [← List.take_append_drop j m.entries] at hsorted
  exact (List.pairwise_append.mp hsorted).2.2 e he _ (SortedMap.get?_eq_some.mp h)

theorem weightFrom_le : weightFrom m k ≤ weight (m.dropFirst j) := by
  have hsame : m.entries.filter (fun e => decide (k ≤ e.1)) =
      (m.entries.drop j).filter fun e => decide (k ≤ e.1) := by
    conv_lhs => rw [← List.take_append_drop j m.entries]
    rw [List.filter_append, List.filter_eq_nil_iff.mpr, List.nil_append]
    intro e he
    simpa using lt_of_mem_take h he
  have hle := SortedMap.sum_values_filter_le (m.dropFirst j) (·.payload.length)
    (fun k' _ => decide (k ≤ k'))
  refine le_trans (le_of_eq ?_) hle
  show ((List.map Prod.snd (m.entries.filter fun e => decide (k ≤ e.1))).map _).sum = _
  rw [hsame]
  rfl

theorem le_of_one_left (hone : (m.dropFirst j).size = 1) : ∀ k' ∈ m.keys, k' ≤ k := by
  intro k' hk'
  obtain ⟨e, he, rfl⟩ := List.mem_map.mp hk'
  rw [← List.take_append_drop j m.entries, List.mem_append] at he
  rcases he with he | he
  · exact (lt_of_mem_take h he).le
  · obtain ⟨only, honly⟩ := List.length_eq_one_iff.mp hone
    have hk : (k, x) ∈ m.entries.drop j := SortedMap.get?_eq_some.mp h
    have hlist : m.entries.drop j = [only] := honly
    rw [hlist, List.mem_singleton] at he hk
    rw [he, ← hk]

end Shrunk

theorem HotTopic.staysHot_of_shrink {t : HotTopic} {budget : Nat}
    (hbytes : t.bytes = weight t.samples)
    (h : (t.shrink budget t.samples.size).samples.get? k = some x) :
    t.samples.get? k = some x ∧ StaysHot budget t.samples k := by
  obtain ⟨j, hsamples, hweight, hbound, -⟩ := @shrink_spec t budget _ (Nat.le_refl _) hbytes
  rw [hsamples] at h hweight
  refine ⟨get?_of_dropFirst h, ?_⟩
  rcases hbound with hle | ⟨hj, hone⟩
  · rw [hweight] at hle
    exact .inl ((weightFrom_le h).trans hle)
  · rw [hsamples] at hone
    refine .inr ⟨?_, le_of_one_left h hone⟩
    rw [SortedMap.size_dropFirst] at hone
    omega

namespace TieredStore

variable {s : TieredStore} {x : DurabilitySample} {topic : String} {key : KeyHash}

def coldNumbers (s : TieredStore) (x : DurabilitySample) : List Nat :=
  ((((s.cold.slots x.topic).get? x.instanceKey).getD {}).samples.insert x.sequence x).keys

/-- Under KEEP_LAST a number of the instance goes from the cold store and stays cached. -/
def EvictsHot (s : TieredStore) (x : DurabilitySample) : Prop :=
  (s.cold.contractFor x.topic).historyKind = .keepLast ∧
    ∃ n ∈ s.coldNumbers x,
      ¬AmongLargest (s.cold.contractFor x.topic).effectiveDepth (s.coldNumbers x) n ∧
      toLex (n, x.instanceKey) ∈ ((s.hotOf x.topic).samples.insert x.hotKey x).keys ∧
      StaysHot s.budgetBytes ((s.hotOf x.topic).samples.insert x.hotKey x)
        (toLex (n, x.instanceKey))

def Oversized (s : TieredStore) (x : DurabilitySample) : Prop :=
  s.budgetBytes < x.payload.length ∧ ∀ k ∈ (s.hotOf x.topic).samples.keys, k = x.hotKey

instance (d : Nat) (numbers : List Nat) (n : Nat) : Decidable (AmongLargest d numbers n) :=
  inferInstanceAs (Decidable (_ ∧ _))

instance (budget : Nat) (m : SortedMap HotKey DurabilitySample) (k : HotKey) :
    Decidable (StaysHot budget m k) :=
  inferInstanceAs (Decidable (_ ∨ _))

instance : Decidable (EvictsHot s x) := inferInstanceAs (Decidable (_ ∧ _))

instance : Decidable (Oversized s x) := inferInstanceAs (Decidable (_ ∧ _))

/-- Nothing cached goes from the cold store, and no sample that it accepts is too large for the
cache. -/
def KeepsHot (s : TieredStore) : Call → Prop
  | .store x => (s.cold.store x).1 = .ok () → ¬EvictsHot s x ∧ ¬Oversized s x
  | .cleanup now => ∀ topic k slot, k ∈ (s.hotOf topic).samples.keys →
      (s.cold.slots topic).get? (ofLex k).2 = some slot → s.cold.isDue topic now slot = false
  | _ => True

/-- The cached samples are in the cold store, counted, and within the budget but for one. -/
structure Faithful (s : TieredStore) : Prop where
  enabled : 0 < s.budgetBytes
  filed : ∀ topic, s.cold.Filed topic
  held : ∀ topic n key x, (s.hotOf topic).samples.get? (toLex (n, key)) = some x →
    ∃ slot, (s.cold.slots topic).get? key = some slot ∧ slot.samples.get? n = some x
  bytes : ∀ topic, (s.hotOf topic).bytes = weight (s.hotOf topic).samples
  budget : ∀ topic, s.budgetBytes < (s.hotOf topic).bytes → (s.hotOf topic).samples.size = 1

variable {t : HotTopic}

theorem hotOf_insert {topic' : String} :
    ({ s with hot := s.hot.insert topic t } : TieredStore).hotOf topic' =
      if topic' = topic then t else s.hotOf topic' := by
  simp only [hotOf, SortedMap.get?_insert]
  split <;> rfl

theorem faithful_new {cold : InMemoryStore} {budget : Nat} (hbudget : 0 < budget)
    (hfiled : ∀ topic, cold.Filed topic) : (new cold budget).Faithful where
  enabled := hbudget
  filed := hfiled
  held topic n key x h := by cases h
  bytes topic := rfl
  budget topic h := absurd h (Nat.not_lt_zero _)

theorem Faithful.cold (h : s.Faithful) {cold : InMemoryStore} (hfiled : ∀ topic, cold.Filed topic)
    (hslots : ∀ topic key slot n x, (s.hotOf topic).samples.get? (toLex (n, key)) = some x →
      (s.cold.slots topic).get? key = some slot → slot.samples.get? n = some x →
      ∃ slot', (cold.slots topic).get? key = some slot' ∧ slot'.samples.get? n = some x) :
    ({ s with cold } : TieredStore).Faithful where
  enabled := h.enabled
  filed := hfiled
  held topic n key x hx := by
    obtain ⟨slot, hslot, hheld⟩ := h.held topic n key x hx
    exact hslots topic key slot n x hx hslot hheld
  bytes := h.bytes
  budget := h.budget

theorem Faithful.less (h : s.Faithful) (hless : t.Less (s.hotOf topic)) :
    ({ s with hot := s.hot.insert topic t } : TieredStore).Faithful where
  enabled := h.enabled
  filed := h.filed
  held topic' n key x hx := by
    rw [hotOf_insert] at hx
    split at hx
    · next htopic =>
      rw [htopic]
      exact h.held topic n key x (hless.mem _ x hx)
    · exact h.held topic' n key x hx
  bytes topic' := by
    rw [hotOf_insert]
    split
    · exact hless.bytes
    · exact h.bytes topic'
  budget topic' hover := by
    rw [hotOf_insert] at hover ⊢
    split at hover
    · next htopic =>
      rw [if_pos htopic]
      have hone := h.budget topic (lt_of_lt_of_le hover hless.le)
      have hsize := hless.size
      have hpos : t.samples.size ≠ 0 := by
        intro hzero
        rw [hless.bytes, weight_of_size_zero hzero] at hover
        exact Nat.not_lt_zero _ hover
      omega
    · next htopic =>
      rw [if_neg htopic]
      exact h.budget topic' hover

theorem exists_slot_of_store {cold : InMemoryStore} (hstore : s.cold.store x = (.ok (), cold)) :
    ∃ slot', (cold.slots x.topic).get? x.instanceKey = some slot' ∧
      ∀ n y, ((((s.cold.slots x.topic).get? x.instanceKey).getD {}).samples.insert
          x.sequence x).get? n = some y →
        ((s.cold.contractFor x.topic).historyKind = .keepLast →
          AmongLargest (s.cold.contractFor x.topic).effectiveDepth (s.coldNumbers x) n) →
        slot'.samples.get? n = some y := by
  rcases s.cold.store_cases x with ⟨e, heq⟩ | ⟨e, -, heq⟩ | ⟨slot', grown, hpush, heq, -⟩
  · rw [heq] at hstore
    cases hstore
  · rw [heq] at hstore
    cases hstore
  · rw [heq] at hstore
    cases hstore
    refine ⟨slot', ?_, fun n y hy hkept => ?_⟩
    · rw [InMemoryStore.slots_putSlot_self, SortedMap.get?_insert_self]
    · obtain ⟨-, ⟨-, hsamples, -⟩ | ⟨hkind, hsamples⟩⟩ := pushIntoSlot_ok hpush
      · rw [hsamples]
        exact hy
      · rw [hsamples, SortedMap.get?_trim]
        exact ⟨hy, amongLargest_iff.mp (hkept hkind)⟩

variable {n : Nat} {y : DurabilitySample}

theorem hotKey_inj (h : toLex (n, key) = x.hotKey) : n = x.sequence ∧ key = x.instanceKey := by
  have hpair : (n, key) = (x.sequence, x.instanceKey) := toLex.injective h
  exact Prod.mk.inj hpair

theorem held_of_insert
    (h : ((s.hotOf x.topic).samples.insert x.hotKey x).get? (toLex (n, key)) = some y) :
    n = x.sequence ∧ key = x.instanceKey ∧ y = x ∨
      toLex (n, key) ≠ x.hotKey ∧ (s.hotOf x.topic).samples.get? (toLex (n, key)) = some y := by
  rw [SortedMap.get?_insert] at h
  split at h
  · next hkey =>
    cases h
    obtain ⟨hn, hk⟩ := hotKey_inj hkey
    exact .inl ⟨hn, hk, rfl⟩
  · next hkey => exact .inr ⟨hkey, h⟩

theorem Faithful.held_store (h : s.Faithful) {cold : InMemoryStore}
    (hstore : s.cold.store x = (.ok (), cold)) (hevicts : ¬EvictsHot s x)
    (hy : ((s.hotOf x.topic).samples.insert x.hotKey x).get? (toLex (n, key)) = some y)
    (hstays : StaysHot s.budgetBytes ((s.hotOf x.topic).samples.insert x.hotKey x)
      (toLex (n, key))) :
    ∃ slot, (cold.slots x.topic).get? key = some slot ∧ slot.samples.get? n = some y := by
  have hcold : cold = (s.cold.store x).2 := by rw [hstore]
  by_cases hkey : key = x.instanceKey
  · subst hkey
    obtain ⟨slot', hslot', hkept⟩ := exists_slot_of_store hstore
    have hinserted : ((((s.cold.slots x.topic).get? x.instanceKey).getD {}).samples.insert
        x.sequence x).get? n = some y := by
      rw [SortedMap.get?_insert]
      rcases held_of_insert hy with ⟨hn, -, rfl⟩ | ⟨hne, hold⟩
      · rw [if_pos hn]
      · have hn : n ≠ x.sequence := by
          rintro rfl
          exact hne rfl
        obtain ⟨slot, hslot, hget⟩ := h.held _ _ _ _ hold
        rw [if_neg hn, hslot]
        exact hget
    refine ⟨slot', hslot', hkept n y hinserted fun hkind => ?_⟩
    by_contra hnot
    refine hevicts ⟨hkind, n, ?_, hnot, ?_, hstays⟩
    · exact SortedMap.mem_keys.mpr ⟨y, hinserted⟩
    · exact SortedMap.mem_keys.mpr ⟨y, hy⟩
  · rcases held_of_insert hy with ⟨-, hk, -⟩ | ⟨-, hold⟩
    · exact absurd hk hkey
    · rw [hcold, InMemoryStore.get?_slots_store fun hboth => hkey hboth.2]
      exact h.held _ _ _ _ hold

theorem Faithful.cache (h : s.Faithful) {cold : InMemoryStore}
    (hstore : s.cold.store x = (.ok (), cold)) (hevicts : ¬EvictsHot s x) :
    (({ s with cold } : TieredStore).cache x).Faithful := by
  have hcold : cold = (s.cold.store x).2 := by rw [hstore]
  have hfiled : ∀ topic, cold.Filed topic := by
    intro topic
    rw [hcold]
    exact InMemoryStore.filed_store (h.filed topic)
  have hother : ∀ topic n key y, topic ≠ x.topic →
      (s.hotOf topic).samples.get? (toLex (n, key)) = some y →
      ∃ slot, (cold.slots topic).get? key = some slot ∧ slot.samples.get? n = some y := by
    intro topic n key y hne hy
    rw [hcold, InMemoryStore.get?_slots_store fun hboth => hne hboth.1]
    exact h.held topic n key y hy
  have hbytes : ((s.hotOf x.topic).insert x).bytes = weight ((s.hotOf x.topic).insert x).samples :=
    HotTopic.insert_bytes (h.bytes x.topic)
  obtain ⟨j, -, hweight, hbound, -⟩ :=
    @HotTopic.shrink_spec ((s.hotOf x.topic).insert x) s.budgetBytes _ (Nat.le_refl _) hbytes
  unfold TieredStore.cache
  rw [if_neg (Nat.pos_iff_ne_zero.mp h.enabled)]
  refine ⟨h.enabled, hfiled, fun topic n key y hy => ?_, fun topic => ?_, fun topic hover => ?_⟩
  · rw [hotOf_insert] at hy
    split at hy
    · next htopic =>
      subst htopic
      obtain ⟨hinserted, hstays⟩ := HotTopic.staysHot_of_shrink hbytes hy
      exact h.held_store hstore hevicts hinserted hstays
    · next hne => exact hother topic n key y hne hy
  · rw [hotOf_insert]
    split
    · exact hweight
    · exact h.bytes topic
  · rw [hotOf_insert] at hover ⊢
    split at hover
    · next htopic =>
      rw [if_pos htopic]
      rcases hbound with hle | ⟨-, hone⟩
      · exact absurd hover (Nat.not_lt.mpr hle)
      · exact hone
    · next htopic =>
      rw [if_neg htopic]
      exact h.budget topic hover

theorem store_cases (s : TieredStore) (x : DurabilitySample) :
    (∃ e cold, s.cold.store x = (.error e, cold) ∧ s.store x = (.error e, { s with cold })) ∨
    ∃ cold, s.cold.store x = (.ok (), cold) ∧
      s.store x = (.ok (), ({ s with cold } : TieredStore).cache x) := by
  unfold store
  generalize s.cold.store x = stored
  obtain ⟨result, cold⟩ := stored
  cases result with
  | error e => exact .inl ⟨e, cold, rfl, rfl⟩
  | ok u => exact .inr ⟨cold, rfl, rfl⟩

theorem get?_slots_refused {cold : InMemoryStore} {e : StoreError} {slot : Slot}
    (hstore : s.cold.store x = (.error e, cold))
    (hslot : (s.cold.slots topic).get? key = some slot) :
    (cold.slots topic).get? key = some slot := by
  rcases s.cold.store_cases x with ⟨e', heq⟩ | ⟨e', -, heq⟩ | ⟨slot', grown, -, heq, -⟩
  · rw [heq] at hstore
    cases hstore
    exact hslot
  · rw [heq] at hstore
    cases hstore
    rw [InMemoryStore.slots_putSlot]
    split
    · next htopic =>
      subst htopic
      rw [SortedMap.get?_insert]
      split
      · next hkey => rw [← hkey, hslot, Option.getD_some]
      · exact hslot
    · exact hslot
  · rw [heq] at hstore
    cases hstore

theorem Faithful.store (h : s.Faithful) (hok : s.KeepsHot (.store x)) : (s.store x).2.Faithful := by
  rcases s.store_cases x with ⟨e, cold, hcold, heq⟩ | ⟨cold, hcold, heq⟩
  · rw [heq]
    refine h.cold (fun topic => ?_) fun topic key slot n y _ hslot hheld => ?_
    · have hfiled := InMemoryStore.filed_store (x := x) (h.filed topic)
      rw [hcold] at hfiled
      exact hfiled
    · exact ⟨slot, get?_slots_refused hcold hslot, hheld⟩
  · rw [heq]
    have haccepted : (s.cold.store x).1 = .ok () := by rw [hcold]
    exact h.cache hcold (hok haccepted).1

variable {now : SystemTime} {c : Call}

theorem Faithful.unregister (h : s.Faithful) : (s.unregister topic key now).Faithful := by
  have hcold : ({ s with cold := s.cold.unregister topic key now } : TieredStore).Faithful := by
    refine h.cold (fun topic' => ?_) fun topic' key' slot n y _ hslot hheld => ?_
    · exact InMemoryStore.filed_call (c := .unregister topic key now) (h.filed topic')
    · unfold InMemoryStore.unregister
      split
      · exact ⟨slot, hslot, hheld⟩
      · next marked hmarked =>
        rw [InMemoryStore.slots_putSlot]
        split
        · next htopic =>
          subst htopic
          rw [SortedMap.get?_insert]
          split
          · next hkey =>
            rw [hkey, hmarked] at hslot
            cases hslot
            exact ⟨_, rfl, hheld⟩
          · exact ⟨slot, hslot, hheld⟩
        · exact ⟨slot, hslot, hheld⟩
  unfold TieredStore.unregister
  cases hget : s.hot.get? topic with
  | none => exact hcold
  | some t =>
    have ht : s.hotOf topic = t := by rw [hotOf, hget, Option.getD_some]
    have hbytes := h.bytes topic
    rw [ht] at hbytes
    have hless : ((t.samples.keys.filter fun k => (ofLex k).2 = key).foldl HotTopic.remove t).Less
        (s.hotOf topic) := by
      rw [ht]
      exact HotTopic.less_foldl_remove hbytes _
    exact hcold.less hless

theorem Faithful.cleanup (h : s.Faithful) (hok : s.KeepsHot (.cleanup now)) :
    ({ s with cold := (s.cold.cleanup now).2 } : TieredStore).Faithful := by
  refine h.cold (fun topic => ?_) fun topic key slot n y hy hslot hheld => ?_
  · exact InMemoryStore.filed_call (c := .cleanup now) (h.filed topic)
  · refine ⟨slot, ?_, hheld⟩
    have hdue : s.cold.isDue topic now slot = false :=
      hok topic (toLex (n, key)) slot (SortedMap.mem_keys.mpr ⟨y, hy⟩) hslot
    rw [InMemoryStore.slots_cleanup, SortedMap.get?_filter, Option.filter_eq_some_iff]
    exact ⟨hslot, by rw [hdue]; rfl⟩

theorem Faithful.call (h : s.Faithful) (hok : s.KeepsHot c) : (s.call c).1.Faithful := by
  have hsame {cold : InMemoryStore} (hslots : ∀ topic, cold.slots topic = s.cold.slots topic) :
      ({ s with cold } : TieredStore).Faithful := by
    refine h.cold (fun topic => ?_) fun topic key slot n y _ hslot hheld => ?_
    · unfold InMemoryStore.Filed
      rw [hslots topic]
      exact h.filed topic
    · exact ⟨slot, by rw [hslots topic]; exact hslot, hheld⟩
  cases c with
  | store x => exact h.store hok
  | unregister topic key now => exact h.unregister
  | cleanup now => exact h.cleanup hok
  | setContract | setTopicMeta | topicMeta | query | stats | replayForTopic =>
    exact hsame fun _ => rfl

theorem Faithful.hot_after_store (h : s.Faithful) (hok : s.KeepsHot (.store x))
    (haccepted : (s.store x).1 = .ok ()) : ((s.store x).2.hotOf x.topic).samples.size ≠ 0 := by
  rcases s.store_cases x with ⟨e, cold, -, heq⟩ | ⟨cold, hcold, heq⟩
  · rw [heq] at haccepted
    cases haccepted
  · rw [heq]
    have hbytes : ((s.hotOf x.topic).insert x).bytes =
        weight ((s.hotOf x.topic).insert x).samples := HotTopic.insert_bytes (h.bytes x.topic)
    obtain ⟨j, -, -, -, hempty⟩ :=
      @HotTopic.shrink_spec ((s.hotOf x.topic).insert x) s.budgetBytes _ (Nat.le_refl _) hbytes
    have hhot : (({ s with cold } : TieredStore).cache x).hotOf x.topic =
        ((s.hotOf x.topic).insert x).shrink s.budgetBytes
          ((s.hotOf x.topic).insert x).samples.size := by
      unfold TieredStore.cache
      rw [if_neg (Nat.pos_iff_ne_zero.mp h.enabled), hotOf_insert, if_pos rfl]
      rfl
    rw [hhot]
    intro hzero
    have hin : ((s.hotOf x.topic).insert x).samples.get? x.hotKey = some x :=
      SortedMap.get?_insert_self _ _ _
    rcases hempty hzero with hnone | ⟨hone, hover⟩
    · have hpos := SortedMap.size_pos_iff.mpr ⟨_, _, hin⟩
      omega
    · obtain ⟨only, honly⟩ := List.length_eq_one_iff.mp hone
      have hentry : only = (x.hotKey, x) := by
        have hmem := SortedMap.get?_eq_some.mp hin
        rw [honly, List.mem_singleton] at hmem
        exact hmem.symm
      refine (hok (by rw [hcold])).2 ⟨?_, fun k hk => ?_⟩
      · rw [hbytes, weight, SortedMap.values, honly, hentry] at hover
        simpa using hover
      · obtain ⟨y, hy⟩ := SortedMap.mem_keys.mp hk
        by_contra hne
        have hold : ((s.hotOf x.topic).insert x).samples.get? k = some y := by
          show ((s.hotOf x.topic).samples.insert x.hotKey x).get? k = some y
          rw [SortedMap.get?_insert, if_neg hne]
          exact hy
        have hmem := SortedMap.get?_eq_some.mp hold
        rw [honly, hentry, List.mem_singleton] at hmem
        exact hne (Prod.mk.inj hmem).1

theorem Faithful.hotKey_eq (h : s.Faithful) (hy : (s.hotOf topic).samples.get? k = some y) :
    y.hotKey = k := by
  obtain ⟨slot, hslot, hheld⟩ := h.held topic (ofLex k).1 (ofLex k).2 y hy
  obtain ⟨hkey, hn⟩ := h.filed topic _ slot _ y hslot hheld
  rw [DurabilitySample.hotKey, hkey, hn]
  rfl

theorem hotKey_of_cursor (h : x.cursor = y.cursor) : x.hotKey = y.hotKey := by
  obtain ⟨hkey, hn⟩ := Cursor.mk.inj h
  rw [DurabilitySample.hotKey, DurabilitySample.hotKey, hkey, hn]

theorem Faithful.ascending_recent (h : s.Faithful) (sel : Selector) :
    Ascending (s.recent topic sel) := by
  have hdistinct : (s.recent topic sel).Pairwise fun a b => a.cursor ≠ b.cursor := by
    have hcached : ((s.hotOf topic).samples.values.filter sel.accepts).Pairwise
        fun a b => a.cursor ≠ b.cursor := by
      refine List.Pairwise.filter _ (List.pairwise_map.mpr ?_)
      refine (s.hotOf topic).samples.sorted.imp_of_mem fun {a b} ha hb hlt hcursor => ?_
      have hka := h.hotKey_eq (SortedMap.get?_eq_some.mpr ha)
      have hkb := h.hotKey_eq (SortedMap.get?_eq_some.mpr hb)
      rw [← hka, ← hkb, hotKey_of_cursor hcursor] at hlt
      exact lt_irrefl _ hlt
    exact ((List.perm_insertionSort _ _).pairwise_iff fun {a b} hne => Ne.symm hne).mpr hcached
  have hsorted : (s.recent topic sel).Pairwise fun a b => a.cursor.le b.cursor := by
    have htotal : Std.Total fun a b : DurabilitySample => a.cursor.le b.cursor :=
      ⟨fun a b => a.cursor.le_total b.cursor⟩
    have htrans : IsTrans DurabilitySample fun a b => a.cursor.le b.cursor :=
      ⟨fun a b c => Cursor.le_trans⟩
    exact List.pairwise_insertionSort _ _
  refine (hsorted.and hdistinct).imp fun {a b} hboth hle => ?_
  exact hboth.2 (Cursor.le_antisymm hboth.1 hle)

theorem Faithful.recent_sublist (h : s.Faithful) (topic : String) (sel : Selector) :
    (s.recent topic sel).Sublist (s.cold.matched topic sel) := by
  have hascending : Ascending (s.recent topic sel) := h.ascending_recent sel
  have hsubset : s.recent topic sel ⊆ s.cold.matched topic sel := by
    intro y hy
    rw [recent, List.mem_insertionSort, List.mem_filter] at hy
    obtain ⟨k, hk⟩ := SortedMap.mem_values.mp hy.1
    obtain ⟨slot, hslot, hheld⟩ := h.held topic (ofLex k).1 (ofLex k).2 y hk
    exact InMemoryStore.mem_matched.mpr
      ⟨InMemoryStore.mem_topicSamples.mpr ⟨_, slot, _, hslot, hheld⟩, hy.2⟩
  have hantisymm : Std.Antisymm fun a b : DurabilitySample => ¬b.cursor.le a.cursor :=
    ⟨fun a b hab hba => absurd ((Cursor.le_total _ _).resolve_left hab) hba⟩
  exact List.sublist_of_subperm_of_pairwise (List.subperm_of_subset hascending.nodup hsubset)
    hascending (InMemoryStore.ascending_matched (h.filed topic))

theorem budgetBytes_call : (s.call c).1.budgetBytes = s.budgetBytes := by
  cases c with
  | store x =>
    show (s.store x).2.budgetBytes = _
    rcases s.store_cases x with ⟨e, cold, -, heq⟩ | ⟨cold, -, heq⟩
    · rw [heq]
    · rw [heq, cache]
      split <;> rfl
  | unregister topic key now =>
    show (s.unregister topic key now).budgetBytes = _
    unfold unregister
    split <;> rfl
  | setContract | setTopicMeta | topicMeta | query | stats | replayForTopic | cleanup => rfl

/-- In every run in which nothing cached goes from the cold store and no sample it accepts is too
large for the cache, the cache is part of the contracted history, its bytes are counted, they are
beyond the budget only for one sample, and a sample that is accepted leaves its topic cached. -/
theorem hot_within_cold {cold : InMemoryStore} {c : Contract} {before h : History Call Reply}
    {budget : Nat}
    (hcold : Reaches InMemoryStore.call unrestricted (.withDefaultContract c) before cold)
    (hbudget : 0 < budget) (hr : Reaches call KeepsHot (new cold budget) h s) :
    (∀ topic sel limit, (s.cold.matched topic sel).length ≤ limit →
      (s.recent topic sel).Sublist (s.query topic { sel with limit := some limit }).samples) ∧
    (∀ topic, s.hotBytes topic =
      ((s.hotOf topic).samples.values.map (·.payload.length)).sum) ∧
    (∀ topic, budget < s.hotBytes topic → (s.hotOf topic).samples.size = 1) ∧
    ∀ x, s.KeepsHot (.store x) → (s.store x).1 = .ok () →
      ((s.store x).2.hotOf x.topic).samples.size ≠ 0 := by
  have hinv : s.Faithful ∧ s.budgetBytes = budget := by
    refine hr.invariant (P := fun _ s => s.Faithful ∧ s.budgetBytes = budget)
      ⟨faithful_new hbudget fun topic => InMemoryStore.filed_reachable hcold topic, rfl⟩
      fun _ s i hs hok => ⟨hs.1.call hok, budgetBytes_call.trans hs.2⟩
  obtain ⟨hfaithful, rfl⟩ := hinv
  refine ⟨fun topic sel limit hlimit => ?_, hfaithful.bytes, hfaithful.budget, fun x hok => ?_⟩
  · rw [query, InMemoryStore.query_unlimited (hfaithful.filed topic) hlimit]
    exact hfaithful.recent_sublist topic sel
  · exact hfaithful.hot_after_store hok

end TieredStore

namespace Fixture

open TieredStore

def sized (sequence bytes : Nat) : DurabilitySample :=
  ⟨"t", .repeated 1, sequence, List.replicate bytes 0, 1, false, 0, .repeated 9, sequence⟩

def tieredLastOne (budget : Nat) : TieredStore :=
  new (.withDefaultContract ⟨.keepLast, 1, lengthUnlimited, lengthUnlimited, lengthUnlimited, 0⟩)
    budget

/-- A sample that KEEP_LAST has evicted is still served as a recent one, and one beyond the budget
is not kept although nothing else is cached. -/
theorem evicted_sample_stays_hot :
    (run call (tieredLastOne 100) [.store (sized 1 5), .store (sized 2 5)]).1.recent "t" {} =
        [sized 1 5, sized 2 5] ∧
      (run call (tieredLastOne 100) [.store (sized 1 5), .store (sized 2 5)]).1.query "t" {} =
        ⟨[sized 2 5], none⟩ ∧
      ¬[sized 1 5, sized 2 5].Sublist [sized 2 5] ∧
      ((tieredLastOne 4).store (sized 1 5)).1 = .ok () ∧
      (((tieredLastOne 4).store (sized 1 5)).2.hotOf "t").samples.size = 0 := by
  decide +kernel

/-- The second sample displaces the first, for which the cache has no room. -/
theorem hot_within_cold_of_two :
    ∃ s : TieredStore, Reaches call KeepsHot (tieredLastOne 4)
        [(.store (sized 1 3), .done), (.store (sized 2 3), .done)] s ∧
      s.recent "t" {} = [sized 2 3] ∧
      (s.recent "t" {}).Sublist (s.query "t" { limit := some 9 }).samples ∧
      s.hotBytes "t" = ((s.hotOf "t").samples.values.map (·.payload.length)).sum ∧
      ((s.store (sized 3 3)).2.hotOf "t").samples.size ≠ 0 := by
  have hfirst : (tieredLastOne 4).KeepsHot (.store (sized 1 3)) := fun _ => by decide +kernel
  have hsecond : ((tieredLastOne 4).call (.store (sized 1 3))).1.KeepsHot (.store (sized 2 3)) :=
    fun _ => by decide +kernel
  have hr := Reaches.next (.next .start hfirst) hsecond
  have hcold : Reaches InMemoryStore.call unrestricted (.withDefaultContract _) []
      (tieredLastOne 4).cold := .start
  obtain ⟨hrecent, hbytes, -, hafter⟩ := hot_within_cold hcold (by decide) hr
  exact ⟨_, hr, by decide +kernel, hrecent "t" {} 9 (by decide +kernel), hbytes "t",
    hafter (sized 3 3) (fun _ => by decide +kernel) (by decide +kernel)⟩

end Fixture

end ZeroDds.Durability
