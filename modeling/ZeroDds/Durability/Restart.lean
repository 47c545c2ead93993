/-
Restarts of the service and the history it retains.
-/
import ZeroDds.Durability.Replay
import ZeroDds.Durability.Service

namespace ZeroDds.Durability

open InMemoryStore SortedMap

open Dcps (KeyHash WriterGuid HistoryKind)

/-! ### What a contract retains -/

namespace Contract

variable (c : Contract) {α β : Type}

def retained (l : List α) : List α :=
  match c.historyKind with
  | .keepAll => l
  | .keepLast => l.drop (l.length - c.effectiveDepth)

def TakesAll : Prop :=
  c.historyKind = .keepAll → c.samplesBounded = false ∧ c.instancesBounded = false ∧
    c.perInstanceBounded = false

theorem retained_map (f : α → β) (l : List α) : c.retained (l.map f) = (c.retained l).map f := by
  unfold retained
  split
  · rfl
  · rw [List.length_map, List.map_drop]

theorem retained_of_le {l : List α} (h : c.historyKind = .keepLast → l.length ≤ c.effectiveDepth) :
    c.retained l = l := by
  unfold retained
  split
  · rfl
  · next hk => rw [Nat.sub_eq_zero_of_le (h hk), List.drop_zero]

theorem mem_of_mem_retained {l : List α} {x : α} (h : x ∈ c.retained l) : x ∈ l := by
  unfold retained at h
  split at h
  · exact h
  · exact List.mem_of_mem_drop h

theorem retained_append_singleton (l : List α) (x : α) :
    c.retained (c.retained l ++ [x]) = c.retained (l ++ [x]) := by
  unfold retained
  cases c.historyKind with
  | keepAll => rfl
  | keepLast =>
    have hjoin : l.drop (l.length - c.effectiveDepth) ++ [x] =
        (l ++ [x]).drop (l.length - c.effectiveDepth) :=
      (List.drop_append_of_le_length (Nat.sub_le _ _)).symm
    simp only [hjoin, List.drop_drop, List.length_drop, List.length_append, List.length_singleton]
    congr 1
    omega

end Contract

namespace InMemoryStore

variable {s : InMemoryStore} {sample : DurabilitySample}

theorem store_above (hc : (s.contractFor sample.topic).TakesAll)
    (habove : ∀ e ∈ (((s.slots sample.topic).get? sample.instanceKey).getD {}).samples.entries,
      e.1 < sample.sequence) :
    (((s.slots sample.topic).get? sample.instanceKey) = none ∧
      (s.contractFor sample.topic).instancesBounded = true ∧
      asUsize (s.contractFor sample.topic).maxInstances ≤ (s.slots sample.topic).size ∧
      (s.store sample).2 = s) ∨
    (((s.slots sample.topic).get? sample.instanceKey) = none →
        (s.contractFor sample.topic).instancesBounded = true →
        (s.slots sample.topic).size < asUsize (s.contractFor sample.topic).maxInstances) ∧
    ∃ slot, (s.store sample).2 = s.putSlot sample.topic sample.instanceKey slot ∧
      slot.samples.entries = (s.contractFor sample.topic).retained
        ((((s.slots sample.topic).get? sample.instanceKey).getD {}).samples.entries ++
          [(sample.sequence, sample)]) := by
  have hinsert : ((((s.slots sample.topic).get? sample.instanceKey).getD {}).samples.insert
      sample.sequence sample).entries =
      (((s.slots sample.topic).get? sample.instanceKey).getD {}).samples.entries ++
        [(sample.sequence, sample)] := insertEntry_of_above habove
  unfold store
  simp only
  split
  · next hfull =>
    simp only [Bool.and_eq_true, decide_eq_true_eq] at hfull
    rw [(hc hfull.2).1] at hfull
    exact absurd hfull.1.1.2 Bool.false_ne_true
  split
  · next hfull =>
    simp only [Bool.and_eq_true, decide_eq_true_eq, Bool.not_eq_eq_eq_not, Bool.not_true] at hfull
    refine Or.inl ⟨?_, hfull.1.2, hfull.2, rfl⟩
    exact Option.not_isSome_iff_eq_none.mp (Bool.eq_false_iff.mp hfull.1.1)
  next hspace =>
  refine Or.inr ⟨fun hnone hb => ?_, ?_⟩
  · by_contra hfull
    refine hspace ?_
    simp only [SortedMap.contains, hnone, hb, topicInstanceCount]
    simpa using hfull
  unfold pushIntoSlot
  cases hkind : (s.contractFor sample.topic).historyKind with
  | keepAll =>
    simp only [(hc hkind).2.2, Bool.and_false, Bool.false_and, Bool.false_eq_true, if_false]
    refine ⟨_, rfl, ?_⟩
    rw [Contract.retained, hkind]
    exact hinsert
  | keepLast =>
    refine ⟨_, rfl, ?_⟩
    simp [Contract.retained, hkind, SortedMap.dropFirst, SortedMap.size, hinsert]

theorem setTopicMeta_of_get {topic : String} {m : TopicMeta}
    (h : s.topicMeta.get? topic = some m) : s.setTopicMeta topic m = s := by
  have hmeta : s.topicMeta.insert topic m = s.topicMeta := by
    refine ext_get? fun t => ?_
    rw [get?_insert]
    split
    · next heq => rw [heq, h]
    · rfl
  rw [setTopicMeta, hmeta]

theorem topicMeta_store : (s.store sample).2.topicMeta = s.topicMeta := by
  rcases s.store_cases sample with ⟨e, h⟩ | ⟨e, -, h⟩ | ⟨slot', grown, -, h, -⟩
  · rw [h]
  · rw [h]; rfl
  · rw [h]; rfl

end InMemoryStore

/-! ### Runs and redelivery -/

namespace Incoming

def key (i : Incoming) : KeyHash := i.keyHash.getD Dcps.keylessInstanceKey

def identity (i : Incoming) : WriterGuid × Int := (i.writerGuid, i.sourceSequence)

def SameSample (a b : Incoming) : Prop := b = { a with now := b.now }

end Incoming

/-- What a run of the service gets from the writer: its earlier samples again, then the new ones. -/
structure ServiceRun where
  redelivered : List Incoming
  fresh : List Incoming

structure Numbered (w : WriterGuid) (l : List Incoming) : Prop where
  identity : l.map (·.identity) = (List.range l.length).map fun n : Nat => (w, (n : Int) + 1)
  bound : l.length < 9223372036854775808

def Redelivers (earlier redelivered : List Incoming) : Prop :=
  ∃ suffix, suffix <:+ earlier ∧ List.Forall₂ Incoming.SameSample suffix redelivered

def HasRoom (c : Contract) (l : List Incoming) : Prop :=
  c.instancesBounded = true → (l.map (·.key)).dedup.length ≤ asUsize c.maxInstances

def NothingLost (c : Contract) (l : List Incoming) : Prop :=
  HasRoom c l ∧ (c.historyKind = .keepLast → ∀ i ∈ l,
    (l.filter fun j => j.key = i.key).length ≤ c.effectiveDepth)

/-- At every restart a last part of the earlier samples comes again, and none of them was lost. -/
def Restarts (c : Contract) : List Incoming → List ServiceRun → Prop
  | _, [] => True
  | earlier, r :: runs =>
    NothingLost c earlier ∧ Redelivers earlier r.redelivered ∧ Restarts c (earlier ++ r.fresh) runs

namespace Service

variable (topic : String)

def ingestAll (svc : Service) (l : List Incoming) : Service :=
  l.foldl (fun svc i => (svc.ingest topic i).1) svc

def serve (m : TopicMeta) (svc : Service) (r : ServiceRun) : Service :=
  (start topic svc.store m).ingestAll topic (r.redelivered ++ r.fresh)

def serveRuns (m : TopicMeta) (store : InMemoryStore) (runs : List ServiceRun) : Service :=
  runs.foldl (serve topic m) ⟨store, 0, []⟩

def fileAs (n : Nat) (i : Incoming) : DurabilitySample where
  topic := topic
  instanceKey := i.key
  sequence := n
  payload := i.payload
  representation := i.representation
  bigEndian := i.bigEndian
  createdAt := i.now
  sourceGuid := i.writerGuid
  sourceSequence := i.sourceSequence

def filed (key : KeyHash) (l : List Incoming) : List DurabilitySample :=
  (l.mapIdx (fileAs topic)).filter fun s => s.instanceKey = key

end Service

/-! ### Instances and numbers of the samples -/

variable {c : Contract} {w : WriterGuid} {l : List Incoming} {i : Incoming}

theorem Numbered.of_append {l' : List Incoming} (h : Numbered w (l ++ l')) : Numbered w l where
  identity := by
    have htake := congrArg (List.take l.length) h.identity
    rw [List.map_append, List.take_left' (List.length_map _), ← List.map_take, List.take_range,
      Nat.min_eq_left (by rw [List.length_append]; exact Nat.le_add_right _ _)] at htake
    exact htake
  bound := by
    have hlen := h.bound
    rw [List.length_append] at hlen
    omega

theorem Numbered.identity_last (h : Numbered w (l ++ [i])) :
    i.identity = (w, (l.length : Int) + 1) := by
  have hat := congrArg (·[l.length]?) h.identity
  simpa using hat

theorem Numbered.identity_mem (h : Numbered w l) (hi : i ∈ l) :
    ∃ n : Nat, n < l.length ∧ i.identity = (w, (n : Int) + 1) := by
  have hmem : i.identity ∈ l.map (·.identity) := List.mem_map_of_mem hi
  rw [h.identity] at hmem
  obtain ⟨n, hn, heq⟩ := List.mem_map.mp hmem
  exact ⟨n, List.mem_range.mp hn, heq.symm⟩

theorem Numbered.not_mem_earlier (h : Numbered w (l ++ [i])) :
    ¬∃ j ∈ l, j.identity = i.identity := by
  rintro ⟨j, hj, heq⟩
  obtain ⟨n, hn, hid⟩ := h.of_append.identity_mem hj
  rw [hid, h.identity_last] at heq
  have hnum : ((n : Int) + 1) = (l.length : Int) + 1 := (Prod.mk.inj heq).2
  omega

theorem dedup_length_le_append (l l' : List KeyHash) : l.dedup.length ≤ (l ++ l').dedup.length := by
  refine (List.Nodup.subperm (List.nodup_dedup l) fun x hx => ?_).length_le
  exact List.mem_dedup.mpr (List.mem_append_left _ (List.mem_dedup.mp hx))

theorem HasRoom.of_append (h : HasRoom c (l ++ [i])) : HasRoom c l := by
  intro hb
  have hle := h hb
  rw [List.map_append] at hle
  exact (dedup_length_le_append _ _).trans hle

theorem NothingLost.of_append (h : NothingLost c (l ++ [i])) : NothingLost c l := by
  refine ⟨h.1.of_append, fun hk j hj => ?_⟩
  have hle := h.2 hk j (List.mem_append_left _ hj)
  rw [List.filter_append, List.length_append] at hle
  omega

namespace Service

variable {topic : String} {key : KeyHash} {s : DurabilitySample}

theorem filed_append : filed topic key (l ++ [i]) =
    filed topic key l ++ if i.key = key then [fileAs topic l.length i] else [] := by
  unfold filed
  by_cases hkey : i.key = key <;> simp [hkey, fileAs]

theorem mem_filed : s ∈ filed topic key l ↔
    ∃ n i, l[n]? = some i ∧ i.key = key ∧ s = fileAs topic n i := by
  unfold filed
  rw [List.mem_filter, List.mem_mapIdx]
  constructor
  · rintro ⟨⟨n, hn, rfl⟩, hkey⟩
    exact ⟨n, l[n], List.getElem?_eq_getElem hn, of_decide_eq_true hkey, rfl⟩
  · rintro ⟨n, i, hget, hkey, rfl⟩
    obtain ⟨hn, rfl⟩ := List.getElem?_eq_some_iff.mp hget
    exact ⟨⟨n, hn, rfl⟩, decide_eq_true hkey⟩

theorem length_filed : (filed topic key l).length = (l.filter fun j => j.key = key).length := by
  induction l using List.reverseRecOn with
  | nil => rfl
  | append_singleton l i ih =>
    rw [filed_append, List.filter_append, List.length_append, List.length_append, ih]
    by_cases hkey : i.key = key <;> simp [hkey]

theorem sequence_lt_of_mem_filed (h : s ∈ filed topic key l) : s.sequence < l.length := by
  obtain ⟨n, i, hget, -, rfl⟩ := mem_filed.mp h
  exact (List.getElem?_eq_some_iff.mp hget).1

structure Retains (topic : String) (c : Contract) (l : List Incoming) (store : InMemoryStore) :
    Prop where
  contract : store.contractFor topic = c
  held : ∀ key slot, (store.slots topic).get? key = some slot →
    slot.samples.entries = (c.retained (filed topic key l)).map fun s => (s.sequence, s)
  known : ∀ key slot, (store.slots topic).get? key = some slot → ∃ i ∈ l, i.key = key
  refused : ∀ i ∈ l, (store.slots topic).get? i.key = none →
    c.instancesBounded = true ∧ asUsize c.maxInstances ≤ (store.slots topic).size
  counted : NothingLost c l → store.topicSampleCount topic = l.length

variable {store : InMemoryStore}

theorem Retains.entries_below (h : Retains topic c l store) :
    ∀ e ∈ (((store.slots topic).get? key).getD {}).samples.entries, e.1 < l.length := by
  intro e he
  cases hget : (store.slots topic).get? key with
  | none =>
    rw [hget] at he
    cases he
  | some slot =>
    rw [hget, Option.getD_some, h.held key slot hget] at he
    obtain ⟨s, hs, rfl⟩ := List.mem_map.mp he
    exact sequence_lt_of_mem_filed (c.mem_of_mem_retained hs)

theorem size_lt_of_room {slots : SortedMap KeyHash Slot}
    (hknown : ∀ key slot, slots.get? key = some slot → ∃ i ∈ l, i.key = key) (hroom : HasRoom c l)
    (hi : i ∈ l) (hnone : slots.get? i.key = none) (hb : c.instancesBounded = true) :
    slots.size < asUsize c.maxInstances := by
  have hnodup : (i.key :: slots.keys).Nodup := by
    refine List.nodup_cons.mpr ⟨fun hkey => ?_, keys_nodup slots⟩
    obtain ⟨slot, hslot⟩ := mem_keys.mp hkey
    rw [hnone] at hslot
    cases hslot
  have hsub : i.key :: slots.keys ⊆ (l.map (·.key)).dedup := by
    intro key hkey
    refine List.mem_dedup.mpr (List.mem_map.mpr ?_)
    rcases List.mem_cons.mp hkey with rfl | hkey
    · exact ⟨i, hi, rfl⟩
    · obtain ⟨slot, hslot⟩ := mem_keys.mp hkey
      exact hknown key slot hslot
  calc slots.size = slots.keys.length := size_eq_length_keys slots
    _ < (i.key :: slots.keys).length := Nat.lt_succ_self _
    _ ≤ (l.map (·.key)).dedup.length := (hnodup.subperm hsub).length_le
    _ ≤ asUsize c.maxInstances := hroom hb

section

variable (h : Retains topic c l store)
include h

theorem Retains.admitted (hroom : HasRoom c l) (hi : i ∈ l) :
    ∃ slot, (store.slots topic).get? i.key = some slot := by
  refine Option.ne_none_iff_exists'.mp fun hnone => ?_
  obtain ⟨hb, hfull⟩ := h.refused i hi hnone
  exact Nat.not_lt.mpr hfull (size_lt_of_room h.known hroom hi hnone hb)

theorem Retains.filed_eq_nil (hnone : (store.slots topic).get? key = none)
    (hspace : c.instancesBounded = true →
      (store.slots topic).size < asUsize c.maxInstances) : filed topic key l = [] := by
  rw [List.eq_nil_iff_forall_not_mem]
  intro s hs
  obtain ⟨n, i, hget, rfl, -⟩ := mem_filed.mp hs
  obtain ⟨hb, hfull⟩ := h.refused i (List.mem_of_getElem? hget) hnone
  exact Nat.not_lt.mpr hfull (hspace hb)

theorem Retains.entries_getD
    (hspace : (store.slots topic).get? key = none → c.instancesBounded = true →
      (store.slots topic).size < asUsize c.maxInstances) :
    (((store.slots topic).get? key).getD {}).samples.entries =
      (c.retained (filed topic key l)).map fun s => (s.sequence, s) := by
  cases hget : (store.slots topic).get? key with
  | none =>
    rw [h.filed_eq_nil hget (hspace hget)]
    rw [c.retained_of_le fun _ => Nat.zero_le _]
    rfl
  | some slot => exact h.held key slot hget

theorem Retains.store_next (hc : c.TakesAll) :
    ((store.slots topic).get? i.key = none ∧ c.instancesBounded = true ∧
      asUsize c.maxInstances ≤ (store.slots topic).size ∧
      (store.store (fileAs topic l.length i)).2 = store) ∨
    ((store.slots topic).get? i.key = none → c.instancesBounded = true →
      (store.slots topic).size < asUsize c.maxInstances) ∧
    ∃ slot, (store.store (fileAs topic l.length i)).2 = store.putSlot topic i.key slot ∧
      slot.samples.entries =
        (c.retained (filed topic i.key (l ++ [i]))).map fun s => (s.sequence, s) := by
  have hcontract := h.contract
  subst hcontract
  rcases store_above hc
    (show ∀ e ∈ (((store.slots topic).get? (fileAs topic l.length i).instanceKey).getD
      {}).samples.entries, e.1 < (fileAs topic l.length i).sequence from h.entries_below)
    with hrefused | ⟨hspace, slot, hstore, hentries⟩
  · exact Or.inl hrefused
  · refine Or.inr ⟨hspace, slot, hstore, hentries.trans ?_⟩
    have hlast : [((fileAs topic l.length i).sequence, fileAs topic l.length i)] =
        [fileAs topic l.length i].map fun s => (s.sequence, s) := rfl
    have hold : (((store.slots topic).get? i.key).getD {}).samples.entries =
        ((store.contractFor topic).retained (filed topic i.key l)).map
          fun s => (s.sequence, s) := h.entries_getD hspace
    show (store.contractFor topic).retained
      ((((store.slots topic).get? i.key).getD {}).samples.entries ++ _) = _
    rw [hold, hlast, ← List.map_append, Contract.retained_map,
      Contract.retained_append_singleton, filed_append, if_pos rfl]

end

theorem retained_filed (hlost : NothingLost c l) :
    c.retained (filed topic key l) = filed topic key l := by
  refine c.retained_of_le fun hk => ?_
  rw [length_filed]
  by_cases hex : ∃ i ∈ l, i.key = key
  · obtain ⟨i, hi, rfl⟩ := hex
    exact hlost.2 hk i hi
  · have hnone : (l.filter fun j => j.key = key) = [] := by
      rw [List.filter_eq_nil_iff]
      exact fun j hj heq => hex ⟨j, hj, of_decide_eq_true heq⟩
    rw [hnone]
    exact Nat.zero_le _

section

variable (h : Retains topic c l store)
include h

theorem Retains.refuse
    (hnone : (store.slots topic).get? i.key = none) (hb : c.instancesBounded = true)
    (hfull : asUsize c.maxInstances ≤ (store.slots topic).size) :
    Retains topic c (l ++ [i]) store := by
  have hknown : ∀ key slot, (store.slots topic).get? key = some slot →
      ∃ j ∈ l ++ [i], j.key = key := by
    intro key slot hslot
    obtain ⟨j, hj, hjk⟩ := h.known key slot hslot
    exact ⟨j, List.mem_append_left _ hj, hjk⟩
  refine ⟨h.contract, ?_, hknown, fun _ _ _ => ⟨hb, hfull⟩, ?_⟩
  · intro key slot hslot
    have hother : ¬i.key = key := by
      rintro rfl
      rw [hnone] at hslot
      cases hslot
    rw [filed_append, if_neg hother, List.append_nil]
    exact h.held key slot hslot
  · intro hlost
    have hlt := size_lt_of_room hknown hlost.1
      (List.mem_append_right _ (List.mem_singleton_self i)) hnone hb
    exact absurd hlt (Nat.not_lt.mpr hfull)

theorem Retains.put {slot : Slot}
    (hspace : (store.slots topic).get? i.key = none → c.instancesBounded = true →
      (store.slots topic).size < asUsize c.maxInstances)
    (hentries : slot.samples.entries =
      (c.retained (filed topic i.key (l ++ [i]))).map fun s => (s.sequence, s)) :
    Retains topic c (l ++ [i]) (store.putSlot topic i.key slot) := by
  refine ⟨h.contract, ?_, ?_, ?_, ?_⟩
  · intro key slot' hslot
    rw [slots_putSlot_self, get?_insert] at hslot
    split at hslot
    · next hkey =>
      subst hkey
      obtain rfl := Option.some.inj hslot
      exact hentries
    · next hkey =>
      rw [filed_append, if_neg (fun heq => hkey heq.symm), List.append_nil]
      exact h.held key slot' hslot
  · intro key slot' hslot
    rw [slots_putSlot_self, get?_insert] at hslot
    split at hslot
    · next hkey => exact ⟨i, List.mem_append_right _ (List.mem_singleton_self i), hkey.symm⟩
    · obtain ⟨j, hj, hjk⟩ := h.known key slot' hslot
      exact ⟨j, List.mem_append_left _ hj, hjk⟩
  · intro j hj hnone
    rw [slots_putSlot_self, get?_insert] at hnone
    split at hnone
    · cases hnone
    · next hkey =>
      rcases List.mem_append.mp hj with hj | hj
      · obtain ⟨hb, hfull⟩ := h.refused j hj hnone
        refine ⟨hb, hfull.trans ?_⟩
        rw [slots_putSlot_self]
        exact size_le_size_insert _ _ _
      · rw [List.mem_singleton.mp hj] at hkey
        exact absurd rfl hkey
  · intro hlost
    have hcount := sampleCount_insert (store.slots topic) i.key slot
    have hcounted : sampleCount (store.slots topic) = l.length := h.counted hlost.of_append
    have hsize : slot.samples.size = (filed topic i.key l).length + 1 := by
      rw [SortedMap.size, hentries, List.length_map, retained_filed hlost, filed_append,
        if_pos rfl, List.length_append, List.length_singleton]
    have hsizeOld : (((store.slots topic).get? i.key).getD {}).samples.size =
        (filed topic i.key l).length := by
      rw [SortedMap.size, h.entries_getD hspace, List.length_map, retained_filed hlost.of_append]
    show sampleCount ((store.putSlot topic i.key slot).slots topic) = _
    rw [slots_putSlot_self, List.length_append, List.length_singleton]
    omega

theorem Retains.next (hc : c.TakesAll) :
    Retains topic c (l ++ [i]) (store.store (fileAs topic l.length i)).2 := by
  rcases h.store_next (i := i) hc with ⟨hnone, hb, hfull, hstore⟩ | ⟨hspace, slot, hstore, hentries⟩
  · rw [hstore]
    exact h.refuse hnone hb hfull
  · rw [hstore]
    exact h.put hspace hentries

end

structure Tracks (topic : String) (c : Contract) (l : List Incoming) (svc : Service) : Prop where
  retains : Retains topic c l svc.store
  seq : svc.seq = l.length
  seen : ∀ x, x ∈ svc.seen ↔ ∃ i ∈ l, i.identity = x

variable {svc : Service}

theorem Tracks.not_alreadySeen (h : Tracks topic c l svc) (hn : Numbered w (l ++ [i])) :
    svc.alreadySeen i = false := by
  have hnew : i.identity ∉ svc.seen := fun hmem => hn.not_mem_earlier ((h.seen _).mp hmem)
  exact (congrArg (decide (0 ≤ i.sourceSequence) && ·) (decide_eq_false hnew)).trans
    (Bool.and_false _)

theorem Tracks.next (h : Tracks topic c l svc) (hc : c.TakesAll) (hn : Numbered w (l ++ [i])) :
    Tracks topic c (l ++ [i]) (svc.ingest topic i).1 := by
  have hsource : 0 ≤ i.sourceSequence := by
    have hid : i.sourceSequence = (l.length : Int) + 1 := (Prod.mk.inj hn.identity_last).2
    omega
  have hsample : svc.sampleFor topic i = fileAs topic l.length i := by
    rw [sampleFor, h.seq]
    rfl
  rw [Service.ingest, h.not_alreadySeen hn, if_neg Bool.false_ne_true, if_pos hsource, hsample]
  refine ⟨h.retains.next hc, ?_, ?_⟩
  · have hlen := hn.bound
    rw [List.length_append, List.length_singleton] at hlen
    rw [h.seq, List.length_append, List.length_singleton, Nat.mod_eq_of_lt (by omega)]
  · intro x
    rw [List.mem_cons, h.seen]
    simp only [List.mem_append, List.mem_singleton, or_and_right, exists_or, exists_eq_left]
    rw [or_comm, Eq.comm (a := x)]
    rfl

theorem Tracks.ingestAll (h : Tracks topic c l svc) (hc : c.TakesAll) {l' : List Incoming}
    (hn : Numbered w (l ++ l')) : Tracks topic c (l ++ l') (svc.ingestAll topic l') := by
  induction l' generalizing l svc with
  | nil =>
    rw [List.append_nil]
    exact h
  | cons i rest ih =>
    rw [List.append_cons] at hn ⊢
    exact ih (h.next hc hn.of_append) hn

structure Alike (a b : Service) : Prop where
  store : a.store = b.store
  seq : a.seq = b.seq
  seen : ∀ x, x ∈ a.seen ↔ x ∈ b.seen

theorem Alike.ingest {a b : Service} (h : Alike a b) (i : Incoming) :
    Alike (a.ingest topic i).1 (b.ingest topic i).1 := by
  have hseen : a.alreadySeen i = b.alreadySeen i := by
    simp [alreadySeen, h.seen]
  have hsample : a.sampleFor topic i = b.sampleFor topic i := by
    rw [sampleFor, h.seq]
    rfl
  unfold Service.ingest
  rw [hseen, hsample, h.store, h.seq]
  split
  · exact h
  · refine ⟨rfl, rfl, fun x => ?_⟩
    split
    · rw [List.mem_cons, List.mem_cons, h.seen]
    · exact h.seen x

theorem Alike.ingestAll {a b : Service} (h : Alike a b) (l : List Incoming) :
    Alike (a.ingestAll topic l) (b.ingestAll topic l) := by
  induction l generalizing a b with
  | nil => exact h
  | cons i rest ih => exact ih (h.ingest i)

theorem ingestAll_of_seen (h : ∀ i ∈ l, svc.alreadySeen i = true) :
    svc.ingestAll topic l = svc := by
  induction l with
  | nil => rfl
  | cons i rest ih =>
    have hskip : (svc.ingest topic i).1 = svc := by
      rw [Service.ingest, if_pos (h i List.mem_cons_self)]
    show (svc.ingest topic i).1.ingestAll topic rest = svc
    rw [hskip]
    exact ih fun j hj => h j (List.mem_cons_of_mem _ hj)

theorem topicMeta_ingestAll : (svc.ingestAll topic l).store.topicMeta = svc.store.topicMeta := by
  induction l generalizing svc with
  | nil => rfl
  | cons i rest ih =>
    refine Eq.trans ih ?_
    show (svc.ingest topic i).1.store.topicMeta = svc.store.topicMeta
    unfold Service.ingest
    split
    · rfl
    · exact topicMeta_store

section

variable (h : Retains topic c l store)
include h

theorem Retains.get?_iff {slot : Slot}
    (hslot : (store.slots topic).get? key = some slot) {n : Nat} :
    slot.samples.get? n = some s ↔ s ∈ c.retained (filed topic key l) ∧ s.sequence = n := by
  rw [get?_eq_some, h.held key slot hslot, List.mem_map]
  constructor
  · rintro ⟨s', hs', heq⟩
    obtain ⟨hn, rfl⟩ := Prod.mk.inj heq
    exact ⟨hs', hn⟩
  · rintro ⟨hs, rfl⟩
    exact ⟨s, hs, rfl⟩

theorem Retains.filed : store.Filed topic := by
  intro key slot n sample hslot hsample
  obtain ⟨hmem, hn⟩ := (h.get?_iff hslot).mp hsample
  obtain ⟨_, i, -, hkey, rfl⟩ := mem_filed.mp (c.mem_of_mem_retained hmem)
  exact ⟨hkey, hn⟩

theorem Retains.identities (hn : Numbered w l) (hlost : NothingLost c l) {x : WriterGuid × Int} :
    (∃ s ∈ store.topicSamples topic, 0 ≤ s.sourceSequence ∧ (s.sourceGuid, s.sourceSequence) = x) ↔
      ∃ i ∈ l, i.identity = x := by
  constructor
  · rintro ⟨s, hs, -, hx⟩
    obtain ⟨key, slot, n, hslot, hget⟩ := mem_topicSamples.mp hs
    obtain ⟨hmem, -⟩ := (h.get?_iff hslot).mp hget
    obtain ⟨n, i, hi, -, rfl⟩ := mem_filed.mp (c.mem_of_mem_retained hmem)
    exact ⟨i, List.mem_of_getElem? hi, hx⟩
  · rintro ⟨i, hi, rfl⟩
    obtain ⟨slot, hslot⟩ := h.admitted hlost.1 hi
    obtain ⟨n, hat⟩ := List.getElem?_of_mem hi
    have hmem : fileAs topic n i ∈ c.retained (Service.filed topic i.key l) := by
      rw [retained_filed hlost]
      exact mem_filed.mpr ⟨n, i, hat, rfl, rfl⟩
    have hget := (h.get?_iff hslot).mpr ⟨hmem, rfl⟩
    obtain ⟨k, -, hid⟩ := hn.identity_mem hi
    have hsource : i.sourceSequence = (k : Int) + 1 := (Prod.mk.inj hid).2
    refine ⟨_, mem_topicSamples.mpr ⟨_, slot, _, hslot, hget⟩, ?_, rfl⟩
    show 0 ≤ i.sourceSequence
    omega

end

theorem Tracks.start_alike {m : TopicMeta} (h : Tracks topic m.contract l svc) (hn : Numbered w l)
    (hlost : NothingLost m.contract l) (hmeta : svc.store.topicMeta.get? topic = some m) :
    Alike (start topic svc.store m) svc := by
  unfold start
  rw [setTopicMeta_of_get hmeta]
  refine ⟨rfl, ?_, fun x => ?_⟩
  · rw [h.seq]
    exact h.retains.counted hlost
  · rw [h.seen, ← h.retains.identities hn hlost]
    simp only [replayForTopic_eq h.retains.filed, List.mem_map, List.mem_filter,
      decide_eq_true_eq, and_assoc]

theorem start_congr {a b : InMemoryStore} {m : TopicMeta}
    (h : a.setTopicMeta topic m = b.setTopicMeta topic m) : start topic a m = start topic b m := by
  unfold start
  rw [h]

end Service

theorem Redelivers.identity_mem {earlier redelivered : List Incoming}
    (h : Redelivers earlier redelivered) {j : Incoming} (hj : j ∈ redelivered) :
    ∃ i ∈ earlier, i.identity = j.identity := by
  obtain ⟨suffix, hsuffix, hsame⟩ := h
  have hex : ∃ i ∈ suffix, i.SameSample j := by
    clear hsuffix
    induction hsame with
    | nil => cases hj
    | cons hab _ ih =>
      rcases List.mem_cons.mp hj with rfl | hj
      · exact ⟨_, List.mem_cons_self, hab⟩
      · obtain ⟨i, hi, hsame⟩ := ih hj
        exact ⟨i, List.mem_cons_of_mem _ hi, hsame⟩
  obtain ⟨i, hi, hsame⟩ := hex
  refine ⟨i, hsuffix.subset hi, ?_⟩
  rw [hsame]
  rfl

namespace Service

variable {topic : String} {m : TopicMeta} {store : InMemoryStore} {runs : List ServiceRun}

def singleRun (topic : String) (m : TopicMeta) (store : InMemoryStore) (l : List Incoming) :
    Service :=
  (start topic store m).ingestAll topic l

theorem singleRun_append {l' : List Incoming} :
    singleRun topic m store (l ++ l') = (singleRun topic m store l).ingestAll topic l' :=
  List.foldl_append

theorem tracks_start (hempty : store.slots topic = .empty) :
    Tracks topic m.contract [] (start topic store m) := by
  have hslots : (start topic store m).store.slots topic = .empty := hempty
  have hcount : (start topic store m).store.topicSampleCount topic = 0 := by
    rw [InMemoryStore.topicSampleCount, hslots]
    rfl
  refine ⟨⟨?_, ?_, ?_, ?_, fun _ => hcount⟩, hcount, ?_⟩
  · simp [start, InMemoryStore.contractFor, InMemoryStore.setTopicMeta]
  · intro key slot hslot
    rw [hslots] at hslot
    cases hslot
  · intro key slot hslot
    rw [hslots] at hslot
    cases hslot
  · intro i hi
    cases hi
  · have hfiled : (store.setTopicMeta topic m).Filed topic := by
      intro key slot n sample hslot
      rw [show (store.setTopicMeta topic m).slots topic = .empty from hempty] at hslot
      cases hslot
    have hnone : (store.setTopicMeta topic m).replayForTopic topic = [] := by
      rw [replayForTopic_eq hfiled, InMemoryStore.topicSamples,
        show (store.setTopicMeta topic m).slots topic = .empty from hempty]
      rfl
    intro x
    simp [start, hnone]

theorem tracks_singleRun (hc : m.contract.TakesAll) (hempty : store.slots topic = .empty)
    (hn : Numbered w l) : Tracks topic m.contract l (singleRun topic m store l) :=
  (tracks_start hempty).ingestAll (l := []) hc hn

theorem topicMeta_singleRun : (singleRun topic m store l).store.topicMeta.get? topic = some m := by
  rw [singleRun, topicMeta_ingestAll]
  exact get?_insert_self _ _ _

theorem serve_alike (hc : m.contract.TakesAll) (hempty : store.slots topic = .empty) {svc : Service}
    {r : ServiceRun} (hn : Numbered w l) (hlost : NothingLost m.contract l)
    (hagain : Redelivers l r.redelivered)
    (hstore : svc.store.setTopicMeta topic m = (singleRun topic m store l).store) :
    (svc.serve topic m r).store = (singleRun topic m store (l ++ r.fresh)).store := by
  have htracks : Tracks topic m.contract l (singleRun topic m store l) :=
    tracks_singleRun hc hempty hn
  have hsame : (singleRun topic m store l).store.setTopicMeta topic m =
      (singleRun topic m store l).store := setTopicMeta_of_get topicMeta_singleRun
  have hstart : Alike (start topic svc.store m) (singleRun topic m store l) := by
    rw [start_congr (hstore.trans hsame.symm)]
    exact htracks.start_alike hn hlost topicMeta_singleRun
  have hskip : (start topic svc.store m).ingestAll topic r.redelivered =
      start topic svc.store m := by
    refine ingestAll_of_seen fun j hj => ?_
    obtain ⟨i, hi, hid⟩ := hagain.identity_mem hj
    obtain ⟨n, -, hsource⟩ := hn.identity_mem hi
    have hpos : j.sourceSequence = (n : Int) + 1 := (Prod.mk.inj (hid.symm.trans hsource)).2
    have hseen : j.identity ∈ (start topic svc.store m).seen :=
      (hstart.seen _).mpr ((htracks.seen _).mpr ⟨i, hi, hid⟩)
    exact Bool.and_eq_true_iff.mpr ⟨decide_eq_true (by omega), decide_eq_true hseen⟩
  have hserve : svc.serve topic m r = (start topic svc.store m).ingestAll topic r.fresh := by
    rw [serve, ingestAll, List.foldl_append]
    exact congrArg (List.foldl _ · r.fresh) hskip
  rw [hserve, singleRun_append]
  exact (hstart.ingestAll r.fresh).store

theorem foldl_serve (hc : m.contract.TakesAll) (hempty : store.slots topic = .empty) {svc : Service}
    (hn : Numbered w (l ++ runs.flatMap (·.fresh))) (hruns : Restarts m.contract l runs)
    (hstore : svc.store.setTopicMeta topic m = (singleRun topic m store l).store) :
    (runs.foldl (serve topic m) svc).store.setTopicMeta topic m =
      (singleRun topic m store (l ++ runs.flatMap (·.fresh))).store := by
  induction runs generalizing l svc with
  | nil => simpa using hstore
  | cons r runs ih =>
    obtain ⟨hlost, hagain, hrest⟩ := hruns
    rw [List.flatMap_cons, ← List.append_assoc] at hn ⊢
    refine ih hn hrest ?_
    rw [serve_alike hc hempty hn.of_append.of_append hlost hagain hstore]
    exact setTopicMeta_of_get topicMeta_singleRun

/-- However the samples of a writer are split into runs, and whatever part of the earlier ones comes
again at a restart, the store is that of one run without redelivery: under KEEP_LAST the last
samples of each instance, under KEEP_ALL all of them.  At no restart may an instance have had more
samples than it keeps, or have found no room. -/
theorem restarts_retain_single_run (hempty : store.slots topic = .empty) (hc : m.contract.TakesAll)
    (hn : Numbered w (runs.flatMap (·.fresh))) (hruns : Restarts m.contract [] runs) :
    (serveRuns topic m store runs).store.slots topic =
      (serveRuns topic m store [⟨[], runs.flatMap (·.fresh)⟩]).store.slots topic ∧
    (∀ key slot, ((serveRuns topic m store runs).store.slots topic).get? key = some slot →
      slot.samples.values = m.contract.retained (filed topic key (runs.flatMap (·.fresh)))) ∧
    (HasRoom m.contract (runs.flatMap (·.fresh)) → ∀ i ∈ runs.flatMap (·.fresh),
      ∃ slot, ((serveRuns topic m store runs).store.slots topic).get? i.key = some slot) := by
  have hstore : (serveRuns topic m store runs).store.setTopicMeta topic m =
      (singleRun topic m store (runs.flatMap (·.fresh))).store :=
    foldl_serve (l := []) hc hempty hn hruns rfl
  have hslots : (serveRuns topic m store runs).store.slots topic =
      (singleRun topic m store (runs.flatMap (·.fresh))).store.slots topic := by
    rw [← hstore]
    rfl
  have htracks : Tracks topic m.contract (runs.flatMap (·.fresh))
      (singleRun topic m store (runs.flatMap (·.fresh))) := tracks_singleRun hc hempty hn
  refine ⟨hslots, fun key slot hslot => ?_, fun hroom i hi => ?_⟩
  · rw [hslots] at hslot
    rw [SortedMap.values, htracks.retains.held key slot hslot, List.map_map]
    exact List.map_id _
  · rw [hslots]
    exact htracks.retains.admitted hroom hi

end Service

/-! ### A restart after an eviction, and one without -/

namespace Fixture

open Service

def threeThenOne : List ServiceRun :=
  [⟨[], [wireSample 1 1, wireSample 1 2, wireSample 1 3]⟩, ⟨[], [wireSample 1 4]⟩]

def threeAgain : List ServiceRun :=
  [⟨[], [wireSample 1 1, wireSample 1 2, wireSample 1 3]⟩,
    ⟨[wireSample 1 1, wireSample 1 2, wireSample 1 3], []⟩]

/-- Of four samples the third is kept, for the fourth got a number below it; and of three samples
that come again the second is kept, for it was not known any more and replaced the third. -/
theorem restart_after_eviction_changes_history :
    Numbered (.repeated 9) (threeThenOne.flatMap (·.fresh)) ∧
    Numbered (.repeated 9) (threeAgain.flatMap (·.fresh)) ∧
    Redelivers (threeAgain.flatMap (·.fresh)) [wireSample 1 1, wireSample 1 2, wireSample 1 3] ∧
    ((serveRuns "t" keepLastOne noStore threeThenOne).store.topicSamples "t").map
      (·.sourceSequence) = [3] ∧
    ((serveRuns "t" keepLastOne noStore [⟨[], threeThenOne.flatMap (·.fresh)⟩]).store.topicSamples
      "t").map (·.sourceSequence) = [4] ∧
    ((serveRuns "t" keepLastOne noStore threeAgain).store.topicSamples "t").map
      (·.sourceSequence) = [2] ∧
    ((serveRuns "t" keepLastOne noStore [⟨[], threeAgain.flatMap (·.fresh)⟩]).store.topicSamples
      "t").map (·.sourceSequence) = [3] := by
  refine ⟨⟨by decide +kernel, by decide +kernel⟩, ⟨by decide +kernel, by decide +kernel⟩, ?_,
    by decide +kernel, by decide +kernel, by decide +kernel, by decide +kernel⟩
  exact ⟨_, List.suffix_refl _, .cons rfl (.cons rfl (.cons rfl .nil))⟩

/-- Two instances with a sample each, and a restart at which the second comes again. -/
def oneEachThenOne : List ServiceRun :=
  [⟨[], [wireSample 1 1, wireSample 2 2]⟩,
    ⟨[{ wireSample 2 2 with now := 7 }], [wireSample 1 3]⟩]

theorem restart_before_eviction_retains :
    (serveRuns "t" keepLastOne noStore oneEachThenOne).store.slots "t" =
      (serveRuns "t" keepLastOne noStore [⟨[], oneEachThenOne.flatMap (·.fresh)⟩]).store.slots "t" ∧
    ((serveRuns "t" keepLastOne noStore oneEachThenOne).store.topicSamples "t").map
      (·.sourceSequence) = [3, 2] := by
  have hlost : NothingLost keepLastOne.contract [] :=
    ⟨fun h => absurd h (by decide), fun _ i hi => absurd hi List.not_mem_nil⟩
  have hlost' : NothingLost keepLastOne.contract [wireSample 1 1, wireSample 2 2] :=
    ⟨fun h => absurd h (by decide), fun _ => by decide +kernel⟩
  have hruns : Restarts keepLastOne.contract [] oneEachThenOne :=
    ⟨hlost, ⟨[], List.nil_suffix, .nil⟩, hlost',
      ⟨[wireSample 2 2], List.suffix_cons _ _, .cons rfl .nil⟩, trivial⟩
  have hn : Numbered (.repeated 9) (oneEachThenOne.flatMap (·.fresh)) :=
    ⟨by decide +kernel, by decide +kernel⟩
  have hc : keepLastOne.contract.TakesAll := fun h => absurd h (by decide)
  exact ⟨(restarts_retain_single_run rfl hc hn hruns).1, by decide +kernel⟩

end Fixture

end ZeroDds.Durability
