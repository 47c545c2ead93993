/-
The file store answers as the store in memory.
-/
import ZeroDds.Durability.Retention
import ZeroDds.Durability.FileStore

namespace ZeroDds.Durability

open InMemoryStore SortedMap

open Dcps (KeyHash WriterGuid HistoryKind Octets16)
open Rtps (Octets)

theorem flatMap_eq_of_only {α β : Type} {l : List α} (hl : l.Nodup) {g : α → List β} {a : α}
    (hother : ∀ x ∈ l, x ≠ a → g x = []) (hout : a ∉ l → g a = []) : l.flatMap g = g a := by
  induction l with
  | nil => exact (hout List.not_mem_nil).symm
  | cons x rest ih =>
    obtain ⟨hx, hrest⟩ := List.nodup_cons.mp hl
    rw [List.flatMap_cons]
    by_cases hxa : x = a
    · subst hxa
      have hnone : rest.flatMap g = [] := by
        refine List.flatMap_eq_nil_iff.mpr fun y hy => ?_
        refine hother y (List.mem_cons_of_mem _ hy) ?_
        rintro rfl
        exact hx hy
      rw [hnone, List.append_nil]
    · rw [hother x List.mem_cons_self hxa, List.nil_append]
      refine ih hrest (fun y hy => hother y (List.mem_cons_of_mem _ hy)) fun hnot => hout ?_
      intro hmem
      rcases List.mem_cons.mp hmem with rfl | hmem
      · exact hxa rfl
      · exact hnot hmem

def toDir (slot : Slot) : InstanceDir :=
  ⟨slot.samples.map encodeSample, slot.unregisteredAt.map nanosOf⟩

/-- Every sample is held under its own topic, instance and number, and everything fits the files. -/
structure Slot.StoredAs (topic : String) (key : KeyHash) (slot : Slot) : Prop where
  samples : ∀ n s, slot.samples.get? n = some s →
    (s.topic = topic ∧ s.instanceKey = key ∧ s.sequence = n) ∧ s.Storable
  mark : ∀ t, slot.unregisteredAt = some t → Representable t

structure Refines (f : FileStore) (s : InMemoryStore) : Prop where
  defaultContract : f.defaultContract = s.defaultContract
  contracts : f.contracts = s.contracts
  metas : ∀ topic, f.readMeta topic = .ok (s.topicMeta.get? topic)
  instances : ∀ topic, f.instances topic = (s.slots topic).map toDir
  stored : ∀ topic key slot, (s.slots topic).get? key = some slot → slot.StoredAs topic key

/-! ### Putting a directory -/

namespace FileStore

variable {f : FileStore} {topic topic' : String} {key : KeyHash} {dir : InstanceDir}
  {slots : SortedMap KeyHash InstanceDir}

theorem topicDir_putTopic {d : TopicDir} :
    (f.putTopic topic d).topicDir topic' = if topic' = topic then d else f.topicDir topic' := by
  simp only [topicDir, putTopic, get?_insert]
  split <;> rfl

theorem readMeta_putInstances :
    (f.putTopic topic { f.topicDir topic with instances := slots }).readMeta topic' =
      f.readMeta topic' := by
  have hfile : ((f.putTopic topic { f.topicDir topic with instances := slots }).topicDir
      topic').metaFile = (f.topicDir topic').metaFile := by
    rw [topicDir_putTopic]
    split
    · next h => rw [h]
    · rfl
  unfold readMeta
  rw [hfile]
  rfl

theorem contractFor_putInstances :
    (f.putTopic topic { f.topicDir topic with instances := slots }).contractFor topic' =
      f.contractFor topic' := by
  unfold contractFor
  rw [readMeta_putInstances]
  rfl

theorem instances_putInstances :
    (f.putTopic topic { f.topicDir topic with instances := slots }).instances topic' =
      if topic' = topic then slots else f.instances topic' := by
  unfold instances
  rw [topicDir_putTopic]
  split <;> rfl

end FileStore

/-! ### What is read from related stores -/

namespace Refines

variable {f : FileStore} {s : InMemoryStore} {topic : String} {key : KeyHash} {slot : Slot}

theorem empty (rootPath : String) (c : Contract) :
    Refines (.opened rootPath c) (.withDefaultContract c) where
  defaultContract := rfl
  contracts := rfl
  metas topic := rfl
  instances topic := rfl
  stored topic key slot h := by cases h

section

variable (h : Refines f s)
include h

theorem contractFor_eq : f.contractFor topic = .ok (s.contractFor topic) := by
  unfold FileStore.contractFor InMemoryStore.contractFor
  rw [h.metas, h.contracts, h.defaultContract]
  cases s.topicMeta.get? topic <;> rfl

theorem getD_instance :
    ((f.instances topic).get? key).getD {} = toDir (((s.slots topic).get? key).getD {}) := by
  rw [h.instances, get?_map]
  cases (s.slots topic).get? key <;> rfl

theorem listSamples_eq :
    f.listSamples topic key =
      (((s.slots topic).get? key).getD {}).samples.map encodeSample := by
  rw [FileStore.listSamples, h.getD_instance]
  rfl

theorem stored_getD :
    (((s.slots topic).get? key).getD {}).StoredAs topic key := by
  cases hget : (s.slots topic).get? key with
  | none =>
    constructor
    · intro n sample hn
      cases hn
    · intro t ht
      cases ht
  | some slot => exact h.stored topic key slot hget

theorem samplesOf_eq :
    f.samplesOf topic key = (((s.slots topic).get? key).getD {}).samples.values := by
  rw [FileStore.samplesOf, h.listSamples_eq, SortedMap.values]
  have hstored : (((s.slots topic).get? key).getD {}).StoredAs topic key := h.stored_getD
  generalize ((s.slots topic).get? key).getD {} = slot at hstored
  show (slot.samples.entries.map _).filterMap _ = _
  rw [List.filterMap_map, ← List.filterMap_eq_map]
  refine List.filterMap_congr fun e he => ?_
  obtain ⟨⟨ht, hk, hn⟩, hfits⟩ := hstored.samples e.1 e.2 (get?_eq_some.mpr he)
  show readSample topic key e.1 (encodeSample e.2) = some e.2
  rw [← ht, ← hk, ← hn]
  exact readSample_encodeSample hfits

theorem keys_eq : (f.instances topic).keys = (s.slots topic).keys := by
  rw [h.instances, keys_map]

theorem contains_eq :
    (f.instances topic).contains key = (s.slots topic).contains key := by
  rw [h.instances, contains_map]

theorem size_eq : (f.instances topic).size = s.topicInstanceCount topic := by
  rw [h.instances, size_map]
  rfl

end

theorem map_keys {α : Type} (g : Slot → α) :
    ((s.slots topic).keys.map fun key => g (((s.slots topic).get? key).getD {})) =
      (s.slots topic).values.map g := by
  have hget := congrArg (List.map fun slot : Option Slot => g (slot.getD {}))
    (keys_map_get? (s.slots topic))
  rw [List.map_map, List.map_map] at hget
  exact hget

theorem flatMap_keys {α : Type} (g : Slot → List α) :
    ((s.slots topic).keys.flatMap fun key => g (((s.slots topic).get? key).getD {})) =
      (s.slots topic).values.flatMap g := by
  rw [List.flatMap_def, List.flatMap_def, map_keys]

theorem topicSampleCount_eq (h : Refines f s) :
    f.topicSampleCount topic = s.topicSampleCount topic := by
  unfold FileStore.topicSampleCount InMemoryStore.topicSampleCount
  rw [h.keys_eq, ← map_keys]
  simp [h.listSamples_eq, size_map]

variable {sample : DurabilitySample}

theorem isResend_eq (h : Refines f s) :
    (f.listSamples sample.topic sample.instanceKey).contains sample.sequence =
      s.isResend sample := by
  rw [h.listSamples_eq, contains_map, InMemoryStore.isResend]
  cases (s.slots sample.topic).get? sample.instanceKey <;> rfl

theorem stats_eq (h : Refines f s) : f.stats topic = s.stats topic := by
  unfold FileStore.stats InMemoryStore.stats
  simp only [h.samplesOf_eq, h.keys_eq]
  congr 1
  · rw [map_keys fun slot => slot.samples.values.length]
    simp [InMemoryStore.topicSampleCount, SortedMap.values, SortedMap.size]
  · exact h.size_eq
  · rw [InMemoryStore.topicSamples, List.map_flatMap,
      flatMap_keys fun slot => slot.samples.values.map (·.payload.length)]

theorem query_eq (h : Refines f s) {sel : Selector} : f.query topic sel = s.query topic sel := by
  unfold FileStore.query InMemoryStore.query
  simp only [h.samplesOf_eq, h.keys_eq]
  congr 1
  cases hkey : sel.instanceKey with
  | none =>
    rw [InMemoryStore.topicSamples, List.filter_flatMap,
      flatMap_keys fun slot => slot.samples.values.filter sel.accepts]
  | some key =>
    have hother : ∀ key', key' ≠ key → ∀ sample ∈
        (((s.slots topic).get? key').getD {}).samples.values, ¬sel.accepts sample = true := by
      intro key' hne sample hsample haccepts
      obtain ⟨n, hn⟩ := mem_values.mp hsample
      have hfiled := (h.stored_getD.samples n sample hn).1.2.1
      simp only [Selector.accepts, hkey, Option.all_some, Bool.and_eq_true, decide_eq_true_eq]
        at haccepts
      exact hne (hfiled.symm.trans haccepts.1.1.1.1.1)
    rw [InMemoryStore.topicSamples, List.filter_flatMap,
      ← flatMap_keys fun slot => slot.samples.values.filter sel.accepts]
    refine Eq.trans (List.flatMap_singleton _ _) (Eq.symm (flatMap_eq_of_only
      (g := fun key => (((s.slots topic).get? key).getD {}).samples.values.filter sel.accepts)
      (keys_nodup (s.slots topic)) ?_ ?_))
    · intro key' _ hne
      exact List.filter_eq_nil_iff.mpr (hother key' hne)
    · intro hnone
      have hget : (s.slots topic).get? key = none :=
        Option.eq_none_iff_forall_ne_some.mpr fun slot hslot =>
          hnone (mem_keys.mpr ⟨slot, hslot⟩)
      rw [hget]
      rfl

theorem replayForTopic_eq (h : Refines f s) : f.replayForTopic topic = s.replayForTopic topic := by
  unfold FileStore.replayForTopic InMemoryStore.replayForTopic
  rw [h.topicSampleCount_eq]
  congr 1
  exact funext fun sel => h.query_eq

/-! ### Calls that change a directory -/

theorem put (h : Refines f s) (hslot : slot.StoredAs topic key) :
    Refines (f.putInstance topic key (toDir slot)) (s.putSlot topic key slot) where
  defaultContract := h.defaultContract
  contracts := h.contracts
  metas t := FileStore.readMeta_putInstances.trans (h.metas t)
  instances t := by
    rw [FileStore.putInstance, FileStore.instances_putInstances, slots_putSlot]
    split
    · rw [h.instances, map_insert]
    · exact h.instances t
  stored t k slot' hget := by
    rw [slots_putSlot] at hget
    split at hget
    · next ht =>
      subst ht
      rw [get?_insert] at hget
      split at hget
      · next hk =>
        subst hk
        obtain rfl := Option.some.inj hget
        exact hslot
      · exact h.stored _ k slot' hget
    · exact h.stored t k slot' hget

theorem unregister (h : Refines f s) {now : SystemTime} (hnow : Representable now) :
    Refines (f.unregister topic key now) (s.unregister topic key now) := by
  unfold FileStore.unregister InMemoryStore.unregister
  rw [h.instances, get?_map]
  cases hget : (s.slots topic).get? key with
  | none => exact h
  | some slot =>
    have hslot : Slot.StoredAs topic key { slot with unregisteredAt := some now } := by
      refine ⟨(h.stored topic key slot hget).samples, fun t ht => ?_⟩
      obtain rfl := Option.some.inj ht
      exact hnow
    exact h.put hslot

theorem setContract (h : Refines f s) (c : Contract) :
    Refines (f.setContract topic c) (s.setContract topic c) where
  defaultContract := h.defaultContract
  contracts := by
    show f.contracts.insert topic c = s.contracts.insert topic c
    rw [h.contracts]
  metas := h.metas
  instances := h.instances
  stored := h.stored

theorem setTopicMeta (h : Refines f s) {m : TopicMeta} (hm : m.Storable) :
    Refines (f.setTopicMeta topic m) (s.setTopicMeta topic m) where
  defaultContract := h.defaultContract
  contracts := h.contracts
  metas t := by
    show (f.setTopicMeta topic m).readMeta t = .ok ((s.topicMeta.insert topic m).get? t)
    have hmetas := h.metas t
    unfold FileStore.readMeta at hmetas ⊢
    rw [get?_insert, FileStore.setTopicMeta, FileStore.topicDir_putTopic]
    by_cases ht : t = topic
    · simp only [if_pos ht, decodeTopicMeta_encodeTopicMeta hm]
    · rw [if_neg ht, if_neg ht]
      exact hmetas
  instances t := by
    rw [FileStore.instances, FileStore.setTopicMeta, FileStore.topicDir_putTopic]
    split
    · next ht =>
      subst ht
      exact h.instances t
    · exact h.instances t
  stored := h.stored

/-- The oldest number that is kept, or a new one above it, where the instance is full. -/
def TrimsAlike (s : InMemoryStore) (sample : DurabilitySample) : Prop :=
  let c := s.contractFor sample.topic
  let held := (((s.slots sample.topic).get? sample.instanceKey).getD {}).samples
  c.historyKind = .keepLast → ∀ oldest, c.effectiveDepth ≤ held.size →
    held.keys[held.size - c.effectiveDepth]? = some oldest →
    sample.sequence = oldest ∨ oldest < sample.sequence ∧ held.contains sample.sequence = false

theorem storedAs_insert (h : slot.StoredAs topic key) (ht : sample.topic = topic)
    (hk : sample.instanceKey = key) (hfits : sample.Storable) :
    Slot.StoredAs topic key
      { slot with samples := slot.samples.insert sample.sequence sample } := by
  refine ⟨fun n held hn => ?_, h.mark⟩
  rw [get?_insert] at hn
  split at hn
  · next heq =>
    obtain rfl := Option.some.inj hn
    exact ⟨⟨ht, hk, heq.symm⟩, hfits⟩
  · exact h.samples n held hn

theorem storedAs_dropFirst (h : slot.StoredAs topic key) (k : Nat) :
    Slot.StoredAs topic key { slot with samples := slot.samples.dropFirst k } := by
  refine ⟨fun n held hn => h.samples n held ?_, h.mark⟩
  exact get?_eq_some.mpr (List.mem_of_mem_drop (get?_eq_some.mp hn))

theorem putSlot_putSlot {slot' : Slot} :
    (s.putSlot topic key slot).putSlot topic key slot' = s.putSlot topic key slot' := by
  have hinner : ((s.putSlot topic key slot).slots topic).insert key slot' =
      (s.slots topic).insert key slot' := by
    refine ext_get? fun k => ?_
    rw [slots_putSlot_self, get?_insert, get?_insert,
      get?_insert]
    split <;> rfl
  unfold InMemoryStore.putSlot at hinner ⊢
  simp only [InMemoryStore.mk.injEq, true_and]
  refine ext_get? fun t => ?_
  rw [get?_insert, get?_insert, get?_insert]
  split
  · exact congrArg some hinner
  · rfl

theorem store (h : Refines f s) (hfits : sample.Storable) (htrim : TrimsAlike s sample) :
    Refines (f.store sample).2 (s.store sample).2 ∧ (f.store sample).1 = (s.store sample).1 := by
  have hslot : (((s.slots sample.topic).get? sample.instanceKey).getD {}).StoredAs sample.topic
      sample.instanceKey := h.stored_getD
  unfold FileStore.store InMemoryStore.store
  simp only [h.contractFor_eq, h.isResend_eq, h.contains_eq, h.size_eq, h.topicSampleCount_eq,
    h.getD_instance]
  rw [Bool.and_right_comm]
  generalize hgen : ((s.slots sample.topic).get? sample.instanceKey).getD {} = slot at hslot
  have hdir : Refines (f.putInstance sample.topic sample.instanceKey (toDir slot))
      (s.putSlot sample.topic sample.instanceKey slot) := h.put hslot
  have hput : ∀ slot' : Slot, slot'.StoredAs sample.topic sample.instanceKey →
      Refines ((f.putInstance sample.topic sample.instanceKey (toDir slot)).putInstance sample.topic
        sample.instanceKey (toDir slot')) (s.putSlot sample.topic sample.instanceKey slot') := by
    intro slot' hslot'
    have htwice := hdir.put hslot'
    rw [putSlot_putSlot] at htwice
    exact htwice
  by_cases hsamples : (!s.isResend sample && (s.contractFor sample.topic).samplesBounded &&
      decide (s.topicSampleCount sample.topic ≥ asUsize (s.contractFor sample.topic).maxSamples) &&
      decide ((s.contractFor sample.topic).historyKind = .keepAll)) = true
  · rw [if_pos hsamples, if_pos hsamples]
    exact ⟨h, rfl⟩
  rw [if_neg hsamples, if_neg hsamples]
  by_cases hinstances : (!(s.slots sample.topic).contains sample.instanceKey &&
      (s.contractFor sample.topic).instancesBounded &&
      decide (s.topicInstanceCount sample.topic ≥
        asUsize (s.contractFor sample.topic).maxInstances)) = true
  · rw [if_pos hinstances, if_pos hinstances]
    exact ⟨h, rfl⟩
  rw [if_neg hinstances, if_neg hinstances]
  unfold pushIntoSlot
  cases hkind : (s.contractFor sample.topic).historyKind with
  | keepLast =>
    have hoverfull := htrim hkind
    rw [hgen] at hoverfull
    have hfiles : ((slot.samples.insert sample.sequence sample).dropFirst
        ((slot.samples.insert sample.sequence sample).size -
          (s.contractFor sample.topic).effectiveDepth)).map encodeSample =
        ((toDir slot).files.dropFirst ((toDir slot).files.size + 1 -
          (s.contractFor sample.topic).effectiveDepth)).insert sample.sequence
            (encodeSample sample) := by
      rw [trim_eq (Contract.effectiveDepth_pos _) hoverfull, map_insert,
        map_dropFirst, toDir, size_map]
    refine ⟨?_, rfl⟩
    rw [← hfiles]
    exact hput _ (storedAs_dropFirst (storedAs_insert hslot rfl rfl hfits) _)
  | keepAll =>
    have hresend : s.isResend sample = slot.samples.contains sample.sequence := by
      rw [← h.isResend_eq, h.listSamples_eq, hgen, contains_map]
    have hsize : (toDir slot).files.size = slot.samples.size := size_map _ _
    simp only [hresend, hsize]
    split
    · exact ⟨hdir, rfl⟩
    · refine ⟨?_, rfl⟩
      have hfiles : (slot.samples.insert sample.sequence sample).map encodeSample =
          (toDir slot).files.insert sample.sequence (encodeSample sample) :=
        map_insert _ _ _ _
      rw [← hfiles]
      exact hput _ (storedAs_insert hslot rfl rfl hfits)

end Refines

namespace FileStore

variable {f : FileStore} {contracts : String → Contract}

def leftOf (f : FileStore) (contracts : String → Contract) (now : SystemTime) (topic : String) :
    SortedMap KeyHash InstanceDir :=
  (f.instances topic).filter fun _ dir => !isDue (contracts topic).cleanupDelay now dir

def dueOf (f : FileStore) (contracts : String → Contract) (now : SystemTime) (topic : String) :
    Nat :=
  ((f.instances topic).filter fun _ dir => isDue (contracts topic).cleanupDelay now dir).size

theorem cleanupTopics_eq {topics : List String} (hnodup : topics.Nodup)
    (hcontracts : ∀ t, f.contractFor t = .ok (contracts t)) (now : SystemTime) (removed : Nat) :
    (cleanupTopics now topics f removed).1 =
      .ok (removed + (topics.map (f.dueOf contracts now)).sum) ∧
    (cleanupTopics now topics f removed).2.contracts = f.contracts ∧
    (cleanupTopics now topics f removed).2.defaultContract = f.defaultContract ∧
    (∀ t, (cleanupTopics now topics f removed).2.readMeta t = f.readMeta t) ∧
    ∀ t, (cleanupTopics now topics f removed).2.instances t =
      if t ∈ topics then f.leftOf contracts now t else f.instances t := by
  induction topics generalizing f removed with
  | nil => exact ⟨rfl, rfl, rfl, fun _ => rfl, fun _ => rfl⟩
  | cons topic rest ih =>
    obtain ⟨hout, hrest⟩ := List.nodup_cons.mp hnodup
    rw [cleanupTopics, hcontracts]
    simp only
    generalize hleft : ((f.instances topic).filter fun _ dir =>
      !isDue (contracts topic).cleanupDelay now dir) = left
    have hcontracts' :
        ∀ t, (f.putTopic topic { f.topicDir topic with instances := left }).contractFor
        t = .ok (contracts t) := fun t => contractFor_putInstances.trans (hcontracts t)
    have hdue : ∀ t ∈ rest, (f.putTopic topic { f.topicDir topic with instances := left }).dueOf
        contracts now t = f.dueOf contracts now t := by
      intro t ht
      have hne : ¬t = topic := fun h => hout (h ▸ ht)
      rw [dueOf, instances_putInstances, if_neg hne, dueOf]
    obtain ⟨hcount, hset, hdefault, hmeta, hinstances⟩ := ih hrest hcontracts'
      (removed + f.dueOf contracts now topic)
    refine ⟨?_, hset, hdefault, fun t => (hmeta t).trans readMeta_putInstances, fun t => ?_⟩
    · refine hcount.trans ?_
      rw [List.map_congr_left hdue, List.map_cons, List.sum_cons, Nat.add_assoc]
    · refine (hinstances t).trans ?_
      by_cases ht : t = topic
      · subst ht
        rw [if_neg hout, if_pos List.mem_cons_self, instances_putInstances, if_pos rfl]
        exact hleft.symm
      · rw [leftOf, instances_putInstances, if_neg ht]
        by_cases hin : t ∈ rest
        · rw [if_pos hin, if_pos (List.mem_cons_of_mem _ hin)]
          rfl
        · have hnot : t ∉ topic :: rest := fun hmem => (List.mem_cons.mp hmem).elim ht hin
          rw [if_neg hin, if_neg hnot]

end FileStore

namespace Refines

variable {f : FileStore} {s : InMemoryStore} {topic : String} {now : SystemTime}

theorem isDue_eq {key : KeyHash} {slot : Slot} (hslot : slot.StoredAs topic key) :
    FileStore.isDue (s.contractFor topic).cleanupDelay now (toDir slot) =
      s.isDue topic now slot := by
  unfold FileStore.isDue InMemoryStore.isDue toDir
  cases hmark : slot.unregisteredAt with
  | none => rfl
  | some t =>
    rw [Option.map_some, Option.any_some, Option.any_some, timeOf_nanosOf (hslot.mark t hmark)]

theorem instances_of_not_mem (hnot : topic ∉ f.root.keys) : f.instances topic = .empty := by
  have hnone : f.root.get? topic = none := Option.eq_none_iff_forall_ne_some.mpr fun d hd =>
    hnot (mem_keys.mpr ⟨d, hd⟩)
  rw [FileStore.instances, FileStore.topicDir, hnone]
  rfl

theorem leftOf_eq (h : Refines f s) :
    f.leftOf s.contractFor now topic = ((s.cleanup now).2.slots topic).map toDir := by
  rw [FileStore.leftOf, h.instances, slots_cleanup]
  refine (map_filter _ _ fun key slot hslot => ?_).symm
  rw [isDue_eq (h.stored topic key slot hslot)]

theorem dueOf_eq (h : Refines f s) :
    f.dueOf s.contractFor now topic =
      ((s.slots topic).filter fun _ slot => s.isDue topic now slot).size := by
  have hmap : ((s.slots topic).filter fun _ slot => s.isDue topic now slot).map toDir =
      ((s.slots topic).map toDir).filter fun _ dir =>
        FileStore.isDue (s.contractFor topic).cleanupDelay now dir :=
    map_filter _ _ fun key slot hslot => isDue_eq (h.stored topic key slot hslot)
  rw [FileStore.dueOf, h.instances, ← hmap, size_map]

theorem sum_dueOf (h : Refines f s) :
    (f.root.keys.map (f.dueOf s.contractFor now)).sum = (s.cleanup now).1 := by
  have hdue : f.dueOf s.contractFor now = fun topic =>
      ((s.slots topic).filter fun _ slot => s.isDue topic now slot).size :=
    funext fun topic => h.dueOf_eq
  have hentries : (s.cleanup now).1 = (s.byKey.keys.map (f.dueOf s.contractFor now)).sum := by
    rw [hdue, SortedMap.keys, List.map_map]
    refine congrArg List.sum (List.map_congr_left fun e he => ?_)
    have hslots : s.slots e.1 = e.2 := by
      rw [InMemoryStore.slots, get?_eq_some.mpr he]
      rfl
    simp [hslots]
  rw [hentries]
  refine sum_map_eq_of_support (keys_nodup _) (keys_nodup _) ?_
  intro topic hne
  have hmem : topic ∈ f.root.keys := by
    by_contra hnot
    refine hne ?_
    rw [FileStore.dueOf, instances_of_not_mem hnot]
    rfl
  have hmem' : topic ∈ s.byKey.keys := by
    by_contra hnot
    refine hne ?_
    have hnone : s.byKey.get? topic = none := Option.eq_none_iff_forall_ne_some.mpr fun d hd =>
      hnot (mem_keys.mpr ⟨d, hd⟩)
    rw [h.dueOf_eq, InMemoryStore.slots, hnone]
    rfl
  exact iff_of_true hmem hmem'

theorem cleanup (h : Refines f s) :
    Refines (f.cleanup now).2 (s.cleanup now).2 ∧ (f.cleanup now).1 = .ok (s.cleanup now).1 := by
  obtain ⟨hcount, hset, hdefault, hmeta, hinstances⟩ :=
    FileStore.cleanupTopics_eq (keys_nodup f.root) (fun t => h.contractFor_eq) now 0
  refine ⟨⟨hdefault.trans h.defaultContract, hset.trans h.contracts,
    fun t => (hmeta t).trans (h.metas t), fun t => ?_, fun t key slot hget => ?_⟩, ?_⟩
  · refine (hinstances t).trans ?_
    rw [← h.leftOf_eq]
    split
    · rfl
    · next hnot =>
      rw [FileStore.leftOf, instances_of_not_mem hnot]
      rfl
  · rw [slots_cleanup, get?_filter, Option.filter_eq_some_iff] at hget
    exact h.stored t key slot hget.1
  · refine hcount.trans ?_
    rw [Nat.zero_add, h.sum_dueOf]

end Refines

/-- A call that both stores answer alike: times, numbers, type names and contracts fit the files,
and KEEP_LAST trims alike. -/
def AnsweredAlike (s : InMemoryStore) : Call → Prop
  | .setContract topic _ => topic ≠ ""
  | .setTopicMeta topic m => topic ≠ "" ∧ m.Storable
  | .topicMeta topic => topic ≠ ""
  | .store sample => sample.topic ≠ "" ∧ sample.Storable ∧ Refines.TrimsAlike s sample
  | .query topic _ => topic ≠ ""
  | .unregister topic _ now => topic ≠ "" ∧ Representable now
  | .cleanup _ => True
  | .stats topic => topic ≠ ""
  | .replayForTopic topic => topic ≠ ""

theorem Refines.call {f : FileStore} {s : InMemoryStore} {call : Call} (h : Refines f s)
    (hok : AnsweredAlike s call) :
    Refines (f.call call).1 (s.call call).1 ∧ (f.call call).2 = (s.call call).2 := by
  cases call with
  | setContract topic c => exact ⟨h.setContract c, rfl⟩
  | setTopicMeta topic m => exact ⟨h.setTopicMeta hok.2, rfl⟩
  | topicMeta topic =>
    refine ⟨h, ?_⟩
    simp only [FileStore.call, h.metas]
    rfl
  | store sample =>
    obtain ⟨hnext, hresult⟩ := h.store hok.2.1 hok.2.2
    exact ⟨hnext, congrArg Reply.ofResult hresult⟩
  | query topic sel => exact ⟨h, congrArg Reply.page h.query_eq⟩
  | unregister topic key now => exact ⟨h.unregister hok.2, rfl⟩
  | cleanup now =>
    have hclean : Refines (f.cleanup now).2 (s.cleanup now).2 ∧
        (f.cleanup now).1 = .ok (s.cleanup now).1 := h.cleanup
    obtain ⟨hnext, hresult⟩ := hclean
    refine ⟨hnext, ?_⟩
    simp only [FileStore.call, hresult]
    rfl
  | stats topic => exact ⟨h, congrArg Reply.stats h.stats_eq⟩
  | replayForTopic topic => exact ⟨h, congrArg Reply.samples h.replayForTopic_eq⟩

/-- From empty stores with the same default contract, every sequence of such calls is answered
alike, call by call. -/
theorem file_store_answers_alike {rootPath : String} {c : Contract} {calls : List Call}
    (hok : RunOk InMemoryStore.call AnsweredAlike (.withDefaultContract c) calls) :
    (run FileStore.call (.opened rootPath c) calls).2 =
      (run InMemoryStore.call (.withDefaultContract c) calls).2 :=
  (run_simulates_of_ok (fun _ _ _ h hok => h.call hok) (Refines.empty rootPath c) hok).2

/-! ### A number that comes twice or late -/

namespace Fixture

def keepLastTwo : Contract :=
  ⟨.keepLast, 2, lengthUnlimited, lengthUnlimited, lengthUnlimited, 0⟩

def resent : List Call :=
  [.store (sampleOf 1 1), .store (sampleOf 1 2), .store (sampleOf 1 2), .stats "t"]

def late : List Call :=
  [.store (sampleOf 1 5), .store (sampleOf 1 6), .store (sampleOf 1 1), .replayForTopic "t"]

/-- The file store has lost the sample 1 where the number 2 comes twice, and 5 where 1 comes late,
which it keeps. -/
theorem file_store_loses_sample :
    ((run InMemoryStore.call (.withDefaultContract keepLastTwo) resent).1.topicSamples "t").map
      (·.sequence) = [1, 2] ∧
    ((run FileStore.call (.opened "/" keepLastTwo) resent).1.replayForTopic "t").map
      (·.sequence) = [2] ∧
    (run FileStore.call (.opened "/" keepLastTwo) resent).2 ≠
      (run InMemoryStore.call (.withDefaultContract keepLastTwo) resent).2 ∧
    ((run InMemoryStore.call (.withDefaultContract keepLastTwo) late).1.topicSamples "t").map
      (·.sequence) = [5, 6] ∧
    ((run FileStore.call (.opened "/" keepLastTwo) late).1.replayForTopic "t").map
      (·.sequence) = [1, 6] := by
  refine ⟨by decide +kernel, by decide +kernel, fun heq => ?_, by decide +kernel,
    by decide +kernel⟩
  have hreplies := congrArg (List.map Prod.snd) heq
  exact absurd hreplies (by decide +kernel)

def ascending : List Call :=
  [.store (sampleOf 1 1), .store (sampleOf 1 2), .store (sampleOf 1 3), .stats "t",
    .unregister "t" (.repeated 1) 5, .cleanup 5, .replayForTopic "t"]

theorem storable_sampleOf (k : UInt8) {n : Nat} (hn : n < 10) : (sampleOf k n).Storable := by
  refine ⟨show Representable 0 by decide, ?_, ?_⟩
  · show -9223372036854775808 ≤ (n : Int)
    omega
  · show (n : Int) < 9223372036854775808
    omega

theorem ascending_answers_alike :
    (run FileStore.call (.opened "/" keepLastTwo) ascending).2 =
      (run InMemoryStore.call (.withDefaultContract keepLastTwo) ascending).2 := by
  have hname : "t" ≠ "" := by decide
  refine file_store_answers_alike ⟨⟨hname, storable_sampleOf 1 (by decide), ?_⟩,
    ⟨hname, storable_sampleOf 1 (by decide), ?_⟩,
    ⟨hname, storable_sampleOf 1 (by decide), ?_⟩, hname, ⟨hname, by decide⟩, trivial, hname,
    trivial⟩
  · intro _ oldest hfull
    exact absurd hfull (by decide +kernel)
  · intro _ oldest hfull
    exact absurd hfull (by decide +kernel)
  · intro _ oldest _ hat
    have hone : some 1 = some oldest := Eq.trans (by decide +kernel) hat
    obtain rfl := Option.some.inj hone
    exact Or.inr (by decide +kernel)

end Fixture

end ZeroDds.Durability
