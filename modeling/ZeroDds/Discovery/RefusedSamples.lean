/-
Samples that do not decode.
-/
import ZeroDds.Discovery.SedpStack

namespace ZeroDds.Discovery

open Rtps

section Partition

variable {D : Type}

def SedpDelta.pushAll (delta : SedpDelta D) (items : List (SedpItem D)) : SedpDelta D :=
  items.foldl SedpDelta.push delta

def itemsOf (read : ReadSample D) (samples : List DeliveredSample) : List (SedpItem D) :=
  samples.filterMap fun s => (read s).toOption

variable {read : ReadSample D} {samples : List DeliveredSample}

theorem partitionFrom_of_all (hall : ∀ s ∈ samples, (read s).toBool = true) (delta : SedpDelta D) :
    partitionFrom read delta samples = .ok (delta.pushAll (itemsOf read samples)) := by
  induction samples generalizing delta with
  | nil => rfl
  | cons s rest ih =>
    have hrest : ∀ s ∈ rest, (read s).toBool = true := fun x hx =>
      hall x (List.mem_cons_of_mem _ hx)
    have hs := hall s List.mem_cons_self
    unfold partitionFrom
    cases hread : read s with
    | error e => rw [hread] at hs; cases hs
    | ok item =>
      have hitems : itemsOf read (s :: rest) = item :: itemsOf read rest := by
        simp [itemsOf, hread, Except.toOption]
      rw [hitems]
      exact ih hrest _

theorem partitionFrom_of_not_all (hsome : ∃ s ∈ samples, (read s).toBool = false)
    (delta : SedpDelta D) : ∃ e, partitionFrom read delta samples = .error e := by
  induction samples generalizing delta with
  | nil =>
    obtain ⟨s, hs, -⟩ := hsome
    cases hs
  | cons s rest ih =>
    unfold partitionFrom
    cases hread : read s with
    | error e => exact ⟨e, rfl⟩
    | ok item =>
      refine ih ?_ _
      obtain ⟨x, hx, hbad⟩ := hsome
      rcases List.mem_cons.mp hx with rfl | hx
      · rw [hread] at hbad
        cases hbad
      · exact ⟨x, hx, hbad⟩

def announcedOf (items : List (SedpItem D)) : List (Announced D) :=
  items.filterMap fun
    | .announced a => some a
    | _ => none

def disposedOf (items : List (SedpItem D)) : List Guid :=
  items.filterMap fun
    | .disposed g => some g
    | _ => none

theorem pushAll_eq (delta : SedpDelta D) (items : List (SedpItem D)) :
    delta.pushAll items =
      ⟨delta.added ++ announcedOf items, delta.removed ++ disposedOf items⟩ := by
  induction items generalizing delta with
  | nil => simp [SedpDelta.pushAll, announcedOf, disposedOf]
  | cons item items ih =>
    have hcons : delta.pushAll (item :: items) = (delta.push item).pushAll items := rfl
    rw [hcons, ih]
    cases item <;> simp [SedpDelta.push, announcedOf, disposedOf]

variable {items : List (SedpItem D)}

theorem mem_announcedOf {a : Announced D} :
    a ∈ announcedOf items ↔ SedpItem.announced a ∈ items := by
  unfold announcedOf
  rw [List.mem_filterMap]
  constructor
  · rintro ⟨item, hitem, heq⟩
    cases item <;> simp at heq
    rw [← heq]
    exact hitem
  · intro h
    exact ⟨_, h, rfl⟩

theorem mem_disposedOf {g : Guid} : g ∈ disposedOf items ↔ SedpItem.disposed g ∈ items := by
  unfold disposedOf
  rw [List.mem_filterMap]
  constructor
  · rintro ⟨item, hitem, heq⟩
    cases item <;> simp at heq
    rw [← heq]
    exact hitem
  · intro h
    exact ⟨_, h, rfl⟩

theorem mem_itemsOf {item : SedpItem D} :
    item ∈ itemsOf read samples ↔ ∃ s ∈ samples, read s = .ok item := by
  unfold itemsOf
  rw [List.mem_filterMap]
  refine exists_congr fun s => and_congr_right fun _ => ?_
  cases read s <;> simp [Except.toOption]

end Partition

section Absorb

variable {D : Type} [Endpoint D]

theorem absorbAdded_reports_nothing (now : Nat) (t : EndpointTable D) (evicted : Nat)
    (added : List (Announced D)) :
    ((absorbAdded now t evicted added).2.2 = [] ↔
      ∀ a ∈ added, t.handedNewer a.data a.sequence = true) ∧
    ((∀ a ∈ added, t.handedNewer a.data a.sequence = true) →
      absorbAdded now t evicted added = (t, evicted, [])) := by
  induction added with
  | nil => exact ⟨by simp [absorbAdded], fun _ => rfl⟩
  | cons a rest ih =>
    unfold absorbAdded EndpointTable.insertAnnounced
    by_cases hnewer : t.handedNewer a.data a.sequence = true
    · simp only [hnewer, if_true, List.mem_cons, forall_eq_or_imp, true_and]
      exact ih
    · simp only [hnewer, Bool.false_eq_true, if_false, List.mem_cons, forall_eq_or_imp, false_and,
        iff_false, false_implies, and_true]
      exact List.cons_ne_nil _ _

variable {T : Type}

theorem foldl_removeTopic_nothing (m : SortedMap Guid T) (removed : List Guid)
    (h : ∀ g ∈ removed, m.get? g = none) :
    removed.foldl SedpStack.removeTopic (m, []) = (m, []) := by
  induction removed with
  | nil => rfl
  | cons g rest ih =>
    rw [List.foldl_cons, SedpStack.removeTopic, h g List.mem_cons_self]
    exact ih fun x hx => h x (List.mem_cons_of_mem _ hx)

theorem foldl_removeTopic_reports (m : SortedMap Guid T) (removed : List Guid) :
    (removed.foldl SedpStack.removeTopic (m, [])).2 = [] ↔ ∀ g ∈ removed, m.get? g = none := by
  have hgrow : ∀ (removed : List Guid) (acc : SortedMap Guid T × List T), acc.2 ≠ [] →
      (removed.foldl SedpStack.removeTopic acc).2 ≠ [] := by
    intro removed
    induction removed with
    | nil => exact fun acc h => h
    | cons g rest ih =>
      intro acc h
      apply ih
      unfold SedpStack.removeTopic
      split
      · exact h
      · simp
  constructor
  · intro hnil
    induction removed with
    | nil => simp
    | cons g rest ih =>
      rw [List.foldl_cons] at hnil
      cases hget : m.get? g with
      | none =>
        rw [SedpStack.removeTopic, hget] at hnil
        intro x hx
        rcases List.mem_cons.mp hx with rfl | hx
        · exact hget
        · exact ih hnil x hx
      | some gone =>
        rw [SedpStack.removeTopic, hget] at hnil
        exact absurd hnil (hgrow rest _ (by simp))
  · intro h
    rw [foldl_removeTopic_nothing m removed h]

end Absorb

namespace SedpStack

variable {P S T : Type} [Endpoint P] [Endpoint S] [Endpoint T]

/-- The same endpoints and topics known, and the same ones reported as new and as gone. -/
structure SameDiscovery (a b : SedpStack P S T × SedpEvents P S T) : Prop where
  cache : a.1.cache = b.1.cache
  topics : a.1.topics = b.1.topics
  new_publications : a.2.new_publications = b.2.new_publications
  new_subscriptions : a.2.new_subscriptions = b.2.new_subscriptions
  removed_publications : a.2.removed_publications = b.2.removed_publications
  removed_subscriptions : a.2.removed_subscriptions = b.2.removed_subscriptions
  new_topics : a.2.new_topics = b.2.new_topics
  removed_topics : a.2.removed_topics = b.2.removed_topics

omit [Endpoint P] [Endpoint S] [Endpoint T] in
theorem SameDiscovery.rfl {a : SedpStack P S T × SedpEvents P S T} : SameDiscovery a a :=
  ⟨Eq.refl _, Eq.refl _, Eq.refl _, Eq.refl _, Eq.refl _, Eq.refl _, Eq.refl _, Eq.refl _⟩

variable (codec : SedpCodec P S T)

def decodable (r : SedpReader) (sender : VendorId) (s : DeliveredSample) : Bool :=
  match r with
  | .publications | .securePublications => (readEndpoint codec.publication s).toBool
  | .subscriptions | .secureSubscriptions => (readEndpoint codec.subscription s).toBool
  | .topics => (readTopic codec.topic sender s).toBool

/-- An item that leaves the endpoints of its kind as they are: an announcement older than the one
an in-process peer handed over, or a dispose that names no endpoint. -/
def passedOverEndpoint {D : Type} [Endpoint D] (t : EndpointTable D) : SedpItem D → Bool
  | .announced a => t.handedNewer a.data a.sequence
  | .disposed _ => false
  | .nothing => true

/-- An item that leaves the topics table as it is: a dispose of a topic that is not held. -/
def passedOverTopic (topics : SortedMap Guid T) : SedpItem T → Bool
  | .announced _ => false
  | .disposed g => (topics.get? g).isNone
  | .nothing => true

def passedOver (st : SedpStack P S T) (r : SedpReader) (sender : VendorId) (s : DeliveredSample) :
    Bool :=
  match r with
  | .publications | .securePublications =>
    (readEndpoint codec.publication s).toOption.all (passedOverEndpoint st.cache.publications)
  | .subscriptions | .secureSubscriptions =>
    (readEndpoint codec.subscription s).toOption.all (passedOverEndpoint st.cache.subscriptions)
  | .topics => (readTopic codec.topic sender s).toOption.all (passedOverTopic st.topics)

/-- The submessage with its undecodable samples left out of what the reader released. -/
def handleLeavingOut (now : Nat) (acc : SedpStack P S T × SedpEvents P S T) (w : Walked) :
    SedpStack P S T × SedpEvents P S T :=
  match acc.1.target w with
  | none => acc
  | some (r, writer) =>
    let (reader, samples) := receive (acc.1.readers r) w.sourceGuidPrefix now w.sub
    (acc.1.setReader r reader).absorb codec r writer w.source_vendor_id now
      (acc.1.noteUnmatched r writer w.sub acc.2)
      (samples.filter (decodable codec r w.source_vendor_id))

def released (st : SedpStack P S T) (now : Nat) (w : Walked) (r : SedpReader) :
    List DeliveredSample :=
  (receive (st.readers r) w.sourceGuidPrefix now w.sub).2

section Batch

variable {D : Type} [Endpoint D] {read : ReadSample D} {samples : List DeliveredSample}

omit [Endpoint D] in
theorem all_read_iff {passed : SedpItem D → Bool} :
    (∀ s ∈ samples, ((read s).toOption.all passed) = true) ↔
      ∀ item ∈ itemsOf read samples, passed item = true := by
  constructor
  · intro h item hmem
    obtain ⟨s, hs, hread⟩ := mem_itemsOf.mp hmem
    simpa [hread, Except.toOption] using h s hs
  · intro h s hs
    cases hread : read s with
    | error e => rfl
    | ok item => exact h item (mem_itemsOf.mpr ⟨s, hs, hread⟩)

theorem passedOverEndpoint_iff {t : EndpointTable D} :
    (∀ s ∈ samples, ((read s).toOption.all (passedOverEndpoint t)) = true) ↔
      (∀ a ∈ announcedOf (itemsOf read samples), t.handedNewer a.data a.sequence = true) ∧
        disposedOf (itemsOf read samples) = [] := by
  rw [all_read_iff, List.eq_nil_iff_forall_not_mem]
  constructor
  · intro h
    refine ⟨fun a ha => h _ (mem_announcedOf.mp ha), fun g hg => ?_⟩
    exact absurd (h _ (mem_disposedOf.mp hg)) (by simp [passedOverEndpoint])
  · rintro ⟨hadded, hremoved⟩ item hmem
    cases item with
    | announced a => exact hadded a (mem_announcedOf.mpr hmem)
    | disposed g => exact absurd (mem_disposedOf.mpr hmem) (hremoved g)
    | nothing => rfl

omit [Endpoint D] in
theorem passedOverTopic_iff {topics : SortedMap Guid D} :
    (∀ s ∈ samples, ((read s).toOption.all (passedOverTopic topics)) = true) ↔
      announcedOf (itemsOf read samples) = [] ∧
        ∀ g ∈ disposedOf (itemsOf read samples), topics.get? g = none := by
  rw [all_read_iff, List.eq_nil_iff_forall_not_mem]
  constructor
  · intro h
    refine ⟨fun a ha => ?_, fun g hg => ?_⟩
    · exact absurd (h _ (mem_announcedOf.mp ha)) (by simp [passedOverTopic])
    · simpa [passedOverTopic] using h _ (mem_disposedOf.mp hg)
  · rintro ⟨hadded, hremoved⟩ item hmem
    cases item with
    | announced a => exact absurd (mem_announcedOf.mpr hmem) (hadded a)
    | disposed g => simp [passedOverTopic, hremoved g (mem_disposedOf.mpr hmem)]
    | nothing => rfl

omit [Endpoint D] in
theorem itemsOf_filter (samples : List DeliveredSample) :
    itemsOf read (samples.filter fun s => (read s).toBool) = itemsOf read samples := by
  induction samples with
  | nil => rfl
  | cons s rest ih =>
    unfold itemsOf at ih ⊢
    cases hread : read s with
    | error e =>
      have hbool : (read s).toBool = false := by rw [hread]; rfl
      have hnone : (read s).toOption = none := by rw [hread]; rfl
      simp only [List.filter_cons, List.filterMap_cons, hbool, hnone, Bool.false_eq_true, if_false]
      exact ih
    | ok item =>
      have hbool : (read s).toBool = true := by rw [hread]; rfl
      have hsome : (read s).toOption = some item := by rw [hread]; rfl
      simp only [List.filter_cons, List.filterMap_cons, hbool, hsome, if_true]
      rw [ih]

omit [Endpoint D] in
theorem partitionFrom_filter (samples : List DeliveredSample) :
    partitionFrom read {} (samples.filter fun s => (read s).toBool) =
      .ok ⟨announcedOf (itemsOf read samples), disposedOf (itemsOf read samples)⟩ := by
  rw [partitionFrom_of_all (fun s hs => (List.mem_filter.mp hs).2), itemsOf_filter, pushAll_eq]
  rfl

end Batch

section Refused

variable {codec} {st : SedpStack P S T} {writer : Guid} {now : Nat} {events : SedpEvents P S T}

variable {samples : List DeliveredSample}

omit [Endpoint S] [Endpoint T] in
theorem absorbPubDelta_refused_iff {read : ReadSample P}
    (hbad : ∃ s ∈ samples, (read s).toBool = false) :
    SameDiscovery (st.absorbPubDelta writer (partitionFrom read {} samples) now events)
        (st.absorbPubDelta writer
          (partitionFrom read {} (samples.filter fun s => (read s).toBool)) now events) ↔
      ∀ s ∈ samples, ((read s).toOption.all (passedOverEndpoint st.cache.publications)) = true := by
  obtain ⟨e, herr⟩ := partitionFrom_of_not_all hbad {}
  rw [herr, partitionFrom_filter, passedOverEndpoint_iff]
  have hadded := absorbAdded_reports_nothing now st.cache.publications st.cache.evicted
    (announcedOf (itemsOf read samples))
  constructor
  · intro h
    have hnew := h.new_publications
    have hgone := h.removed_publications
    simp only [absorbPubDelta, List.self_eq_append_right] at hnew hgone
    exact ⟨hadded.1.mp hnew, hgone⟩
  · rintro ⟨hpassed, hremoved⟩
    have hnothing := hadded.2 hpassed
    refine ⟨?_, Eq.refl _, ?_, Eq.refl _, ?_, Eq.refl _, Eq.refl _, Eq.refl _⟩
    · simp [absorbPubDelta, hnothing, hremoved, absorbRemoved]
    · simp [absorbPubDelta, hnothing]
    · simp [absorbPubDelta, hremoved]

omit [Endpoint P] [Endpoint T] in
theorem absorbSubDelta_refused_iff {read : ReadSample S}
    (hbad : ∃ s ∈ samples, (read s).toBool = false) :
    SameDiscovery (st.absorbSubDelta writer (partitionFrom read {} samples) now events)
        (st.absorbSubDelta writer
          (partitionFrom read {} (samples.filter fun s => (read s).toBool)) now events) ↔
      ∀ s ∈ samples,
        ((read s).toOption.all (passedOverEndpoint st.cache.subscriptions)) = true := by
  obtain ⟨e, herr⟩ := partitionFrom_of_not_all hbad {}
  rw [herr, partitionFrom_filter, passedOverEndpoint_iff]
  have hadded := absorbAdded_reports_nothing now st.cache.subscriptions st.cache.evicted
    (announcedOf (itemsOf read samples))
  constructor
  · intro h
    have hnew := h.new_subscriptions
    have hgone := h.removed_subscriptions
    simp only [absorbSubDelta, List.self_eq_append_right] at hnew hgone
    exact ⟨hadded.1.mp hnew, hgone⟩
  · rintro ⟨hpassed, hremoved⟩
    have hnothing := hadded.2 hpassed
    refine ⟨?_, Eq.refl _, Eq.refl _, ?_, Eq.refl _, ?_, Eq.refl _, Eq.refl _⟩
    · simp [absorbSubDelta, hnothing, hremoved, absorbRemoved]
    · simp [absorbSubDelta, hnothing]
    · simp [absorbSubDelta, hremoved]

omit [Endpoint P] [Endpoint S] in
theorem absorbTopicDelta_refused_iff {read : ReadSample T}
    (hbad : ∃ s ∈ samples, (read s).toBool = false) :
    SameDiscovery (st.absorbTopicDelta writer (partitionFrom read {} samples) events)
        (st.absorbTopicDelta writer
          (partitionFrom read {} (samples.filter fun s => (read s).toBool)) events) ↔
      ∀ s ∈ samples, ((read s).toOption.all (passedOverTopic st.topics)) = true := by
  obtain ⟨e, herr⟩ := partitionFrom_of_not_all hbad {}
  rw [herr, partitionFrom_filter, passedOverTopic_iff]
  constructor
  · intro h
    have hnew := h.new_topics
    have hgone := h.removed_topics
    simp only [absorbTopicDelta, List.self_eq_append_right, List.map_eq_nil_iff] at hnew hgone
    rw [hnew] at hgone
    exact ⟨hnew, (foldl_removeTopic_reports _ _).mp hgone⟩
  · rintro ⟨hadded, hremoved⟩
    have hnothing := foldl_removeTopic_nothing st.topics _ hremoved
    refine ⟨Eq.refl _, ?_, Eq.refl _, Eq.refl _, Eq.refl _, Eq.refl _, ?_, ?_⟩
    · simp [absorbTopicDelta, hadded, hnothing]
    · simp [absorbTopicDelta, hadded]
    · simp [absorbTopicDelta, hadded, hnothing]

end Refused

theorem absorb_leavingOut_iff (st : SedpStack P S T) (r : SedpReader) (writer : Guid)
    (sender : VendorId) (now : Nat) (events : SedpEvents P S T) (samples : List DeliveredSample) :
    SameDiscovery (st.absorb codec r writer sender now events samples)
        (st.absorb codec r writer sender now events
          (samples.filter (decodable codec r sender))) ↔
      (∀ s ∈ samples, decodable codec r sender s = true) ∨
        ∀ s ∈ samples, st.passedOver codec r sender s = true := by
  by_cases hall : ∀ s ∈ samples, decodable codec r sender s = true
  · rw [List.filter_eq_self.mpr hall]
    exact ⟨fun _ => .inl hall, fun _ => SameDiscovery.rfl⟩
  · simp only [hall, false_or]
    have hbad : ∃ s ∈ samples, decodable codec r sender s = false := by
      simpa using hall
    cases r with
    | publications => exact absorbPubDelta_refused_iff hbad
    | securePublications => exact absorbPubDelta_refused_iff hbad
    | subscriptions => exact absorbSubDelta_refused_iff hbad
    | secureSubscriptions => exact absorbSubDelta_refused_iff hbad
    | topics => exact absorbTopicDelta_refused_iff hbad

/-- One malformed announcement costs only itself exactly when nothing decodable was released with
it that would have changed something. -/
theorem refused_sample_costs_itself_iff (st : SedpStack P S T) (events : SedpEvents P S T)
    (w : Walked) (now : Nat) :
    SameDiscovery (handleSubmessage codec now (st, events) w)
        (handleLeavingOut codec now (st, events) w) ↔
      ∀ r writer, st.target w = some (r, writer) →
        (∀ s ∈ st.released now w r, decodable codec r w.source_vendor_id s = true) ∨
          ∀ s ∈ st.released now w r, st.passedOver codec r w.source_vendor_id s = true := by
  unfold handleSubmessage handleLeavingOut
  cases htarget : st.target w with
  | none =>
    simp only [reduceCtorEq, false_implies, implies_true, iff_true]
    exact SameDiscovery.rfl
  | some target =>
    obtain ⟨r, writer⟩ := target
    simp only [Option.some.injEq, Prod.mk.injEq, and_imp]
    rw [absorb_leavingOut_iff]
    constructor
    · rintro h r' writer' rfl rfl
      exact h
    · intro h
      exact h r writer (Eq.refl _) (Eq.refl _)

end SedpStack

namespace SedpFixture

structure Named where
  key : Guid
deriving DecidableEq

instance : Endpoint Named := ⟨Named.key⟩

def topicName : UInt16 := 0x0005
def typeName : UInt16 := 0x0007

def fromPlCdr (payload : Octets) : Except SedpReaderError Named :=
  if payload.length < 4 then .error (.wire (.unexpectedEof 4 0))
  else
    let found : Option Guid := do
      let pl ← serializedKey payload
      let guid ← pl.find Pid.endpointGuid
      let _ ← pl.find topicName
      let _ ← pl.find typeName
      Guid.ofOctets guid.value
    match found with
    | some g => .ok ⟨g⟩
    | none => .error (.wire (.valueOutOfRange "ENDPOINT_GUID missing or wrong length"))

def codec : SedpCodec Named Named Named := ⟨fromPlCdr, fromPlCdr, fun _ => fromPlCdr⟩

def announcement (g : Guid) : Octets :=
  [0x00, 0x03, 0x00, 0x00] ++ [0x5a, 0x00, 0x10, 0x00] ++ g.toBytes ++
    [0x05, 0x00, 0x08, 0x00, 0x02, 0x00, 0x00, 0x00, 0x54, 0x00, 0x00, 0x00] ++
    [0x07, 0x00, 0x08, 0x00, 0x02, 0x00, 0x00, 0x00, 0x54, 0x00, 0x00, 0x00] ++
    [0x01, 0x00, 0x00, 0x00]

def localPrefix : GuidPrefix := .repeated 2

def remotePrefix : GuidPrefix := .repeated 1

def remoteWriter : Guid := ⟨remotePrefix, .userWriterWithKey 0x10 0x20 0x30⟩

def publicationData (n : Int) (payload : Octets) : DataSubmessage where
  extraFlags := 0
  readerId := SedpReader.publications.readerId
  writerId := SedpReader.publications.writerId
  writerSn := n
  inlineQos := none
  dataFlag := true
  keyFlag := false
  nonStandardFlag := false
  serializedPayload := payload

def walked (d : DataSubmessage) : Walked := ⟨remotePrefix, .zerodds, localPrefix, .data d⟩

def stack : SedpStack Named Named Named :=
  (SedpStack.new localPrefix .zerodds).onParticipantDiscovered remotePrefix [] 0xFFFFFFFF

def stackWaiting : SedpStack Named Named Named :=
  (stack.handleDatagram codec [walked (publicationData 2 (announcement remoteWriter))] 0).1

/-- The first announcement is empty and takes the second, which was waiting, with it. -/
theorem good_announcement_lost :
    let w := walked (publicationData 1 [])
    ¬ SedpStack.SameDiscovery (SedpStack.handleSubmessage codec 1 (stackWaiting, {}) w)
        (SedpStack.handleLeavingOut codec 1 (stackWaiting, {}) w) := by
  intro w h
  exact absurd h.new_publications (by decide +kernel)

end SedpFixture

end ZeroDds.Discovery
