/-
Whose endpoints a participant's SEDP traffic touches.
-/
import ZeroDds.Discovery.RefusedSamples

namespace ZeroDds.Discovery

open Rtps

section Absorb

variable {D : Type}

theorem absorbAdded_other [Endpoint D] (now : Nat) {g : Guid} (added : List (Announced D))
    (hother : ∀ a ∈ added, (Endpoint.key a.data).guidPrefix ≠ g.guidPrefix) (t : EndpointTable D)
    (evicted : Nat) :
    (absorbAdded now t evicted added).1.entries.get? g = t.entries.get? g := by
  induction added generalizing t evicted with
  | nil => rfl
  | cons a rest ih =>
    have hrest : ∀ a ∈ rest, (Endpoint.key a.data).guidPrefix ≠ g.guidPrefix := fun x hx =>
      hother x (List.mem_cons_of_mem _ hx)
    unfold absorbAdded EndpointTable.insertAnnounced
    by_cases hnewer : t.handedNewer a.data a.sequence = true
    · simp only [hnewer, if_true]
      exact ih hrest t evicted
    · simp only [hnewer, Bool.false_eq_true, if_false]
      rw [ih hrest]
      exact t.insert_other a.data now (hother a List.mem_cons_self).symm

theorem absorbRemoved_other {g : Guid} (removed : List Guid) (hother : g ∉ removed)
    (t : EndpointTable D) : (absorbRemoved t removed).entries.get? g = t.entries.get? g := by
  induction removed generalizing t with
  | nil => rfl
  | cons x rest ih =>
    have hne : g ≠ x := fun heq => hother (heq ▸ List.mem_cons_self)
    have hrest : g ∉ rest := fun hmem => hother (List.mem_cons_of_mem _ hmem)
    have hcons : absorbRemoved t (x :: rest) = absorbRemoved (t.remove x) rest := rfl
    rw [hcons, ih hrest, EndpointTable.entries_remove, SortedMap.get?_erase, if_neg hne]

end Absorb

def namedIn {D : Type} [Endpoint D] : Except SedpReaderError (SedpDelta D) → List Guid
  | .error _ => []
  | .ok delta => delta.added.map (fun a => Endpoint.key a.data) ++ delta.removed

section Named

variable {D : Type} [Endpoint D] {delta : SedpDelta D} {p : GuidPrefix} {g : Guid}

theorem added_of_namedIn (hnamed : ∀ x ∈ namedIn (.ok delta), x.guidPrefix = p)
    (hg : g.guidPrefix ≠ p) :
    ∀ a ∈ delta.added, (Endpoint.key a.data).guidPrefix ≠ g.guidPrefix := by
  intro a ha heq
  apply hg
  rw [← heq]
  exact hnamed _ (List.mem_append_left _ (List.mem_map_of_mem ha))

theorem removed_of_namedIn (hnamed : ∀ x ∈ namedIn (.ok delta), x.guidPrefix = p)
    (hg : g.guidPrefix ≠ p) : g ∉ delta.removed := fun hmem =>
  hg (hnamed g (List.mem_append_right _ hmem))

end Named

namespace SedpStack

variable {P S T : Type} [Endpoint P] [Endpoint S] [Endpoint T]

structure SameEntries (st st' : SedpStack P S T) (g : Guid) : Prop where
  publication : st'.cache.publications.entries.get? g = st.cache.publications.entries.get? g
  subscription : st'.cache.subscriptions.entries.get? g = st.cache.subscriptions.entries.get? g

variable {p : GuidPrefix} {g : Guid}

omit [Endpoint S] [Endpoint T] in
theorem absorbPubDelta_other (st : SedpStack P S T) (writer : Guid) (now : Nat)
    (events : SedpEvents P S T) {delta : Except SedpReaderError (SedpDelta P)}
    (hnamed : ∀ x ∈ namedIn delta, x.guidPrefix = p) (hg : g.guidPrefix ≠ p) :
    SameEntries st (st.absorbPubDelta writer delta now events).1 g := by
  cases delta with
  | error e => exact ⟨rfl, rfl⟩
  | ok delta =>
    refine ⟨?_, rfl⟩
    show (absorbRemoved (absorbAdded now st.cache.publications st.cache.evicted delta.added).1
      delta.removed).entries.get? g = _
    rw [absorbRemoved_other _ (removed_of_namedIn hnamed hg)]
    exact absorbAdded_other now _ (added_of_namedIn hnamed hg) _ _

omit [Endpoint P] [Endpoint T] in
theorem absorbSubDelta_other (st : SedpStack P S T) (writer : Guid) (now : Nat)
    (events : SedpEvents P S T) {delta : Except SedpReaderError (SedpDelta S)}
    (hnamed : ∀ x ∈ namedIn delta, x.guidPrefix = p) (hg : g.guidPrefix ≠ p) :
    SameEntries st (st.absorbSubDelta writer delta now events).1 g := by
  cases delta with
  | error e => exact ⟨rfl, rfl⟩
  | ok delta =>
    refine ⟨rfl, ?_⟩
    show (absorbRemoved (absorbAdded now st.cache.subscriptions st.cache.evicted delta.added).1
      delta.removed).entries.get? g = _
    rw [absorbRemoved_other _ (removed_of_namedIn hnamed hg)]
    exact absorbAdded_other now _ (added_of_namedIn hnamed hg) _ _

omit [Endpoint P] [Endpoint S] in
theorem absorbTopicDelta_other (st : SedpStack P S T) (writer : Guid) (events : SedpEvents P S T)
    (delta : Except SedpReaderError (SedpDelta T)) (g : Guid) :
    SameEntries st (st.absorbTopicDelta writer delta events).1 g := by
  cases delta <;> exact ⟨rfl, rfl⟩

variable (codec : SedpCodec P S T)

def namedBy (r : SedpReader) (samples : List DeliveredSample) : List Guid :=
  match r with
  | .publications | .securePublications => namedIn (partitionPublicationSamples codec samples)
  | .subscriptions | .secureSubscriptions => namedIn (partitionSubscriptionSamples codec samples)
  | .topics => []

/-- What the submessage releases is about endpoints of the participant it comes from. -/
def NamesSource (st : SedpStack P S T) (i : Walked × Nat) : Prop :=
  ∀ t ∈ st.target i.1, ∀ g ∈ namedBy codec t.1 (st.released i.2 i.1 t.1),
    g.guidPrefix = i.1.sourceGuidPrefix

instance (st : SedpStack P S T) (i : Walked × Nat) : Decidable (st.NamesSource codec i) :=
  match h : st.target i.1 with
  | none => .isTrue (by simp [NamesSource, h])
  | some t =>
    decidable_of_iff (∀ g ∈ namedBy codec t.1 (st.released i.2 i.1 t.1),
        g.guidPrefix = i.1.sourceGuidPrefix) (by simp [NamesSource, h])

theorem absorb_other (st : SedpStack P S T) (r : SedpReader) (writer : Guid) (sender : VendorId)
    (now : Nat) (events : SedpEvents P S T) {samples : List DeliveredSample}
    (hnamed : ∀ x ∈ namedBy codec r samples, x.guidPrefix = p) (hg : g.guidPrefix ≠ p) :
    SameEntries st (st.absorb codec r writer sender now events samples).1 g := by
  cases r with
  | publications => exact absorbPubDelta_other st writer now events hnamed hg
  | securePublications => exact absorbPubDelta_other st writer now events hnamed hg
  | subscriptions => exact absorbSubDelta_other st writer now events hnamed hg
  | secureSubscriptions => exact absorbSubDelta_other st writer now events hnamed hg
  | topics => exact absorbTopicDelta_other st writer events _ g

theorem handleSubmessage_other {st : SedpStack P S T} {events : SedpEvents P S T}
    {i : Walked × Nat} (hown : st.NamesSource codec i) (hg : g.guidPrefix ≠ i.1.sourceGuidPrefix) :
    SameEntries st (handleSubmessage codec i.2 (st, events) i.1).1 g := by
  unfold handleSubmessage
  cases htarget : st.target i.1 with
  | none => exact ⟨rfl, rfl⟩
  | some t =>
    have hother := absorb_other codec (st.setReader t.1
        (receive (st.readers t.1) i.1.sourceGuidPrefix i.2 i.1.sub).1) t.1 t.2
      i.1.source_vendor_id i.2 (st.noteUnmatched t.1 t.2 i.1.sub events) (hown t htarget) hg
    exact ⟨hother.publication, hother.subscription⟩

theorem handleSubmessage_events (now : Nat) (st : SedpStack P S T) (events : SedpEvents P S T)
    (w : Walked) :
    (handleSubmessage codec now (st, events) w).1 = (handleSubmessage codec now (st, {}) w).1 := by
  unfold handleSubmessage
  cases st.target w with
  | none => rfl
  | some t =>
    obtain ⟨r, writer⟩ := t
    cases r with
    | publications | securePublications =>
      simp only [absorb]
      cases partitionPublicationSamples codec _ <;> rfl
    | subscriptions | secureSubscriptions =>
      simp only [absorb]
      cases partitionSubscriptionSamples codec _ <;> rfl
    | topics =>
      simp only [absorb]
      cases partitionTopicSamples codec _ _ <;> rfl

def datagramStep (st : SedpStack P S T) (d : List Walked × Nat) :
    SedpStack P S T × SedpEvents P S T :=
  st.handleDatagram codec d.1 d.2

/-- Every submessage of the datagram comes from the participant and names only its endpoints, in
the state in which the submessage is met. -/
def OwnDatagram (p : GuidPrefix) (st : SedpStack P S T) (d : List Walked × Nat) : Prop :=
  (∀ w ∈ d.1, w.sourceGuidPrefix = p) ∧
    RunOk (fun st w => handleSubmessage codec d.2 (st, {}) w)
      (fun st w => st.NamesSource codec (w, d.2)) st d.1

instance (p : GuidPrefix) (st : SedpStack P S T) (d : List Walked × Nat) :
    Decidable (st.OwnDatagram codec p d) :=
  inferInstanceAs (Decidable (_ ∧ _))

omit [Endpoint P] [Endpoint S] [Endpoint T] in
theorem SameEntries.trans {st st' st'' : SedpStack P S T} (h : SameEntries st st' g)
    (h' : SameEntries st' st'' g) : SameEntries st st'' g :=
  ⟨h'.publication.trans h.publication, h'.subscription.trans h.subscription⟩

theorem foldl_handleSubmessage_other (now : Nat) (hg : g.guidPrefix ≠ p) (walk : List Walked)
    (st : SedpStack P S T) (events : SedpEvents P S T) (hown : st.OwnDatagram codec p (walk, now)) :
    SameEntries st (walk.foldl (handleSubmessage codec now) (st, events)).1 g := by
  induction walk generalizing st events with
  | nil => exact ⟨rfl, rfl⟩
  | cons w rest ih =>
    obtain ⟨hsource, hnames, hrest⟩ := hown
    have hg' : g.guidPrefix ≠ w.sourceGuidPrefix := by
      rw [hsource w List.mem_cons_self]
      exact hg
    have hfirst : SameEntries st (handleSubmessage codec now (st, events) w).1 g :=
      handleSubmessage_other codec hnames hg'
    rw [← handleSubmessage_events codec now st events w] at hrest
    exact hfirst.trans
      (ih _ _ ⟨fun x hx => hsource x (List.mem_cons_of_mem _ hx), hrest⟩)

/-- Datagrams of one participant that name only its own endpoints leave those of every other
participant as they were. -/
theorem own_traffic_leaves_the_others {p : GuidPrefix} {st₀ st : SedpStack P S T}
    {h : History (List Walked × Nat) (SedpEvents P S T)}
    (hrun : Reaches (datagramStep codec) (OwnDatagram codec p) st₀ h st) {g : Guid}
    (hg : g.guidPrefix ≠ p) : SameEntries st₀ st g := by
  refine hrun.invariant (P := fun _ st => SameEntries st₀ st g) ⟨rfl, rfl⟩ ?_
  intro _ st d hsame hown
  exact hsame.trans (foldl_handleSubmessage_other codec d.2 hg d.1 st {} hown)

end SedpStack

namespace SedpFixture

def otherPrefix : GuidPrefix := .repeated 3

def stackOfTwo : SedpStack Named Named Named :=
  ((stack.onParticipantDiscovered otherPrefix [] 0xFFFFFFFF).handleDatagram codec
    [walked (publicationData 1 (announcement remoteWriter))] 0).1

def publicationDispose (n : Int) (g : Guid) : DataSubmessage :=
  { publicationData n [] with
    dataFlag := false
    inlineQos := some
      (InlineQos.lifecycleInlineQos (g.guidPrefix.octets ++ g.entityId.octets) 1) }

def disposeFromOther (g : Guid) : Walked :=
  ⟨otherPrefix, .zerodds, localPrefix, .data (publicationDispose 1 g)⟩

/-- The other participant disposes an endpoint of its own. -/
theorem other_disposes_its_own :
    let d := ([disposeFromOther ⟨otherPrefix, remoteWriter.entityId⟩], 1)
    (SedpStack.datagramStep codec stackOfTwo d).1.cache.publications.entries.get? remoteWriter =
      some ⟨⟨remoteWriter⟩, 0, none⟩ := by
  intro d
  have hok : RunOk (SedpStack.datagramStep codec) (SedpStack.OwnDatagram codec otherPrefix)
      stackOfTwo [d] := by decide +kernel
  have hne : remoteWriter.guidPrefix ≠ otherPrefix := by decide
  have hsame := SedpStack.own_traffic_leaves_the_others codec (reaches_run hok) hne
  exact hsame.publication.trans (by decide +kernel)

/-- The other participant disposes an endpoint of the first. -/
theorem other_disposes_the_first :
    (∀ w ∈ [disposeFromOther remoteWriter], w.sourceGuidPrefix = otherPrefix) ∧
      remoteWriter.guidPrefix ≠ otherPrefix ∧
      stackOfTwo.cache.publications.entries.get? remoteWriter = some ⟨⟨remoteWriter⟩, 0, none⟩ ∧
      (SedpStack.datagramStep codec stackOfTwo
        ([disposeFromOther remoteWriter], 1)).1.cache.publications.entries.get? remoteWriter =
          none := by
  decide +kernel

end SedpFixture

end ZeroDds.Discovery
